import DiskShell.Proofs.Disk.Alike
import DiskShell.Shell.Run

/-!
Command lines on disks that differ in nothing but their stores. Each part of a command is shown to
give disks that are alike and the same lines; so no run of requests and command lines can tell one
store from another (`same_on_every_store`).
-/

namespace DiskShell.Shell

open Disk (Alike AlikeWith)

variable {σ τ : Type} {d : Disk σ} {e : Disk τ}

/-! ## Printing -/

theorem listLines_congr (h : d.Alike e) (cwd target : String) :
    listLines d cwd target = listLines e cwd target :=
  h.elim fun _ _ _ _ => rfl

theorem printFiles_congr (h : d.Alike e) (command cwd : String) (paths : List String) :
    printFiles d command cwd paths = printFiles e command cwd paths :=
  h.elim fun _ _ _ _ => rfl

theorem changeDirectory_congr (h : d.Alike e) (cwd target : String) :
    changeDirectory d cwd target = changeDirectory e cwd target :=
  h.elim fun _ _ _ _ => rfl

/-! ## Changing -/

theorem alikeWith_report (complaint : DiskError → String) {x : Disk σ × Except DiskError Unit}
    {y : Disk τ × Except DiskError Unit} (h : AlikeWith x y) :
    AlikeWith (report complaint x) (report complaint y) := by
  obtain ⟨d, result⟩ := x
  obtain ⟨e, result'⟩ := y
  obtain ⟨hdisk, rfl⟩ := h
  cases result <;> exact ⟨hdisk, rfl⟩

theorem alikeWith_changing (cwd : String) {x : Effect σ} {y : Effect τ} (h : AlikeWith x y) :
    AlikeWith (changing cwd x) (changing cwd y) :=
  ⟨h.1, congrArg (Output.print cwd) h.2⟩

variable [Store σ] [Store τ]

/-- Whatever the operands before have done, the next one finds disks that are alike. -/
theorem alikeWith_forEach (change : String → Change) (complaint : String → DiskError → String)
    (h : d.Alike e) (paths : List String) :
    AlikeWith (forEach (fun d path => d.apply (change path)) complaint d paths)
      (forEach (fun e path => e.apply (change path)) complaint e paths) := by
  induction paths generalizing d e with
  | nil => exact ⟨h, rfl⟩
  | cons path rest ih =>
    obtain ⟨hdisk, hlines⟩ := alikeWith_report (complaint path) (h.apply (change path))
    obtain ⟨hlast, hmore⟩ := ih hdisk
    refine ⟨hlast, ?_⟩
    simp only [forEach, hlines, hmore]

theorem alikeWith_withOperands (change : String → Change) {command : String}
    {complaint : String → DiskError → String} (h : d.Alike e) (paths : List String) :
    AlikeWith (withOperands command (fun d path => d.apply (change path)) complaint d paths)
      (withOperands command (fun e path => e.apply (change path)) complaint e paths) := by
  cases paths with
  | nil => exact ⟨h, rfl⟩
  | cons path rest => exact alikeWith_forEach change complaint h (path :: rest)

theorem alikeWith_moveOrCopy (change : String → String → Change) {command verb : String}
    (h : d.Alike e) (args : List String) :
    AlikeWith (moveOrCopy command verb (fun d s t => d.apply (change s t)) d args)
      (moveOrCopy command verb (fun e s t => e.apply (change s t)) e args) := by
  match args with
  | [] => exact ⟨h, rfl⟩
  | [source] => exact ⟨h, rfl⟩
  | source :: target :: _ => exact alikeWith_report _ (h.apply (change source target))

theorem alikeWith_writeFile (h : d.Alike e) (cwd : String) (args : List String) :
    AlikeWith (writeFile d cwd args) (writeFile e cwd args) := by
  cases args with
  | nil => exact ⟨h, rfl⟩
  | cons path text => exact alikeWith_report _ (h.apply (.write path (" ".intercalate text) cwd))

/-! ## Command lines -/

theorem alikeWith_runBuiltin (h : d.Alike e) (cwd : String) (args : List String) (b : Builtin) :
    AlikeWith (runBuiltin d cwd args b) (runBuiltin e cwd args b) := by
  cases b with
  | help | pwd | echo | clear => exact ⟨h, rfl⟩
  | ls => exact ⟨h, congrArg (Output.print cwd) (listLines_congr h cwd _)⟩
  | cat => exact ⟨h, congrArg (Output.print cwd) (printFiles_congr h "cat" cwd args)⟩
  | read => exact ⟨h, congrArg (Output.print cwd) (printFiles_congr h "read" cwd args)⟩
  | cd => exact ⟨h, changeDirectory_congr h cwd _⟩
  | mkdir =>
    exact alikeWith_changing cwd
      (alikeWith_withOperands (fun path => .makeDirectory path cwd) h args)
  | rmdir =>
    exact alikeWith_changing cwd
      (alikeWith_withOperands (fun path => .removeDirectory path cwd) h args)
  | touch =>
    exact alikeWith_changing cwd (alikeWith_withOperands (fun path => .touch path cwd) h args)
  | rm =>
    exact alikeWith_changing cwd (alikeWith_withOperands (fun path => .remove path cwd) h args)
  | write => exact alikeWith_changing cwd (alikeWith_writeFile h cwd args)
  | mv => exact alikeWith_changing cwd (alikeWith_moveOrCopy (fun s t => .move s t cwd) h args)
  | cp => exact alikeWith_changing cwd (alikeWith_moveOrCopy (fun s t => .copy s t cwd) h args)

theorem alikeWith_runLine (h : d.Alike e) (line cwd : String) :
    AlikeWith (runLine d line cwd) (runLine e line cwd) := by
  unfold runLine
  split
  · exact ⟨h, rfl⟩
  · dsimp only
    split
    · exact alikeWith_runBuiltin h cwd _ _
    · exact ⟨h, rfl⟩

/-! ## Runs -/

/-- What a disk is given from outside: a request, or a command line and its working directory. -/
inductive Input where
  | request (r : Request)
  | line (text cwd : String)
  deriving DecidableEq, Repr

inductive Reply where
  | answer (a : Answer)
  | output (o : Output)

def respond (d : Disk σ) : Input → Disk σ × Reply
  | .request r => ((d.perform r).1, .answer (d.perform r).2)
  | .line text cwd => ((runLine d text cwd).1, .output (runLine d text cwd).2)

/-- The disk after all inputs, and the replies in their order. -/
def respondAll (d : Disk σ) : List Input → Disk σ × List Reply
  | [] => (d, [])
  | i :: rest =>
    let (d, reply) := respond d i
    let (d, replies) := respondAll d rest
    (d, reply :: replies)

theorem alikeWith_respond (h : d.Alike e) (i : Input) : AlikeWith (respond d i) (respond e i) := by
  cases i with
  | request r =>
    obtain ⟨hdisk, hanswer⟩ := h.perform r
    exact ⟨hdisk, congrArg Reply.answer hanswer⟩
  | line text cwd =>
    obtain ⟨hdisk, houtput⟩ := alikeWith_runLine h text cwd
    exact ⟨hdisk, congrArg Reply.output houtput⟩

theorem alikeWith_respondAll (h : d.Alike e) (inputs : List Input) :
    AlikeWith (respondAll d inputs) (respondAll e inputs) := by
  induction inputs generalizing d e with
  | nil => exact ⟨h, rfl⟩
  | cons i rest ih =>
    obtain ⟨hdisk, hreply⟩ := alikeWith_respond h i
    obtain ⟨hlast, hreplies⟩ := ih hdisk
    refine ⟨hlast, ?_⟩
    simp only [respondAll, hreply, hreplies]

/-- **A store cannot be told from another by what the disk shows.** From the same tree and the same
configuration, the same inputs have the same replies and lead to the same tree, whatever the two
stores answer. In particular a change reports and leaves what its edit comes to on the tree alone:
a store that refuses makes no error of it and takes nothing back. -/
theorem same_on_every_store (t : Tree) (config : DiskConfig) (s : σ) (s' : τ)
    (inputs : List Input) :
    let d : Disk σ := ⟨t, s, config⟩
    let e : Disk τ := ⟨t, s', config⟩
    (respondAll d inputs).2 = (respondAll e inputs).2 ∧
      (respondAll d inputs).1.tree = (respondAll e inputs).1.tree ∧
      (respondAll d inputs).1.config = (respondAll e inputs).1.config ∧
      ∀ c, (d.apply c).2 = (c.edit config t).2 ∧ (d.apply c).1.tree = (c.edit config t).1 := by
  intro d e
  have halike : d.Alike e := ⟨rfl, rfl⟩
  obtain ⟨hdisk, hreplies⟩ := alikeWith_respondAll halike inputs
  refine ⟨hreplies, hdisk.tree_eq, hdisk.config_eq, fun c => ?_⟩
  rw [Disk.apply_eq]
  exact ⟨rfl, rfl⟩

end DiskShell.Shell
