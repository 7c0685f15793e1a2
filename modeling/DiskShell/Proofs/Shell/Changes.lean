import DiskShell.Proofs.Disk.Run
import DiskShell.Proofs.Shell.Alike

/-!
What a command line does to a disk: a list of changes, which the line alone decides, made one after
the other (`disk_runLine`). So what every change keeps is kept by every line and in every run of
requests and lines (`respondAll_induction`).
-/

namespace DiskShell

/-- The disk after some changes, each made on the disk that the one before has left. -/
def Disk.applyAll {σ : Type} [Store σ] (d : Disk σ) (changes : List Change) : Disk σ :=
  changes.foldl (fun d c => (d.apply c).1) d

/-- What each of some changes answers, made on the disk that the ones before have left. -/
def Disk.results {σ : Type} [Store σ] (d : Disk σ) (changes : List Change) :
    List (Except DiskError Unit) :=
  changes.mapIdx fun i c => ((d.applyAll (changes.take i)).apply c).2

theorem Disk.results_cons {σ : Type} [Store σ] (d : Disk σ) (c : Change) (rest : List Change) :
    d.results (c :: rest) = (d.apply c).2 :: (d.apply c).1.results rest := by
  rw [results, List.mapIdx_cons]
  rfl

namespace Shell

/-- The changes that a command makes, in their order. -/
def Builtin.changes (cwd : String) (args : List String) : Builtin → List Change
  | mkdir => args.map fun path => .makeDirectory path cwd
  | rmdir => args.map fun path => .removeDirectory path cwd
  | touch => args.map fun path => .touch path cwd
  | rm => args.map fun path => .remove path cwd
  | write =>
    match args with
    | [] => []
    | path :: text => [.write path (" ".intercalate text) cwd]
  | mv =>
    match args with
    | source :: target :: _ => [.move source target cwd]
    | _ => []
  | cp =>
    match args with
    | source :: target :: _ => [.copy source target cwd]
    | _ => []
  | _ => []

/-- The command that a line runs, if it runs one. -/
def command? (line : String) : Option Builtin :=
  (words line).head?.bind fun first => Builtin.ofName? (Text.lowercase first)

def operands (line : String) : List String := (words line).tail

def changesOf (line cwd : String) : List Change :=
  match command? line with
  | some b => b.changes cwd (operands line)
  | none => []

/-! ## Lines for failures -/

/-- The line for a change that has failed; none for one that has succeeded. -/
def failure (complaint : DiskError → String) : Except DiskError Unit → List String
  | .ok () => []
  | .error e => [complaint e]

theorem failure_eq_nil_iff (complaint : DiskError → String) (result : Except DiskError Unit) :
    failure complaint result = [] ↔ result = .ok () := by
  cases result <;> simp [failure]

/-- The lines for the changes that have failed, in the order of the operands. -/
def failures (complaint : String → DiskError → String) (paths : List String)
    (results : List (Except DiskError Unit)) : List String :=
  (paths.zip results).flatMap fun p => failure (complaint p.1) p.2

variable {σ : Type}

theorem report_eq (complaint : DiskError → String) (result : Disk σ × Except DiskError Unit) :
    report complaint result = (result.1, failure complaint result.2) := by
  obtain ⟨d, r⟩ := result
  cases r <;> rfl

theorem disk_report (complaint : DiskError → String) (result : Disk σ × Except DiskError Unit) :
    (report complaint result).1 = result.1 := by
  rw [report_eq]

variable [Store σ]

/-! ## Commands -/

/-- **Operands in turn**: the changes are made one after the other, whether or not they succeed. -/
theorem forEach_eq (change : String → Change) (complaint : String → DiskError → String)
    (d : Disk σ) (paths : List String) :
    forEach (fun d path => d.apply (change path)) complaint d paths =
      (d.applyAll (paths.map change), failures complaint paths (d.results (paths.map change))) := by
  induction paths generalizing d with
  | nil => rfl
  | cons path rest ih =>
    rw [forEach, report_eq, List.map_cons, Disk.results_cons]
    dsimp only
    rw [ih]
    rfl

theorem disk_withOperands (command : String) (change : String → Change)
    (complaint : String → DiskError → String) (d : Disk σ) (paths : List String) :
    (withOperands command (fun d path => d.apply (change path)) complaint d paths).1 =
      d.applyAll (paths.map change) := by
  cases paths with
  | nil => rfl
  | cons path rest => exact congrArg Prod.fst (forEach_eq change complaint d (path :: rest))

theorem disk_runBuiltin (d : Disk σ) (cwd : String) (args : List String) (b : Builtin) :
    (runBuiltin d cwd args b).1 = d.applyAll (b.changes cwd args) := by
  cases b with
  | mkdir => exact disk_withOperands "mkdir" (fun path => .makeDirectory path cwd) _ d args
  | rmdir => exact disk_withOperands "rmdir" (fun path => .removeDirectory path cwd) _ d args
  | touch => exact disk_withOperands "touch" (fun path => .touch path cwd) _ d args
  | rm => exact disk_withOperands "rm" (fun path => .remove path cwd) _ d args
  | write =>
    cases args with
    | nil => rfl
    | cons path text => exact disk_report _ _
  | mv =>
    match args with
    | [] => rfl
    | [_] => rfl
    | _ :: _ :: _ => exact disk_report _ _
  | cp =>
    match args with
    | [] => rfl
    | [_] => rfl
    | _ :: _ :: _ => exact disk_report _ _
  | _ => rfl

/-! ## Lines -/

theorem runLine_of_command? {line : String} {b : Builtin} (h : command? line = some b)
    (d : Disk σ) (cwd : String) : runLine d line cwd = runBuiltin d cwd (operands line) b := by
  obtain ⟨first, hfirst, hname⟩ := Option.bind_eq_some_iff.mp h
  obtain ⟨args, hwords⟩ := List.head?_eq_some_iff.mp hfirst
  simp only [runLine, operands, hwords, hname, List.tail_cons]

/-- A line that runs no command leaves the disk and the working directory alone. -/
theorem runLine_of_command?_eq_none {line : String} (h : command? line = none) (d : Disk σ)
    (cwd : String) : (runLine d line cwd).1 = d ∧ (runLine d line cwd).2.cwd = cwd := by
  unfold command? at h
  unfold runLine
  cases hwords : words line with
  | nil => exact ⟨rfl, rfl⟩
  | cons first args =>
    rw [hwords] at h
    have hname : Builtin.ofName? (Text.lowercase first) = none := h
    simp [hname]

/-- **A line is a list of changes**, whatever the disk. -/
theorem disk_runLine (d : Disk σ) (line cwd : String) :
    (runLine d line cwd).1 = d.applyAll (changesOf line cwd) := by
  unfold changesOf
  cases h : command? line with
  | none => exact (runLine_of_command?_eq_none h d cwd).1
  | some b =>
    rw [runLine_of_command? h]
    exact disk_runBuiltin d cwd (operands line) b

/-! ## What changes keep -/

theorem applyAll_induction {P : Disk σ → Prop} {d : Disk σ} {changes : List Change} (hd : P d)
    (hstep : ∀ (d : Disk σ) c, c ∈ changes → P d → P (d.apply c).1) : P (d.applyAll changes) := by
  induction changes generalizing d with
  | nil => exact hd
  | cons c rest ih =>
    have hfirst : P (d.apply c).1 := hstep d c (List.mem_cons_self ..) hd
    exact ih hfirst fun d c hc => hstep d c (List.mem_cons_of_mem _ hc)

/-- What holds of a disk and is kept by every change holds after every run of inputs. -/
theorem respondAll_induction {P : Disk σ → Prop} {d : Disk σ} (hd : P d)
    (hstep : ∀ (d : Disk σ) c, P d → P (d.apply c).1) (inputs : List Input) :
    P (respondAll d inputs).1 := by
  induction inputs generalizing d with
  | nil => exact hd
  | cons i rest ih =>
    have hfirst : P (respond d i).1 := by
      cases i with
      | request r => exact Disk.run_induction hd hstep [r]
      | line text cwd =>
        show P (runLine d text cwd).1
        rw [disk_runLine]
        exact applyAll_induction hd fun d c _ => hstep d c
    exact ih hfirst

theorem wellFormed_respondAll (store : σ) (config : DiskConfig) (inputs : List Input) :
    (respondAll (Disk.load store config) inputs).1.tree.WellFormed :=
  respondAll_induction (P := fun d => d.tree.WellFormed) (Disk.wellFormed_restore config _)
    (fun _ c hd => Disk.wellFormed_apply hd c) inputs

end Shell

end DiskShell
