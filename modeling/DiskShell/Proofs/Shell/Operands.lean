import Mathlib
import DiskShell.Proofs.Shell.Changes

/-!
Commands and their operands. A command with any number of operands makes one change for each, on the
disk that the one before has left, and prints a line for each that fails (`forEach_eq`); a command
that prints files looks at each and changes nothing. The others make the one change that they are
given operands for (`operands_in_turn`).
-/

namespace DiskShell.Shell

/-! ## Contents -/

/-- What is printed for a path: the lines of a file, or why there are none. -/
def printed (command path : String) : Option Node → List String
  | some (.file content) => Text.cut '\n' content
  | some (.directory _) => [command ++ ": " ++ path ++ ": " ++ "Is a directory"]
  | none => [command ++ ": " ++ path ++ ": " ++ "No such file or directory"]

variable {σ : Type}

theorem contentLines_eq (d : Disk σ) (command cwd path : String) :
    contentLines d command cwd path = printed command path (d.node? path cwd) := by
  rw [contentLines, Disk.read?, Disk.isDirectory]
  cases d.node? path cwd with
  | none => rfl
  | some n => cases n <;> rfl

theorem printFiles_eq (d : Disk σ) (command cwd : String) {paths : List String} (h : paths ≠ []) :
    printFiles d command cwd paths =
      paths.flatMap fun path => printed command path (d.node? path cwd) := by
  cases paths with
  | nil => exact absurd rfl h
  | cons path rest =>
    exact congrArg (path :: rest).flatMap (funext (contentLines_eq d command cwd))

variable [Store σ]

/-! ## One operand after the other -/

/-- What a command comes to that makes a change of each operand. -/
def inTurn (d : Disk σ) (cwd : String) (change : String → Change)
    (complaint : String → DiskError → String) (paths : List String) : Disk σ × Output :=
  (d.applyAll (paths.map change),
    .print cwd (failures complaint paths (d.results (paths.map change))))

/-- What a command comes to that makes one change. -/
def once (d : Disk σ) (cwd : String) (c : Change) (complaint : DiskError → String) :
    Disk σ × Output :=
  ((d.apply c).1, .print cwd (failure complaint (d.apply c).2))

theorem changing_withOperands (d : Disk σ) (cwd command : String) (change : String → Change)
    (complaint : String → DiskError → String) {paths : List String} (h : paths ≠ []) :
    changing cwd (withOperands command (fun d path => d.apply (change path)) complaint d paths) =
      inTurn d cwd change complaint paths := by
  cases paths with
  | nil => exact absurd rfl h
  | cons path rest => exact congrArg (changing cwd) (forEach_eq change complaint d (path :: rest))

theorem changing_report (d : Disk σ) (cwd : String) (c : Change)
    (complaint : DiskError → String) :
    changing cwd (report complaint (d.apply c)) = once d cwd c complaint := by
  rw [changing, report_eq, once]

/-! ## Commands -/

/-- **Operands are taken in turn.** A line runs its command with its operands. Of `mkdir`, `rmdir`,
`touch` and `rm` each operand is one change, on the disk that the ones before have left, whether or
not they have succeeded; those that fail are reported, one line each, in order. `cat` and `read`
print each file, or whether there is a directory or nothing, and leave the disk as it is. `write`,
`mv` and `cp` make one change and print a line only if it fails; what follows the two paths of `mv`
and `cp` is ignored. Without the operands they need the commands make no change. -/
theorem operands_in_turn (d : Disk σ) (cwd : String) :
    (∀ line b, command? line = some b → runLine d line cwd = runBuiltin d cwd (operands line) b) ∧
      (∀ paths, paths ≠ [] →
        runBuiltin d cwd paths .mkdir = inTurn d cwd (fun path => .makeDirectory path cwd)
            (fun path e => "mkdir: cannot create directory '" ++ path ++ "': " ++ e.reason) paths ∧
          runBuiltin d cwd paths .rmdir = inTurn d cwd (fun path => .removeDirectory path cwd)
            (fun path e => "rmdir: failed to remove '" ++ path ++ "': " ++ e.reason) paths ∧
          runBuiltin d cwd paths .touch = inTurn d cwd (fun path => .touch path cwd)
            (fun path e => "touch: cannot touch '" ++ path ++ "': " ++ e.reason) paths ∧
          runBuiltin d cwd paths .rm = inTurn d cwd (fun path => .remove path cwd)
            (fun path e => "rm: cannot remove '" ++ path ++ "': " ++ e.reason) paths ∧
          runBuiltin d cwd paths .cat = (d, .print cwd (paths.flatMap fun path =>
            printed "cat" path (d.node? path cwd))) ∧
          runBuiltin d cwd paths .read = (d, .print cwd (paths.flatMap fun path =>
            printed "read" path (d.node? path cwd)))) ∧
      (∀ path text, runBuiltin d cwd (path :: text) .write =
        once d cwd (.write path (" ".intercalate text) cwd)
          fun e => "write: cannot write '" ++ path ++ "': " ++ e.reason) ∧
      (∀ source target ignored,
        runBuiltin d cwd (source :: target :: ignored) .mv = once d cwd (.move source target cwd)
            (fun e => "mv: cannot move '" ++ source ++ "' to '" ++ target ++ "': " ++ e.reason) ∧
          runBuiltin d cwd (source :: target :: ignored) .cp = once d cwd (.copy source target cwd)
            fun e => "cp: cannot copy '" ++ source ++ "' to '" ++ target ++ "': " ++ e.reason) ∧
      (∀ c complaint, (once d cwd c complaint).2.lines = [] ↔ (d.apply c).2 = .ok ()) ∧
      (∀ b ∈ [Builtin.mkdir, .rmdir, .touch, .rm, .cat, .read, .write, .mv, .cp],
        runBuiltin d cwd [] b = (d, .print cwd [b.name ++ ": missing operand"])) ∧
      ∀ b ∈ [Builtin.mv, .cp], ∀ source, runBuiltin d cwd [source] b =
        (d, .print cwd [b.name ++ ": missing destination file operand after '" ++ source ++ "'"]) := by
  refine ⟨fun _ _ h => runLine_of_command? h d cwd, fun paths h => ⟨?_, ?_, ?_, ?_, ?_, ?_⟩,
    fun path text => ?_, fun source target ignored => ⟨?_, ?_⟩, fun c complaint => ?_,
    fun b hb => ?_, fun b hb source => ?_⟩
  · exact changing_withOperands d cwd "mkdir" (fun path => .makeDirectory path cwd) _ h
  · exact changing_withOperands d cwd "rmdir" (fun path => .removeDirectory path cwd) _ h
  · exact changing_withOperands d cwd "touch" (fun path => .touch path cwd) _ h
  · exact changing_withOperands d cwd "rm" (fun path => .remove path cwd) _ h
  · rw [runBuiltin, printFiles_eq d "cat" cwd h]
  · rw [runBuiltin, printFiles_eq d "read" cwd h]
  · exact changing_report d cwd (.write path (" ".intercalate text) cwd) _
  · exact changing_report d cwd (.move source target cwd) _
  · exact changing_report d cwd (.copy source target cwd) _
  · exact failure_eq_nil_iff complaint _
  · fin_cases hb <;> rfl
  · fin_cases hb <;> rfl

/-- A file goes, then its directory, and a third operand fails. -/
theorem directory_emptied_and_removed :
    let d : Disk Memory := ⟨[("d", .directory [("f", .file "x")])], Memory.empty, .default⟩
    let removed := runLine d "rm d/f d g" "/"
    command? "rm d/f d g" = some .rm ∧ operands "rm d/f d g" = ["d/f", "d", "g"] ∧
      removed.1.tree = [] ∧ removed.2.lines = ["rm: cannot remove 'g': No such file or directory"] ∧
      (runBuiltin d "/" ["d", "d/f"] .cat).2.lines = ["cat: d: Is a directory", "x"] ∧
      (runBuiltin d "/" ["d", "/e", "d"] .mv).2.lines = [] ∧
      (runBuiltin d "/" ["d"] .mv).1 = d ∧ (runBuiltin d "/" [] .touch).1 = d := by
  intro d removed
  obtain ⟨hline, heach, -, htransfer, hsilent, hnone, hone⟩ := operands_in_turn d "/"
  have hcommand : command? "rm d/f d g" = some .rm := by cbv
  have hoperands : operands "rm d/f d g" = ["d/f", "d", "g"] := by cbv
  obtain ⟨-, -, -, hrm, -⟩ := heach ["d/f", "d", "g"] (List.cons_ne_nil _ _)
  obtain ⟨-, -, -, -, hcat, -⟩ := heach ["d", "d/f"] (List.cons_ne_nil _ _)
  have hremoved : removed = runBuiltin d "/" ["d/f", "d", "g"] .rm := by
    rw [← hoperands]
    exact hline _ _ hcommand
  have hmoved := (htransfer "d" "/e" ["d"]).1
  refine ⟨hcommand, hoperands, ?_, ?_, ?_, ?_, ?_, ?_⟩
  · rw [hremoved, hrm]
    rfl
  · rw [hremoved, hrm]
    rfl
  · rw [hcat]
    rfl
  · rw [hmoved]
    refine (hsilent _ _).mpr ?_
    cbv
  · rw [hone .mv (by decide) "d"]
  · rw [hnone .touch (by decide)]

end DiskShell.Shell
