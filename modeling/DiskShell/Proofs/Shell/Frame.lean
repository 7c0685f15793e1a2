import DiskShell.Proofs.Shell.Session
import DiskShell.Proofs.Shell.Spacing

/-!
What a line can change. Seven commands can change the disk, and only with operands enough to name
what they work on; `cd` alone can change the working directory, and `clear` alone the screen; a line
is given back only if it runs no command (`only_changing_commands_change`).
-/

namespace DiskShell.Shell

open Text (isBlanks)

/-! ## The first word -/

/-- The first word of a line in lower case. -/
def commandWord? (line : String) : Option String := (words line).head?.map Text.lowercase

theorem command?_eq_some_iff {line : String} {b : Builtin} :
    command? line = some b ↔ commandWord? line = some b.name := by
  unfold command? commandWord?
  cases (words line).head? with
  | none => simp
  | some first => simpa using Builtin.ofName?_lowercase_eq_some_iff

/-- A line of blanks has no words. -/
theorem words_of_isBlanks {line : String} (h : isBlanks line = true) : words line = [] := by
  have hwords := words_blanks_append h ""
  rw [String.append_empty] at hwords
  rw [hwords]
  rfl

theorem command?_of_isBlanks {line : String} (h : isBlanks line = true) : command? line = none := by
  rw [command?, words_of_isBlanks h]
  rfl

/-! ## Commands -/

/-- The commands that make a change, and how many operands they need for it. -/
theorem changes_ne_nil_iff (b : Builtin) (cwd : String) (args : List String) :
    b.changes cwd args ≠ [] ↔
      b ∈ [Builtin.mkdir, .rmdir, .touch, .write, .rm] ∧ 1 ≤ args.length ∨
        b ∈ [Builtin.mv, .cp] ∧ 2 ≤ args.length := by
  cases b with
  | mv | cp =>
    match args with
    | [] => simp [Builtin.changes]
    | [_] => simp [Builtin.changes]
    | _ :: _ :: _ => simp [Builtin.changes]
  | _ => cases args <;> simp [Builtin.changes]

theorem changesOf_of_command?_eq_none {line : String} (h : command? line = none) (cwd : String) :
    changesOf line cwd = [] := by
  rw [changesOf, h]

/-- The other commands make no change, whatever their operands. -/
theorem changesOf_of_commandWord? {line : String}
    (h : commandWord? line ∈ [some "help", some "pwd", some "ls", some "cd", some "cat",
      some "read", some "echo", some "clear"]) (cwd : String) : changesOf line cwd = [] := by
  have hmem : commandWord? line ∈ [Builtin.help, .pwd, .ls, .cd, .cat, .read, .echo, .clear].map
      fun b => some b.name := h
  obtain ⟨b, hb, hword⟩ := List.mem_map.mp hmem
  have hother : ∀ b ∈ [Builtin.help, .pwd, .ls, .cd, .cat, .read, .echo, .clear],
      b ∉ [Builtin.mkdir, .rmdir, .touch, .write, .rm] ∧ b ∉ [Builtin.mv, .cp] := by decide
  have hquiet : b.changes cwd (operands line) = [] := by
    by_contra hne
    rcases (changes_ne_nil_iff b cwd _).mp hne with ⟨hchanging, -⟩ | ⟨hchanging, -⟩
    · exact (hother b hb).1 hchanging
    · exact (hother b hb).2 hchanging
  rw [changesOf, command?_eq_some_iff.mpr hword.symm]
  exact hquiet

/-- A line that makes a change has one of seven first words, and operands enough. -/
theorem commandWord?_of_changesOf {line cwd : String} (h : changesOf line cwd ≠ []) :
    commandWord? line ∈ [some "mkdir", some "rmdir", some "touch", some "write", some "rm"] ∧
        1 ≤ (operands line).length ∨
      commandWord? line ∈ [some "mv", some "cp"] ∧ 2 ≤ (operands line).length := by
  unfold changesOf at h
  cases hcommand : command? line with
  | none =>
    rw [hcommand] at h
    exact absurd rfl h
  | some b =>
    rw [hcommand] at h
    rw [command?_eq_some_iff.mp hcommand]
    have hname {bs : List Builtin} (hb : b ∈ bs) : some b.name ∈ bs.map fun b => some b.name :=
      List.mem_map_of_mem hb
    exact ((changes_ne_nil_iff b cwd _).mp h).imp (fun ⟨hb, hargs⟩ => ⟨hname hb, hargs⟩)
      fun ⟨hb, hargs⟩ => ⟨hname hb, hargs⟩

variable {σ : Type} [Store σ]

/-- A line that makes no change leaves the disk and its store as they are. -/
theorem disk_runLine_of_changesOf_eq_nil {line cwd : String} (h : changesOf line cwd = [])
    (d : Disk σ) : (runLine d line cwd).1 = d := by
  rw [disk_runLine, h]
  rfl

theorem clear_runBuiltin (d : Disk σ) (cwd : String) (args : List String) (b : Builtin) :
    (runBuiltin d cwd args b).2.clear = true ↔ b = .clear := by
  have hcd (target : String) : (changeDirectory d cwd target).clear = false := by
    unfold changeDirectory
    split
    · rfl
    · split <;> rfl
  cases b with
  | cd => simp [runBuiltin, hcd]
  | _ => simp [runBuiltin, changing, Output.print, Output.silent]

/-- What a line gives that runs no command: nothing if it has no words, otherwise itself. -/
theorem runLine_of_no_command {line : String} (h : command? line = none) (d : Disk σ)
    (cwd : String) :
    words line = [] ∧ runLine d line cwd = (d, .silent cwd) ∨
      ∃ first args, words line = first :: args ∧
        runLine d line cwd = (d, unknown line first cwd) := by
  unfold command? at h
  cases hwords : words line with
  | nil => exact Or.inl ⟨rfl, by simp only [runLine, hwords]⟩
  | cons first args =>
    rw [hwords] at h
    exact Or.inr ⟨first, args, rfl, runLine_of_ofName?_eq_none hwords h d cwd⟩

theorem clear_runLine (d : Disk σ) (line cwd : String) :
    (runLine d line cwd).2.clear = true ↔ command? line = some .clear := by
  cases h : command? line with
  | none =>
    rcases runLine_of_no_command h d cwd with ⟨-, hrun⟩ | ⟨first, args, -, hrun⟩
    · simp [hrun, Output.silent]
    · simp [hrun, unknown]
  | some b =>
    rw [runLine_of_command? h, clear_runBuiltin]
    simp

theorem unrecognized_runLine (d : Disk σ) (line cwd : String) :
    (runLine d line cwd).2.unrecognized ≠ none ↔ words line ≠ [] ∧ command? line = none := by
  cases h : command? line with
  | none =>
    rcases runLine_of_no_command h d cwd with ⟨hwords, hrun⟩ | ⟨first, args, hwords, hrun⟩
    · simp [hrun, hwords, Output.silent]
    · simp [hrun, hwords, unknown]
  | some b =>
    rw [runLine_of_command? h, unrecognized_runBuiltin]
    simp

/-! ## Lines -/

/-- **Only seven commands can change the disk**, its store included, and only with an operand, or two
for `mv` and `cp`. Lines without words, lines that are given back and the other eight commands change
nothing. Only `cd` to a directory changes the working directory, only `clear` clears the screen, and
prints nothing, and a line is given back exactly if it has words and runs no command. -/
theorem only_changing_commands_change (d : Disk σ) (line cwd : String) :
    let word := commandWord? line
    let args := operands line
    let after := runLine d line cwd
    (after.1 ≠ d →
        word ∈ [some "mkdir", some "rmdir", some "touch", some "write", some "rm"] ∧
            1 ≤ args.length ∨
          word ∈ [some "mv", some "cp"] ∧ 2 ≤ args.length) ∧
      (isBlanks line = true ∨ after.2.unrecognized ≠ none ∨
          word ∈ [some "help", some "pwd", some "ls", some "cd", some "cat", some "read",
            some "echo", some "clear"] → after.1 = d) ∧
      (after.2.cwd ≠ cwd → word = some "cd" ∧ d.isDirectory (target line) cwd = true ∧
        after.2.cwd = Path.canonical (target line) cwd) ∧
      (after.2.clear = true ↔ word = some "clear") ∧
      (after.2.clear = true → after.2.lines = []) ∧
      (after.2.unrecognized ≠ none ↔ words line ≠ [] ∧ command? line = none) ∧
      ∀ b, command? line = some b →
        after = runBuiltin d cwd args b ∧ after.2.unrecognized = none := by
  intro word args after
  have hword (b : Builtin) : command? line = some b ↔ word = some b.name := command?_eq_some_iff
  have hquiet (h : changesOf line cwd = []) : after.1 = d := disk_runLine_of_changesOf_eq_nil h d
  have hclear : after.2.clear = true ↔ command? line = some .clear := clear_runLine d line cwd
  refine ⟨fun hchanged => commandWord?_of_changesOf (mt hquiet hchanged), fun hline => hquiet ?_,
    fun hmoved => ?_, hclear.trans (hword .clear), fun h => ?_, unrecognized_runLine d line cwd,
    fun b hb => ?_⟩
  · rcases hline with hblank | hunknown | hother
    · exact changesOf_of_command?_eq_none (command?_of_isBlanks hblank) cwd
    · exact changesOf_of_command?_eq_none ((unrecognized_runLine d line cwd).mp hunknown).2 cwd
    · exact changesOf_of_commandWord? hother cwd
  · rcases cwd_runLine d line cwd with hsame | ⟨hcd, hdir, -, hcwd⟩
    · exact absurd hsame hmoved
    · exact ⟨(hword .cd).mp hcd, hdir, hcwd⟩
  · have hrun : after = _ := runLine_of_command? (hclear.mp h) d cwd
    rw [hrun]
    rfl
  · have hrun : after = _ := runLine_of_command? hb d cwd
    refine ⟨hrun, ?_⟩
    rw [hrun, unrecognized_runBuiltin]

/-- A directory is made by a name in capitals; other lines on the same disk leave it as it is. -/
theorem frame_on_fresh_disk :
    let d := Disk.load Memory.empty DiskConfig.default
    (runLine d "MKDIR a" "/").1 ≠ d ∧ 1 ≤ (operands "MKDIR a").length ∧
      isBlanks " \t" = true ∧ (runLine d " \t" "/").1 = d ∧
      commandWord? "Ls a" = some "ls" ∧ (runLine d "Ls a" "/").1 = d ∧
      (runLine d "cd .." "/sandbox").2.cwd ≠ "/sandbox" ∧ d.isDirectory ".." "/sandbox" = true ∧
      (runLine d "clear 'x'" "/").2.clear = true ∧ (runLine d "clear 'x'" "/").2.lines = [] ∧
      (runLine d "mkdirs a" "/").2.unrecognized ≠ none ∧ (runLine d "mkdirs a" "/").1 = d ∧
      command? "rm x" = some .rm ∧ (runLine d "rm x" "/").2.unrecognized = none := by
  intro d
  obtain ⟨hchanging, -⟩ := only_changing_commands_change d "MKDIR a" "/"
  obtain ⟨-, hblank, -⟩ := only_changing_commands_change d " \t" "/"
  obtain ⟨-, hquiet, -⟩ := only_changing_commands_change d "Ls a" "/"
  obtain ⟨-, -, hmoving, -⟩ := only_changing_commands_change d "cd .." "/sandbox"
  obtain ⟨-, -, -, -, hclearing, -⟩ := only_changing_commands_change d "clear 'x'" "/"
  obtain ⟨-, hunknown, -⟩ := only_changing_commands_change d "mkdirs a" "/"
  obtain ⟨-, -, -, -, -, -, hruns⟩ := only_changing_commands_change d "rm x" "/"
  have hchanged : (runLine d "MKDIR a" "/").1 ≠ d := by
    intro h
    have hwrites : (runLine d "MKDIR a" "/").1.store.writes = 1 := by cbv
    rw [h] at hwrites
    cases hwrites
  have hargs : 1 ≤ (operands "MKDIR a").length := by
    rcases hchanging hchanged with ⟨-, h⟩ | ⟨-, h⟩
    · exact h
    · exact Nat.le_of_succ_le h
  have hblanks : isBlanks " \t" = true := by cbv
  have hword : commandWord? "Ls a" = some "ls" := by cbv
  have hmoved : (runLine d "cd .." "/sandbox").2.cwd ≠ "/sandbox" := by
    have hcwd : (runLine d "cd .." "/sandbox").2.cwd = "/" := by cbv
    rw [hcwd]
    decide
  have htarget : target "cd .." = ".." := by cbv
  have hdir := (hmoving hmoved).2.1
  rw [htarget] at hdir
  have hclear : (runLine d "clear 'x'" "/").2.clear = true := by cbv
  have hgiven : (runLine d "mkdirs a" "/").2.unrecognized ≠ none := by
    have hback : (runLine d "mkdirs a" "/").2.unrecognized = some "mkdirs a" := by cbv
    rw [hback]
    exact Option.some_ne_none _
  have hrm : command? "rm x" = some .rm := by cbv
  exact ⟨hchanged, hargs, hblanks, hblank (Or.inl hblanks), hword,
    hquiet (Or.inr (Or.inr (by rw [hword]; simp))), hmoved, hdir, hclear, hclearing hclear, hgiven,
    hunknown (Or.inr (Or.inl hgiven)), hrm, (hruns .rm hrm).2⟩

end DiskShell.Shell
