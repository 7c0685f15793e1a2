import DiskShell.Proofs.Disk.Effect
import DiskShell.Proofs.Shell.Builtin
import DiskShell.Proofs.Shell.Changes
import DiskShell.Proofs.Shell.Quote

/-!
Texts carried through command lines. Quoted operands reach their command as they are
(`runLine_commandLine`); so any text can be written to a file by one line and is printed again by
another (`write_then_cat`).
-/

namespace DiskShell

namespace Shell

variable {σ : Type} [Store σ]

/-! ## Operands -/

theorem Builtin.isPlain_of_mem_name (b : Builtin) : ∀ c ∈ b.name.toList, isPlain c = true := by
  have hall : b.name.toList.all isPlain = true := by cases b <;> rfl
  exact List.all_eq_true.mp hall

theorem Builtin.ofName?_name (b : Builtin) : ofName? (Text.lowercase b.name) = some b :=
  ofName?_lowercase_of_sameLetters ((b.sameLetters_name_iff b.name).mpr b.map_toLower_name)

theorem Builtin.words_commandLine_name (b : Builtin) (operands : List String) :
    words (commandLine b.name operands) = b.name :: operands.filter (· ≠ "") := by
  have hne : b.name ≠ "" := by cases b <;> decide
  exact words_commandLine hne b.isPlain_of_mem_name operands

/-- **Every command can be run with every list of operands**, the empty ones apart. -/
theorem runLine_commandLine (d : Disk σ) (cwd : String) (b : Builtin) (operands : List String) :
    runLine d (commandLine b.name operands) cwd =
      runBuiltin d cwd (operands.filter (· ≠ "")) b :=
  runLine_of_ofName? (b.words_commandLine_name operands) b.ofName?_name d cwd

theorem runLine_operand (d : Disk σ) (cwd : String) (b : Builtin) {operand : String}
    (h : operand ≠ "") :
    runLine d (commandLine b.name [operand]) cwd = runBuiltin d cwd [operand] b := by
  have hkept : [operand].filter (· ≠ "") = [operand] := by simp [h]
  rw [runLine_commandLine, hkept]

/-! ## Files -/

omit [Store σ] in
theorem lines_report (complaint : DiskError → String) (result : Disk σ × Except DiskError Unit) :
    ((report complaint result).2 = [] ↔ result.2 = .ok ()) ∧
      ((report complaint result).2.length = 1 ↔ ∃ e, result.2 = .error e) := by
  obtain ⟨d, r⟩ := result
  cases r <;> simp [report]

/-- The operands of `write` after the path: an empty text is not there, and is written all the same. -/
theorem intercalate_filter_singleton (s : String) :
    " ".intercalate ([s].filter (· ≠ "")) = s := by
  by_cases hs : s = "" <;> simp [hs]

theorem runLine_write (d : Disk σ) (cwd content : String) {path : String} (hpath : path ≠ "") :
    runLine d ("write " ++ quote path ++ " " ++ quote content) cwd =
      changing cwd (report (fun e => "write: cannot write '" ++ path ++ "': " ++ e.reason)
        (d.write path content cwd)) := by
  have hline : "write " ++ quote path ++ " " ++ quote content =
      commandLine Builtin.write.name [path, content] := by
    simp [commandLine, Builtin.name, ← String.append_assoc]
  have hoperands : [path, content].filter (· ≠ "") = path :: [content].filter (· ≠ "") := by
    simp [hpath]
  rw [hline, runLine_commandLine, hoperands]
  show changing cwd (writeFile d cwd (path :: [content].filter (· ≠ ""))) = _
  rw [writeFile, intercalate_filter_singleton]

theorem runLine_cat (d : Disk σ) (cwd : String) {path : String} (hpath : path ≠ "") :
    runLine d ("cat " ++ quote path) cwd =
      (d, .print cwd (contentLines d "cat" cwd path)) := by
  have hline : "cat " ++ quote path = commandLine Builtin.cat.name [path] := by
    simp [commandLine, Builtin.name, ← String.append_assoc]
  rw [hline, runLine_operand d cwd .cat hpath]
  simp [runBuiltin, printFiles]

/-- **What is written is printed.** Any text, written to any path by a line with both quoted: the
line makes that one write, and prints a line exactly if it fails; if it does not, the file reads as
the text, and `cat` prints the text cut at its line feeds. -/
theorem write_then_cat (d : Disk σ) (cwd content : String) {path : String} (hpath : path ≠ "") :
    let written := runLine d ("write " ++ quote path ++ " " ++ quote content) cwd
    let printed := runLine written.1 ("cat " ++ quote path) cwd
    written.1 = (d.write path content cwd).1 ∧
      (written.2.lines = [] ↔ (d.write path content cwd).2 = .ok ()) ∧
      (written.2.lines.length = 1 ↔ ∃ e, (d.write path content cwd).2 = .error e) ∧
      "\n".intercalate (Text.cut '\n' content) = content ∧
      (written.2.lines = [] →
        printed.2.lines = Text.cut '\n' content ∧
          written.1.read? path cwd = some content) := by
  intro written printed
  have hwritten : written = _ := runLine_write d cwd content hpath
  have hdisk : written.1 = (d.write path content cwd).1 := by
    rw [hwritten]
    exact disk_report _ _
  have hlines := lines_report (fun e => "write: cannot write '" ++ path ++ "': " ++ e.reason)
    (d.write path content cwd)
  refine ⟨hdisk, ?_, ?_, Text.intercalate_cut '\n' content, fun hsilent => ?_⟩
  · rw [hwritten]
    exact hlines.1
  · rw [hwritten]
    exact hlines.2
  · have hok : (d.write path content cwd).2 = .ok () := by
      rw [hwritten] at hsilent
      exact hlines.1.mp hsilent
    have hread : written.1.read? path cwd = some content := by
      rw [hdisk]
      exact Disk.read?_write hok
    have hprinted : printed = _ := runLine_cat written.1 cwd hpath
    refine ⟨?_, hread⟩
    rw [hprinted, contentLines, hread]
    rfl

/-- Both kinds of quotes, blanks at the ends and a line feed. -/
theorem write_then_cat_on_fresh_disk :
    let d := Disk.load Memory.empty DiskConfig.default
    let written := runLine d ("write " ++ quote "/it's" ++ " " ++ quote " a\n\"b\" ") "/"
    "/it's" ≠ "" ∧ written.2.lines = [] ∧ written.1.read? "/it's" "/" = some " a\n\"b\" " ∧
      (runLine written.1 ("cat " ++ quote "/it's") "/").2.lines = [" a", "\"b\" "] := by
  have hne : "/it's" ≠ "" := by decide
  have hall := write_then_cat (Disk.load Memory.empty DiskConfig.default) "/" " a\n\"b\" " hne
  dsimp only at hall ⊢
  have hok : ((Disk.load Memory.empty DiskConfig.default).write "/it's" " a\n\"b\" " "/").2 =
      .ok () := by cbv
  have hcut : Text.cut '\n' " a\n\"b\" " = [" a", "\"b\" "] := by cbv
  obtain ⟨-, hsilent, -, -, hcat⟩ := hall
  obtain ⟨hprinted, hread⟩ := hcat (hsilent.mpr hok)
  rw [hcut] at hprinted
  exact ⟨hne, hsilent.mpr hok, hread, hprinted⟩

end Shell

end DiskShell
