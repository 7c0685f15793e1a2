import Mathlib
import DiskShell.Shell.Word

/-!
Quoted words. Any text can be written so that it is read back as one word: each character between
quotes of a kind that it is not itself. So there is a line for every command and all operands
(`words_commandLine`); only an empty operand cannot be written, it is dropped.
-/

namespace DiskShell.Shell

/-- A single quote stands between double quotes, every other character between single ones. -/
def quoteChar (c : Char) : List Char :=
  if c = '\'' then ['"', '\'', '"'] else ['\'', c, '\'']

def quote (s : String) : String := String.ofList (s.toList.flatMap quoteChar)

/-- Characters that need no quotes. -/
def isPlain (c : Char) : Bool := c != '"' && c != '\'' && !Text.isBlank c

/-- A command and its operands, each operand quoted after a space. -/
def commandLine (command : String) (operands : List String) : String :=
  command ++ String.join (operands.map fun s => " " ++ quote s)

theorem toList_quote (s : String) : (quote s).toList = s.toList.flatMap quoteChar := by
  rw [quote, String.toList_ofList]

theorem toList_commandLine (command : String) (operands : List String) :
    (commandLine command operands).toList =
      command.toList ++ operands.flatMap fun s => ' ' :: s.toList.flatMap quoteChar := by
  simp [commandLine, String.toList_join, List.flatMap_map, toList_quote]

namespace WordReader

variable {r : WordReader}

/-! ## Steps -/

theorem step_of_isBlank (hr : r.quote = none) {c : Char} (hc : Text.isBlank c = true) :
    r.step c = r.endWord := by
  have hdouble : c ≠ '"' := by
    rintro rfl
    cases hc
  have hsingle : c ≠ '\'' := by
    rintro rfl
    cases hc
  simp [step, hr, hc, hdouble, hsingle]

theorem foldl_step_plain (hr : r.quote = none) {cs : List Char}
    (hcs : ∀ c ∈ cs, isPlain c = true) :
    cs.foldl step r = { r with current := cs.reverse ++ r.current } := by
  induction cs generalizing r with
  | nil => rfl
  | cons c rest ih =>
    have hplain : (c ≠ '"' ∧ c ≠ '\'') ∧ Text.isBlank c = false := by
      simpa [isPlain] using hcs c (List.mem_cons_self ..)
    have hstep : r.step c = { r with current := c :: r.current } := by
      simp [step, hr, hplain]
    rw [List.foldl_cons, hstep, ih (by exact hr) fun d hd => hcs d (List.mem_cons_of_mem _ hd)]
    simp

theorem foldl_step_quoteChar (hr : r.quote = none) (c : Char) :
    (quoteChar c).foldl step r = { r with current := c :: r.current } := by
  unfold quoteChar
  split
  · next h =>
    subst h
    simp [step, hr]
  · next h => simp [step, hr, h]

/-- Quoted characters go into the current word as they are. -/
theorem foldl_step_quote (hr : r.quote = none) (cs : List Char) :
    (cs.flatMap quoteChar).foldl step r = { r with current := cs.reverse ++ r.current } := by
  induction cs generalizing r with
  | nil => rfl
  | cons c rest ih =>
    rw [List.flatMap_cons, List.foldl_append, foldl_step_quoteChar hr, ih (by exact hr)]
    simp

/-! ## Words -/

theorem endWord_eq (r : WordReader) :
    r.endWord = ⟨r.quote, [],
      if r.current = [] then r.done else String.ofList r.current.reverse :: r.done⟩ := by
  obtain ⟨quote, current, done⟩ := r
  cases current <;> simp [endWord]

/-- Each operand is one more word, the empty ones apart. -/
theorem done_foldl_operands (hr : r.quote = none) (operands : List String) :
    ((operands.flatMap fun s => ' ' :: s.toList.flatMap quoteChar).foldl step r).endWord.done =
      (operands.filter (· ≠ "")).reverse ++ r.endWord.done := by
  induction operands generalizing r with
  | nil => rfl
  | cons s rest ih =>
    have hend : r.endWord.quote = none := by
      rw [endWord_eq]
      exact hr
    rw [List.flatMap_cons, List.foldl_append, List.foldl_cons, step_of_isBlank hr (by decide),
      foldl_step_quote hend, ih (by exact hend)]
    by_cases hs : s = ""
    · subst hs
      simp [endWord_eq]
    · have hne : s.toList ≠ [] := by simpa using hs
      simp [endWord_eq, hs]

end WordReader

/-- **Every command can be given every list of operands**, the empty ones apart. -/
theorem words_commandLine {command : String} (hne : command ≠ "")
    (hplain : ∀ c ∈ command.toList, isPlain c = true) (operands : List String) :
    words (commandLine command operands) = command :: operands.filter (· ≠ "") := by
  have hcommand := WordReader.foldl_step_plain (r := .start) rfl hplain
  rw [words, toList_commandLine, List.foldl_append, hcommand,
    WordReader.done_foldl_operands (by rfl)]
  simp [WordReader.endWord_eq, WordReader.start, hne]

/-- A path with a quote of each kind and a blank in it. -/
example : words (commandLine "cat" ["/it's \"here\""]) = ["cat", "/it's \"here\""] := by cbv

end DiskShell.Shell
