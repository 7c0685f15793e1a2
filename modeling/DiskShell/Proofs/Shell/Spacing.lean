import DiskShell.Proofs.Shell.Builtin
import DiskShell.Proofs.Shell.Grammar
import DiskShell.Proofs.Text.Trim

/-!
Quoted words with blanks between them. However many blanks stand around the words of a line, and
whichever, the line is read back as these words (`words_spaced`).
-/

namespace DiskShell.Shell

open Text (isBlanks)

/-- Quoted words, each after its gap, and what ends the line. -/
def spaced (parts : List (String × String)) (ending : String) : String :=
  String.join (parts.map fun p => p.1 ++ quote p.2) ++ ending

/-- Gaps are blanks, and words do not touch: only the first gap and the ending may be empty. -/
structure IsSpacing (parts : List (String × String)) (ending : String) : Prop where
  gaps : ∀ p ∈ parts, isBlanks p.1 = true
  apart : ∀ p ∈ parts.tail, p.1 ≠ ""
  ending : isBlanks ending = true

theorem spaced_cons (p : String × String) (parts : List (String × String)) (ending : String) :
    spaced (p :: parts) ending = p.1 ++ (quote p.2 ++ spaced parts ending) := by
  rw [spaced, List.map_cons, String.join_cons, String.append_assoc, String.append_assoc, spaced]

/-! ## Blanks -/

theorem words_blank_append {c : Char} (hc : Text.isBlank c = true) (b : String) :
    words (String.singleton c ++ b) = words b :=
  words_append_gap (a := "") rfl hc b

/-- Blanks before a line are not read. -/
theorem words_blanks_append {gap : String} (hgap : isBlanks gap = true) (b : String) :
    words (gap ++ b) = words b := by
  rw [Text.isBlanks_iff] at hgap
  rw [← String.ofList_toList (s := gap)]
  generalize gap.toList = cs at hgap ⊢
  induction cs with
  | nil => rw [String.ofList_nil, String.empty_append]
  | cons c cs ih =>
    obtain ⟨hc, hrest⟩ := List.forall_mem_cons.mp hgap
    rw [String.ofList_cons, String.append_assoc, words_blank_append hc, ih hrest]

/-- A text that a word before it does not run into. -/
def StartsBlank (s : String) : Prop :=
  s = "" ∨ ∃ c t, Text.isBlank c = true ∧ s = String.singleton c ++ t

theorem startsBlank_append {gap : String} (hgap : isBlanks gap = true) {b : String}
    (hb : gap = "" → StartsBlank b) : StartsBlank (gap ++ b) := by
  cases hcs : gap.toList with
  | nil =>
    obtain rfl := String.toList_eq_nil_iff.mp hcs
    rw [String.empty_append]
    exact hb rfl
  | cons c cs =>
    have hc : Text.isBlank c = true := by
      rw [Text.isBlanks_iff, hcs] at hgap
      exact hgap c (List.mem_cons_self ..)
    refine Or.inr ⟨c, String.ofList cs ++ b, hc, ?_⟩
    rw [← String.append_assoc, ← String.ofList_cons, ← hcs, String.ofList_toList]

/-- Where no gap is empty, what is spaced starts with a blank. -/
theorem startsBlank_spaced {parts : List (String × String)} {ending : String}
    (hgaps : ∀ p ∈ parts, isBlanks p.1 = true) (happart : ∀ p ∈ parts, p.1 ≠ "")
    (hending : isBlanks ending = true) : StartsBlank (spaced parts ending) := by
  cases parts with
  | nil =>
    have hline : spaced [] ending = ending ++ "" := by simp [spaced]
    rw [hline]
    exact startsBlank_append hending fun _ => Or.inl rfl
  | cons p rest =>
    rw [spaced_cons]
    exact startsBlank_append (hgaps p (List.mem_cons_self ..)) fun h =>
      absurd h (happart p (List.mem_cons_self ..))

/-! ## Quoted words -/

theorem foldl_quoteAfter_quoteChar (c : Char) : (quoteChar c).foldl quoteAfter none = none := by
  unfold quoteChar
  split
  · rfl
  · next h => simp [quoteAfter, h]

/-- A quoted word closes the quotes that it opens. -/
theorem openQuote_quote (s : String) : openQuote (quote s) = none := by
  rw [openQuote, toList_quote]
  induction s.toList with
  | nil => rfl
  | cons c cs ih => rw [List.flatMap_cons, List.foldl_append, foldl_quoteAfter_quoteChar, ih]

theorem words_quote {s : String} (hs : s ≠ "") : words (quote s) = [s] := by
  rw [words, toList_quote, WordReader.foldl_step_quote (by rfl), WordReader.endWord_eq]
  simp [WordReader.start, hs]

theorem words_quote_append {s : String} (hs : s ≠ "") {b : String} (hb : StartsBlank b) :
    words (quote s ++ b) = s :: words b := by
  obtain rfl | ⟨c, t, hc, rfl⟩ := hb
  · rw [String.append_empty, words_quote hs]
    rfl
  · rw [← String.append_assoc, words_append_gap (openQuote_quote s) hc, words_quote hs,
      words_blank_append hc]
    rfl

/-- **Spaced words are read back**, whatever blanks stand between them. -/
theorem words_spaced {parts : List (String × String)} {ending : String}
    (h : IsSpacing parts ending) (hwords : ∀ p ∈ parts, p.2 ≠ "") :
    words (spaced parts ending) = parts.map Prod.snd := by
  induction parts with
  | nil =>
    have hline : spaced [] ending = ending ++ "" := by simp [spaced]
    rw [hline, words_blanks_append h.ending]
    rfl
  | cons p rest ih =>
    obtain ⟨hgap, hgaps⟩ := List.forall_mem_cons.mp h.gaps
    obtain ⟨hword, hrest⟩ := List.forall_mem_cons.mp hwords
    have hstart : StartsBlank (spaced rest ending) := startsBlank_spaced hgaps h.apart h.ending
    have hspacing : IsSpacing rest ending :=
      ⟨hgaps, fun q hq => h.apart q (List.mem_of_mem_tail hq), h.ending⟩
    rw [spaced_cons, words_blanks_append hgap, words_quote_append hword hstart, ih hspacing hrest,
      List.map_cons]

/-! ## Commands -/

/-- Words with a space before each but the first. -/
def singleSpaced (first : String) (args : List String) : List (String × String) :=
  ("", first) :: args.map (" ", ·)

theorem isSpacing_singleSpaced (first : String) (args : List String) :
    IsSpacing (singleSpaced first args) "" where
  gaps := by
    have hspace : Text.isBlank ' ' = true := by decide
    simp [singleSpaced, isBlanks, hspace]
  apart := by simp [singleSpaced]
  ending := rfl

theorem map_snd_singleSpaced (first : String) (args : List String) :
    (singleSpaced first args).map Prod.snd = first :: args := by
  simp [singleSpaced, Function.comp_def]

/-- **Quotes can express every list of words.** Words that are not empty are read back from their
quoted forms, whatever blanks part and surround them. So for every command, under each spelling of
its name, and for all arguments that are not empty there is a line that runs the command with these
arguments. -/
theorem quotes_express_words {σ : Type} [Store σ] :
    (∀ (parts : List (String × String)) (ending : String), IsSpacing parts ending →
      (∀ p ∈ parts, p.2 ≠ "") → words (spaced parts ending) = parts.map Prod.snd) ∧
    ∀ (b : Builtin) (first : String) (args : List String),
      Text.sameLetters b.name first = true → (∀ a ∈ args, a ≠ "") →
      ∃ line, words line = first :: args ∧
        ∀ (d : Disk σ) (cwd : String), runLine d line cwd = runBuiltin d cwd args b := by
  refine ⟨fun _ _ => words_spaced, fun b first args hfirst hargs => ?_⟩
  have hname := Builtin.ofName?_lowercase_of_sameLetters hfirst
  have hne : first ≠ "" := by
    rintro rfl
    cases hname
  have hwords : ∀ p ∈ singleSpaced first args, p.2 ≠ "" := by
    simpa [singleSpaced, hne] using hargs
  have hline := words_spaced (isSpacing_singleSpaced first args) hwords
  rw [map_snd_singleSpaced] at hline
  exact ⟨_, hline, runLine_of_ofName? hline hname⟩

/-- Three words, one of them with quotes of both kinds, between blanks of several kinds; and a line
that runs the command that is spelled by the first. -/
theorem spaced_echo :
    let parts := [("\t", "eCHO"), (" \n", "it's \"so\""), ("  ", "a b")]
    let args := ["it's \"so\"", "a b"]
    IsSpacing parts " \u00a0" ∧ words (spaced parts " \u00a0") = "eCHO" :: args ∧
      Text.sameLetters Builtin.echo.name "eCHO" = true ∧
      ∃ line, words line = "eCHO" :: args ∧
        ∀ (d : Disk Memory) (cwd : String), runLine d line cwd = runBuiltin d cwd args .echo := by
  intro parts args
  have hspacing : IsSpacing parts " \u00a0" := ⟨by decide, by decide, by decide⟩
  have hfirst : Text.sameLetters Builtin.echo.name "eCHO" = true := by decide
  obtain ⟨hread, hrun⟩ := @quotes_express_words Memory _
  exact ⟨hspacing, hread parts _ hspacing (by decide), hfirst,
    hrun .echo "eCHO" args hfirst (by decide)⟩

end DiskShell.Shell
