import DiskShell.Proofs.Shell.Quote

/-!
The grammar of command lines. Each character of a line stands outside quotes or between the quote
that is open and the next of its kind (`mark`). Blanks outside quotes are gaps, quotes that open or
close are dropped, and what is left between two gaps is a word (`words_eq_pieces`).
-/

namespace DiskShell.Shell

/-! ## Quotes -/

/-- The quote that is open after a character, when `q` is open before it. -/
def quoteAfter (q : Option Char) (c : Char) : Option Char :=
  match q with
  | some q => if c = q then none else some q
  | none => if c = '"' || c = '\'' then some c else none

/-- Each character with the quote that is open before it. -/
def mark (q : Option Char) : List Char → List (Option Char × Char)
  | [] => []
  | c :: cs => (q, c) :: mark (quoteAfter q c) cs

/-- Whether a character opens or closes quotes. -/
def isDelimiter : Option Char × Char → Bool
  | (some q, c) => c = q
  | (none, c) => c = '"' || c = '\''

/-- Whether a character is a blank outside quotes. -/
def isGap : Option Char × Char → Bool
  | (some _, _) => false
  | (none, c) => Text.isBlank c

theorem map_snd_mark (q : Option Char) (cs : List Char) : (mark q cs).map Prod.snd = cs := by
  induction cs generalizing q with
  | nil => rfl
  | cons c cs ih => rw [mark, List.map_cons, ih]

theorem mark_append (q : Option Char) (cs ds : List Char) :
    mark q (cs ++ ds) = mark q cs ++ mark (cs.foldl quoteAfter q) ds := by
  induction cs generalizing q with
  | nil => rfl
  | cons c cs ih => simp only [List.cons_append, mark, ih, List.foldl_cons]

theorem quoteAfter_of_not_delimiter {q : Option Char} {c : Char} (h : isDelimiter (q, c) = false) :
    quoteAfter q c = q := by
  cases q with
  | none =>
    have hc : ¬ (c = '"' || c = '\'') = true := by simpa [isDelimiter] using h
    exact if_neg hc
  | some q =>
    have hc : c ≠ q := by simpa [isDelimiter] using h
    exact if_neg hc

/-- A gap is no delimiter, so it leaves the quotes as they are. -/
theorem isDelimiter_of_isGap {m : Option Char × Char} (h : isGap m = true) :
    isDelimiter m = false := by
  obtain ⟨q, c⟩ := m
  cases q with
  | some q => cases h
  | none =>
    have hne (d : Char) (hd : Text.isBlank d = false) : c ≠ d := by
      rintro rfl
      exact absurd h (by simpa [isGap] using hd)
    simp [isDelimiter, hne '"' (by decide), hne '\'' (by decide)]

/-! ## Pieces -/

/-- The characters that are not dropped. -/
def letters (ms : List (Option Char × Char)) : List Char :=
  (ms.filter fun m => !isDelimiter m).map Prod.snd

/-- What stands between the gaps. -/
def pieces (ms : List (Option Char × Char)) : List (List Char) :=
  (ms.splitOnP isGap).map letters

theorem pieces_nil : pieces [] = [[]] := rfl

theorem pieces_ne_nil (ms : List (Option Char × Char)) : pieces ms ≠ [] := by
  rw [pieces, Ne, List.map_eq_nil_iff]
  exact List.splitOnP_ne_nil isGap ms

theorem map_letters_modifyHead (m : Option Char × Char) (l : List (List (Option Char × Char))) :
    (l.modifyHead (List.cons m)).map letters =
      (l.map letters).modifyHead (if isDelimiter m then id else List.cons m.2) := by
  cases l with
  | nil => rfl
  | cons x rest => cases h : isDelimiter m <;> simp [letters, h]

theorem pieces_cons (m : Option Char × Char) (ms : List (Option Char × Char)) :
    pieces (m :: ms) =
      if isGap m then [] :: pieces ms
      else (pieces ms).modifyHead (if isDelimiter m then id else List.cons m.2) := by
  rw [pieces, List.splitOnP_cons_eq_if_modifyHead]
  split
  · rfl
  · exact map_letters_modifyHead m _

/-! ## The reader -/

theorem modifyHead_self (l : List (List Char)) : l.modifyHead (fun x => x) = l :=
  congrFun List.modifyHead_id l

namespace WordReader

/-- One step, in terms of marks. -/
theorem step_eq (r : WordReader) (c : Char) :
    r.step c =
      if isDelimiter (r.quote, c) then { r with quote := quoteAfter r.quote c }
      else if isGap (r.quote, c) then r.endWord
      else { r with current := c :: r.current } := by
  obtain ⟨quote, current, done⟩ := r
  cases quote with
  | none =>
    by_cases hc : (c = '"' || c = '\'') = true
    · simp [step, isDelimiter, quoteAfter, hc]
    · simp only [step, isDelimiter, isGap, hc]
      rfl
  | some q =>
    by_cases hc : c = q <;> simp [step, isDelimiter, isGap, quoteAfter, hc]

/-- What the reader finds: the words that are done, then the current one with what belongs to it,
then the others. -/
theorem done_foldl_eq (r : WordReader) (cs : List Char) :
    (cs.foldl step r).endWord.done.reverse = r.done.reverse ++
      (((pieces (mark r.quote cs)).modifyHead (r.current.reverse ++ ·)).filter (· ≠ [])).map
        String.ofList := by
  induction cs generalizing r with
  | nil =>
    rw [List.foldl_nil, endWord_eq, mark, pieces_nil]
    by_cases hr : r.current = [] <;> simp [hr]
  | cons c cs ih =>
    rw [List.foldl_cons, ih, step_eq, mark, pieces_cons]
    by_cases hdelim : isDelimiter (r.quote, c) = true
    · have hgap : isGap (r.quote, c) = false := by
        refine Bool.eq_false_of_not_eq_true fun hgap => ?_
        rw [isDelimiter_of_isGap hgap] at hdelim
        cases hdelim
      simp [hdelim, hgap]
    · rw [quoteAfter_of_not_delimiter (Bool.eq_false_of_not_eq_true hdelim)]
      by_cases hgap : isGap (r.quote, c) = true
      · simp only [hdelim, hgap, endWord_eq]
        by_cases hr : r.current = [] <;> simp [hr, modifyHead_self]
      · simp [hdelim, hgap, List.modifyHead_modifyHead, Function.comp_def]

end WordReader

/-! ## Words -/

/-- The quote that is open at the end of a line. -/
def openQuote (line : String) : Option Char := line.toList.foldl quoteAfter none

/-- The words are what stands between gaps, the empty pieces apart. -/
theorem words_eq_pieces (line : String) :
    words line = ((pieces (mark none line.toList)).filter (· ≠ [])).map String.ofList := by
  rw [words, WordReader.done_foldl_eq]
  simp [WordReader.start, modifyHead_self]

theorem ne_empty_of_mem_words {line w : String} (hw : w ∈ words line) : w ≠ "" := by
  rw [words_eq_pieces, List.mem_map] at hw
  obtain ⟨cs, hcs, rfl⟩ := hw
  have hne : cs ≠ [] := by simpa using (List.mem_filter.mp hcs).2
  simpa using hne

/-- A gap parts a line into two that are read on their own. -/
theorem words_append_gap {a : String} (ha : openQuote a = none) {c : Char}
    (hc : Text.isBlank c = true) (b : String) :
    words (a ++ String.singleton c ++ b) = words a ++ words b := by
  have hmark : mark none (a ++ String.singleton c ++ b).toList =
      mark none a.toList ++ (none, c) :: mark none b.toList := by
    have hquote : quoteAfter none c = none :=
      quoteAfter_of_not_delimiter (isDelimiter_of_isGap (m := (none, c)) hc)
    rw [openQuote] at ha
    rw [String.toList_append, String.toList_append, List.append_assoc, mark_append, ha,
      String.toList_singleton, List.singleton_append, mark, hquote]
  have hgap : isGap (none, c) = true := hc
  simp only [words_eq_pieces, hmark, pieces, List.splitOnP_append_cons _ _ hgap, List.map_append,
    List.filter_append]

/-! ## What is kept -/

/-- The characters that go into words: those that are neither dropped quotes nor gaps. -/
def kept (ms : List (Option Char × Char)) : List Char :=
  (ms.filter fun m => !isDelimiter m && !isGap m).map Prod.snd

theorem flatten_pieces (ms : List (Option Char × Char)) : (pieces ms).flatten = kept ms := by
  induction ms with
  | nil => rfl
  | cons m ms ih =>
    obtain ⟨x, rest, hpieces⟩ := List.exists_cons_of_ne_nil (pieces_ne_nil ms)
    rw [hpieces, List.flatten_cons] at ih
    rw [pieces_cons, hpieces]
    by_cases hgap : isGap m = true
    · simp [kept, hgap, ih]
    · cases hdelim : isDelimiter m <;> simp [kept, hgap, hdelim, ih]

theorem join_words (line : String) :
    String.join (words line) = String.ofList (kept (mark none line.toList)) := by
  rw [← String.toList_inj, String.toList_join, String.toList_ofList, words_eq_pieces,
    List.flatMap_map, ← flatten_pieces, ← List.flatten_filter_ne_nil]
  simp [List.flatMap_def]

/-- Without a gap there is one piece. -/
theorem length_words_le_one {line : String}
    (hgap : ∀ m ∈ mark none line.toList, isGap m = false) : (words line).length ≤ 1 := by
  rw [words_eq_pieces, pieces, List.splitOnP_eq_singleton hgap, List.length_map]
  exact List.length_filter_le _ _

/-! ## Lines without quotes -/

/-- What stands between blanks, the empty pieces apart. -/
def splitBlanks (line : String) : List String :=
  ((line.toList.splitOnP Text.isBlank).filter (· ≠ [])).map String.ofList

theorem pieces_mark_of_unquoted {cs : List Char} (hcs : ∀ c ∈ cs, c ≠ '"' ∧ c ≠ '\'') :
    pieces (mark none cs) = cs.splitOnP Text.isBlank := by
  induction cs with
  | nil => rfl
  | cons c cs ih =>
    obtain ⟨hc, hrest⟩ := List.forall_mem_cons.mp hcs
    have hdelim : isDelimiter (none, c) = false := by simp [isDelimiter, hc]
    rw [mark, pieces_cons, quoteAfter_of_not_delimiter hdelim, ih hrest, hdelim,
      List.splitOnP_cons_eq_if_modifyHead]
    rfl

theorem words_eq_splitBlanks {line : String} (hline : ∀ c ∈ line.toList, c ≠ '"' ∧ c ≠ '\'') :
    words line = splitBlanks line := by
  rw [words_eq_pieces, pieces_mark_of_unquoted hline, splitBlanks]

/-! ## The grammar -/

/-- **Words follow the grammar of quotes and blanks.** No word is empty. Read together, the words
are the line without the quotes that open and close and without the blanks outside quotes. Where no
blank stands outside quotes there is at most one word, and at each that does the line parts into two
that are read on their own. Without quotes, words are what blanks part. -/
theorem words_follow_grammar (line : String) :
    (∀ w ∈ words line, w ≠ "") ∧
    ((mark none line.toList).map Prod.snd = line.toList ∧
      String.join (words line) = String.ofList (kept (mark none line.toList))) ∧
    ((∀ m ∈ mark none line.toList, isGap m = false) → (words line).length ≤ 1) ∧
    (∀ a c b, line = a ++ String.singleton c ++ b → Text.isBlank c = true → openQuote a = none →
      words line = words a ++ words b) ∧
    ((∀ c ∈ line.toList, c ≠ '"' ∧ c ≠ '\'') → words line = splitBlanks line) := by
  refine ⟨fun w => ne_empty_of_mem_words, ⟨map_snd_mark none _, join_words line⟩,
    length_words_le_one, ?_, words_eq_splitBlanks⟩
  rintro a c b rfl hblank hopen
  exact words_append_gap hopen hblank b

/-- Quotes join what touches them and hide blanks and the other quote. So the first of these lines
is one word; a blank parts it from the second. The third has no quotes. -/
theorem words_joined_and_parted :
    let a := "a\"b 'c\"d"
    let b := "'' 'open  end"
    let bare := " b\tc"
    (∀ m ∈ mark none a.toList, isGap m = false) ∧ (words a).length ≤ 1 ∧
      openQuote a = none ∧ words (a ++ String.singleton ' ' ++ b) = words a ++ words b ∧
      words a = ["ab 'cd"] ∧ words b = ["open  end"] ∧
      (∀ c ∈ bare.toList, c ≠ '"' ∧ c ≠ '\'') ∧ words bare = splitBlanks bare := by
  intro a b bare
  have hgap : ∀ m ∈ mark none a.toList, isGap m = false := by decide
  have hopen : openQuote a = none := by decide
  have hbare : ∀ c ∈ bare.toList, c ≠ '"' ∧ c ≠ '\'' := by simp [bare]
  obtain ⟨-, -, hone, -, -⟩ := words_follow_grammar a
  obtain ⟨-, -, -, hparted, -⟩ := words_follow_grammar (a ++ String.singleton ' ' ++ b)
  obtain ⟨-, -, -, -, hsplit⟩ := words_follow_grammar bare
  refine ⟨hgap, hone hgap, hopen, hparted a ' ' b rfl (by decide) hopen, ?_, ?_, hbare,
    hsplit hbare⟩ <;> cbv

end DiskShell.Shell
