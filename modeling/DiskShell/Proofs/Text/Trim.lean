import Mathlib.Data.List.DropRight
import DiskShell.Text.Blank

/-!
Texts without the blanks around them. A text is its trim between blanks, and no other text that
neither begins nor ends with a blank stands so in it (`trim_eq_iff`).
-/

namespace DiskShell.Text

/-- Whether a text holds nothing but blanks. -/
def isBlanks (s : String) : Bool := s.toList.all isBlank

/-- A text with no blank at either end. -/
structure IsTrimmed (s : String) : Prop where
  first : ∀ c ∈ s.toList.head?, isBlank c = false
  last : ∀ c ∈ s.toList.getLast?, isBlank c = false

variable {s t before after : String}

theorem isBlanks_iff : isBlanks s = true ↔ ∀ c ∈ s.toList, isBlank c = true := by
  rw [isBlanks, List.all_eq_true]

theorem isBlanks_ofList_iff {cs : List Char} :
    isBlanks (.ofList cs) = true ↔ ∀ c ∈ cs, isBlank c = true := by
  rw [isBlanks_iff, String.toList_ofList]

theorem isBlanks_append (hbefore : isBlanks before = true) (hafter : isBlanks after = true) :
    isBlanks (before ++ after) = true := by
  rw [isBlanks, String.toList_append, List.all_append, ← isBlanks, ← isBlanks, hbefore, hafter]
  rfl

theorem toList_trim (s : String) :
    (trim s).toList = (s.toList.dropWhile isBlank).rdropWhile isBlank :=
  String.toList_ofList

/-! ## What is left -/

theorem isTrimmed_trim (s : String) : IsTrimmed (trim s) := by
  constructor
  case first =>
    intro c hc
    obtain ⟨rest, hrest⟩ := List.rdropWhile_prefix isBlank (s.toList.dropWhile isBlank)
    have hfirst : (s.toList.dropWhile isBlank).head? = some c := by
      rw [← hrest, List.head?_append, ← toList_trim, hc]
      rfl
    have hnot := List.head?_dropWhile_not isBlank s.toList
    rw [hfirst] at hnot
    simpa using hnot
  case last =>
    intro c hc
    rw [toList_trim] at hc
    obtain ⟨hne, rfl⟩ := List.mem_getLast?_eq_getLast hc
    simpa using List.rdropWhile_last_not isBlank (s.toList.dropWhile isBlank) hne

/-- Only blanks are taken away. -/
theorem exists_blanks_trim (s : String) :
    ∃ before after, isBlanks before = true ∧ isBlanks after = true ∧
      s = before ++ trim s ++ after := by
  refine ⟨.ofList (s.toList.takeWhile isBlank),
    .ofList ((s.toList.dropWhile isBlank).rtakeWhile isBlank),
    isBlanks_ofList_iff.mpr fun c => List.mem_takeWhile_imp,
    isBlanks_ofList_iff.mpr fun c => List.mem_rtakeWhile_imp, ?_⟩
  apply String.toList_inj.mp
  rw [String.toList_append, String.toList_append, toList_trim, String.toList_ofList,
    String.toList_ofList, List.append_assoc, List.rdropWhile_append_rtakeWhile,
    List.takeWhile_append_dropWhile]

/-! ## Blanks around a text -/

section Lists

variable {p : Char → Bool} {cs ds : List Char}

theorem dropWhile_append_eq (hcs : ∀ c ∈ cs, p c = true) (hds : ∀ c ∈ ds.head?, p c = false) :
    (cs ++ ds).dropWhile p = ds := by
  rw [List.dropWhile_append_of_pos hcs]
  cases ds with
  | nil => rfl
  | cons d ds => simp [hds d rfl]

theorem rdropWhile_append_eq (hcs : ∀ c ∈ cs.getLast?, p c = false) (hds : ∀ c ∈ ds, p c = true) :
    (cs ++ ds).rdropWhile p = cs := by
  rw [List.rdropWhile, List.reverse_append, dropWhile_append_eq, List.reverse_reverse]
  · simpa using hds
  · simpa using hcs

end Lists

/-- Blanks around a text make no difference to what is left of it. -/
theorem trim_blanks (hbefore : isBlanks before = true) (ht : IsTrimmed t)
    (hafter : isBlanks after = true) : trim (before ++ t ++ after) = t := by
  rw [isBlanks_iff] at hbefore hafter
  apply String.toList_inj.mp
  rw [toList_trim, String.toList_append, String.toList_append, List.append_assoc]
  cases hcs : t.toList with
  | nil =>
    -- all of it is blank, so nothing is left for the other end
    rw [List.nil_append, List.dropWhile_append_of_pos hbefore, List.dropWhile_eq_nil_iff.mpr hafter]
    rfl
  | cons c cs =>
    have hfirst : ∀ d ∈ (c :: cs ++ after.toList).head?, isBlank d = false := by
      intro d hd
      have hd' : d ∈ (c :: cs).head? := hd
      rw [← hcs] at hd'
      exact ht.first d hd'
    rw [dropWhile_append_eq hbefore hfirst, ← hcs, rdropWhile_append_eq ht.last hafter]

/-- **The trim of a text** is the text without the blanks at both ends. -/
theorem trim_eq_iff :
    trim s = t ↔ IsTrimmed t ∧ ∃ before after, isBlanks before = true ∧ isBlanks after = true ∧
      s = before ++ t ++ after := by
  constructor
  · rintro rfl
    exact ⟨isTrimmed_trim s, exists_blanks_trim s⟩
  · rintro ⟨ht, before, after, hbefore, hafter, rfl⟩
    exact trim_blanks hbefore ht hafter

theorem trim_eq_empty_iff : trim s = "" ↔ isBlanks s = true := by
  rw [trim_eq_iff]
  constructor
  · rintro ⟨-, before, after, hbefore, hafter, rfl⟩
    rw [String.append_empty]
    exact isBlanks_append hbefore hafter
  · intro h
    refine ⟨⟨by simp, by simp⟩, s, "", h, rfl, ?_⟩
    rw [String.append_empty, String.append_empty]

end DiskShell.Text
