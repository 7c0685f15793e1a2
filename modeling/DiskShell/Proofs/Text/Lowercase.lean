import Mathlib
import DiskShell.Text.Lowercase

/-!
Which texts have a lower-case form in the letters a to z. A character beyond ASCII has a form that
is not made of these letters, with one exception: the form of the Kelvin sign is the letter k. So a
text is in lower case a given word of letters if and only if it is that word, up to case, once each
Kelvin sign is read as a k (`sameLetters_lowercase`).
-/

namespace DiskShell.Text

/-- The sign of the unit kelvin. -/
def kelvin : Char := '\u212A'

def readKelvin (c : Char) : Char := if c = kelvin then 'k' else c

/-- A text with the letter k in the place of each Kelvin sign. -/
def withoutKelvin (s : String) : String := String.ofList (s.toList.map readKelvin)

/-! ## The table -/

/-- The table has the letters A to Z, and all else in it lies beyond ASCII. -/
theorem upper_or_beyond : ∀ r ∈ lowerRuns,
    r.first = 0x41 ∧ r.last = 0x5A ∧ r.shift = 32 ∨ 128 ≤ r.first := by
  decide +kernel

/-- From beyond ASCII nothing leads back into it, the Kelvin sign apart. -/
theorem ascii_or_kelvin_or_beyond : ∀ r ∈ lowerRuns,
    r.last < 128 ∨ r.first = 0x212A ∧ r.last = 0x212A ∨ 128 ≤ r.first + r.shift := by
  decide +kernel

theorem holds_iff (r : CaseRun) (n : Nat) :
    r.holds n = true ↔ r.first ≤ n ∧ n ≤ r.last ∧ (n - r.first) % r.stride = 0 := by
  simp [CaseRun.holds, and_assoc]

/-- What the lower-case form of a character can be. -/
theorem lowerForm_cases (c : Char) :
    (c.toNat = 0x130 ∧ lowerForm c = ['i', '\u0307']) ∨
      (∃ r ∈ lowerRuns, r.holds c.toNat = true ∧
        lowerForm c = [Char.ofNat (c.toNat + r.shift).toNat]) ∨
      ((∀ r ∈ lowerRuns, r.holds c.toNat = false) ∧ lowerForm c = [c]) := by
  unfold lowerForm
  split
  · next h => exact Or.inl ⟨h, rfl⟩
  split
  · next r hr =>
    have hholds : r.holds c.toNat = true := by simpa using List.find?_some hr
    exact Or.inr (Or.inl ⟨r, List.mem_of_find?_eq_some hr, hholds, rfl⟩)
  · next hnone =>
    exact Or.inr (Or.inr ⟨by simpa using hnone, rfl⟩)

/-! ## Characters -/

theorem isUpper_iff (c : Char) : c.isUpper = true ↔ 65 ≤ c.toNat ∧ c.toNat ≤ 90 := by
  simp [Char.isUpper, UInt32.le_iff_toNat_le]

theorem not_isAlpha_of_le {c : Char} (h : 128 ≤ c.toNat) : c.isAlpha = false := by
  simp [Char.isAlpha, Char.isUpper, Char.isLower, UInt32.le_iff_toNat_le]
  omega

/-- A number that is no character stands for the character 0, which is not a letter either. -/
theorem not_isAlpha_ofNat {n : Nat} (h : 128 ≤ n) : (Char.ofNat n).isAlpha = false := by
  have hn := Char.toNat_ofNat n
  split at hn
  · exact not_isAlpha_of_le (by omega)
  · rw [← Char.ofNat_toNat (Char.ofNat n), hn]
    decide

theorem lowerForm_of_ascii {c : Char} (h : c.toNat < 128) : lowerForm c = [c.toLower] := by
  rcases lowerForm_cases c with ⟨hc, -⟩ | ⟨r, hr, hholds, hform⟩ | ⟨hnone, hform⟩
  · omega
  · obtain ⟨hfirst, hlast, -⟩ := (holds_iff r _).mp hholds
    rcases upper_or_beyond r hr with ⟨hA, hZ, hshift⟩ | hbeyond
    · have hupper : c.isUpper = true := (isUpper_iff c).mpr ⟨by omega, by omega⟩
      rw [hform, Char.toLower_eq_of_isUpper hupper, hshift]
      rfl
    · omega
  · have hupper : ¬ c.isUpper = true := by
      intro hu
      obtain ⟨hA, hZ⟩ := (isUpper_iff c).mp hu
      have hnot := hnone ⟨0x41, 0x5A, 1, 32⟩ List.mem_cons_self
      rw [(holds_iff _ _).mpr ⟨hA, hZ, Nat.mod_one _⟩] at hnot
      cases hnot
    rw [hform, Char.toLower_eq_of_not_isUpper hupper]

/-- Beyond ASCII only the Kelvin sign has a lower-case form in the letters a to z. -/
theorem exists_not_isAlpha_of_beyond {c : Char} (h : 128 ≤ c.toNat) (hk : c ≠ kelvin) :
    ∃ x ∈ lowerForm c, x.isAlpha = false := by
  rcases lowerForm_cases c with ⟨-, hform⟩ | ⟨r, hr, hholds, hform⟩ | ⟨-, hform⟩
  · exact ⟨'\u0307', by simp [hform], by decide⟩
  · obtain ⟨hfirst, hlast, -⟩ := (holds_iff r _).mp hholds
    refine ⟨_, by rw [hform]; exact List.mem_cons_self, not_isAlpha_ofNat ?_⟩
    rcases ascii_or_kelvin_or_beyond r hr with hascii | ⟨hkelvin, hkelvin'⟩ | hbeyond
    · omega
    · have hc : c.toNat = kelvin.toNat := by
        show c.toNat = 0x212A
        omega
      exact absurd (Char.toNat_inj.mp hc) hk
    · omega
  · exact ⟨c, by simp [hform], not_isAlpha_of_le h⟩

/-! ## The Kelvin sign -/

theorem toLower_ne_kelvin {c : Char} (h : c ≠ kelvin) : c.toLower ≠ kelvin := by
  intro heq
  by_cases hupper : c.isUpper = true
  · have halpha : c.toLower.isAlpha = true := by
      rw [Char.isAlpha_toLower_eq_isAlpha, Char.isAlpha, hupper, Bool.true_or]
    rw [heq] at halpha
    exact absurd halpha (by decide)
  · rw [Char.toLower_eq_of_not_isUpper hupper] at heq
    exact h heq

theorem toLower_readKelvin (c : Char) : (readKelvin c).toLower = readKelvin c.toLower := by
  unfold readKelvin
  split
  · next h => rw [h]; rfl
  · next h => rw [if_neg (toLower_ne_kelvin h)]

theorem map_toLower_withoutKelvin (s : String) :
    (withoutKelvin s).toList.map Char.toLower = (s.toList.map Char.toLower).map readKelvin := by
  simp [withoutKelvin, toLower_readKelvin]

theorem readKelvin_eq_iff {c x : Char} (hx : x ≠ kelvin) :
    readKelvin c = x ↔ c = x ∨ c = kelvin ∧ x = 'k' := by
  unfold readKelvin
  split
  · next h => simp [h, hx.symm, eq_comm]
  · next h => simp [h]

/-- Only a k can be a Kelvin sign that is read as one. -/
theorem map_readKelvin_eq_iff {cs ds : List Char} (hk : 'k' ∉ ds) (hkelvin : kelvin ∉ ds) :
    cs.map readKelvin = ds ↔ cs = ds := by
  induction cs generalizing ds with
  | nil => rfl
  | cons c rest ih =>
    cases ds with
    | nil => simp
    | cons x ds =>
      obtain ⟨hxk, hk⟩ := not_or.mp (mt List.mem_cons.mpr hk)
      obtain ⟨hx, hkelvin⟩ := not_or.mp (mt List.mem_cons.mpr hkelvin)
      rw [List.map_cons, List.cons.injEq, List.cons.injEq, ih hk hkelvin,
        readKelvin_eq_iff (Ne.symm hx), or_iff_left fun h => hxk h.2.symm]

/-! ## Texts -/

/-- The characters whose lower-case forms are in ASCII. -/
def Plain (c : Char) : Prop := c.toNat < 128 ∨ c = kelvin

theorem lowerAfter_of_plain {cs : List Char} (h : ∀ c ∈ cs, Plain c) (before : List Char) :
    lowerAfter before cs = cs.map fun c => (readKelvin c).toLower := by
  induction cs generalizing before with
  | nil => rfl
  | cons c rest ih =>
    have hrest := ih (fun x hx => h x (List.mem_cons_of_mem c hx)) (c :: before)
    have hsigma : c ≠ 'Σ' := by
      rintro rfl
      rcases h 'Σ' List.mem_cons_self with hlt | hk
      · exact absurd hlt (by decide)
      · exact absurd hk (by decide)
    rw [lowerAfter, if_neg hsigma, hrest, List.map_cons]
    rcases h c List.mem_cons_self with hlt | rfl
    · have hk : c ≠ kelvin := by
        rintro rfl
        exact absurd hlt (by decide)
      rw [lowerForm_of_ascii hlt, readKelvin, if_neg hk]
      rfl
    · rfl

/-- A character that is not plain leaves something in the lower-case text that is no letter. -/
theorem plain_of_isAlpha_lowerAfter {cs before : List Char}
    (h : ∀ x ∈ lowerAfter before cs, x.isAlpha = true) : ∀ c ∈ cs, Plain c := by
  induction cs generalizing before with
  | nil => exact fun _ hc => absurd hc List.not_mem_nil
  | cons c rest ih =>
    rw [lowerAfter] at h
    have hrest := ih fun x hx => h x (List.mem_append_right _ hx)
    have hform := fun x hx => h x (List.mem_append_left _ hx)
    have hplain : Plain c := by
      by_contra hnot
      obtain ⟨hlt, hk⟩ := not_or.mp hnot
      split at hform
      · split at hform
        · exact absurd (hform _ List.mem_cons_self) (by decide)
        · exact absurd (hform _ List.mem_cons_self) (by decide)
      · obtain ⟨x, hx, halpha⟩ := exists_not_isAlpha_of_beyond (Nat.not_lt.mp hlt) hk
        rw [hform x hx] at halpha
        cases halpha
    intro x hx
    rcases List.mem_cons.mp hx with rfl | hx
    · exact hplain
    · exact hrest x hx

theorem plain_of_isAlpha_readKelvin {c : Char} (h : (readKelvin c).isAlpha = true) : Plain c := by
  unfold readKelvin at h
  split at h
  · next hk => exact Or.inr hk
  · refine Or.inl ?_
    by_contra hle
    rw [not_isAlpha_of_le (Nat.not_lt.mp hle)] at h
    cases h

/-- What is equal to letters up to case consists of letters. -/
theorem isAlpha_of_map_toLower_eq {cs ds : List Char} (hcs : ∀ c ∈ cs, c.isAlpha = true)
    (h : cs.map Char.toLower = ds.map Char.toLower) : ∀ d ∈ ds, d.isAlpha = true := by
  intro d hd
  have hmem : d.toLower ∈ cs.map Char.toLower := by
    rw [h]
    exact List.mem_map_of_mem hd
  obtain ⟨c, hc, heq⟩ := List.mem_map.mp hmem
  rw [← Char.isAlpha_toLower_eq_isAlpha, ← heq, Char.isAlpha_toLower_eq_isAlpha]
  exact hcs c hc

/-- **Lower case and the Kelvin sign.** In lower case a text is a word of letters if and only if the
text is this word with each Kelvin sign read as a k. -/
theorem sameLetters_lowercase {word : String} (hword : ∀ c ∈ word.toList, c.isAlpha = true)
    (s : String) : sameLetters word (lowercase s) = sameLetters word (withoutKelvin s) := by
  have hplain (h : ∀ c ∈ s.toList, Plain c) :
      (lowerAfter [] s.toList).map Char.toLower = (s.toList.map readKelvin).map Char.toLower := by
    rw [lowerAfter_of_plain h]
    simp
  simp only [sameLetters, lowercase, withoutKelvin, String.toList_ofList]
  rw [Bool.eq_iff_iff, beq_iff_eq, beq_iff_eq]
  constructor
  · intro h
    have hletters := isAlpha_of_map_toLower_eq hword h
    rw [h, hplain (plain_of_isAlpha_lowerAfter hletters)]
  · intro h
    have hletters := isAlpha_of_map_toLower_eq hword h
    rw [h, hplain fun c hc =>
      plain_of_isAlpha_readKelvin (hletters _ (List.mem_map_of_mem hc))]

/-- A text that is in lower case the same as a word of letters has become that word in lower case. -/
theorem lowercase_of_sameLetters {word s : String} (hword : ∀ c ∈ word.toList, c.isAlpha = true)
    (h : sameLetters word (lowercase s) = true) :
    lowercase s = String.ofList (word.toList.map Char.toLower) := by
  rw [sameLetters, beq_iff_eq, lowercase, String.toList_ofList] at h
  have hletters := isAlpha_of_map_toLower_eq hword h
  rw [h, lowercase, lowerAfter_of_plain (plain_of_isAlpha_lowerAfter hletters)]
  simp [Function.comp_def]

end DiskShell.Text
