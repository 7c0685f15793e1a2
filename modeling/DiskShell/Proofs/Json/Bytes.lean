import DiskShell.Proofs.Json.Depth

/-!
The count of brackets on the bytes of a text. A text is stored as UTF-8, and the count looks at one
byte at a time. It comes to the same as the count on characters (`nestingOfBytes_utf8`): outside
ASCII every byte of a character is 0x80 or more, and such a byte is no bracket, no quote and no
backslash.
-/

namespace DiskShell.Json

namespace Nesting

/-- A byte counts like the character of its number. -/
def stepByte (n : Nesting) (b : UInt8) : Nesting := n.step (Char.ofNat b.toNat)

/-- Moves past something that is not looked at. Only a backslash before it is used up. -/
def pass (n : Nesting) : Nesting :=
  { n with place := if n.place = .escaped then .inside else n.place }

theorem pass_pass (n : Nesting) : n.pass.pass = n.pass := by
  obtain ⟨place, depth, deepest⟩ := n
  cases place <;> rfl

theorem step_beyond_ascii {c : Char} (h : 0x80 ≤ c.toNat) (n : Nesting) : n.step c = n.pass := by
  have hne (d : Char) (hd : d.toNat < 0x80) : c ≠ d := by
    rintro rfl
    omega
  obtain ⟨place, depth, deepest⟩ := n
  cases place with
  | escaped => rfl
  | inside => simp [step, pass, hne '\\' (by decide), hne '"' (by decide)]
  | outside =>
    simp [step, pass, hne '"' (by decide), hne '[' (by decide), hne '\x7b' (by decide),
      hne ']' (by decide), hne '\x7d' (by decide)]

theorem toNat_ofNat_byte (b : UInt8) : (Char.ofNat b.toNat).toNat = b.toNat := by
  have hlt := b.toNat_lt
  have hvalid : b.toNat.isValidChar := Or.inl (by omega)
  rw [Char.ofNat, dif_pos hvalid]
  rfl

theorem foldl_stepByte_high {bs : List UInt8} (hne : bs ≠ []) (hbs : ∀ b ∈ bs, 0x80 ≤ b.toNat)
    (n : Nesting) : bs.foldl stepByte n = n.pass := by
  induction bs generalizing n with
  | nil => exact absurd rfl hne
  | cons b rest ih =>
    have hb : n.stepByte b = n.pass := by
      refine step_beyond_ascii ?_ n
      rw [toNat_ofNat_byte]
      exact hbs b (List.mem_cons_self ..)
    rw [List.foldl_cons, hb]
    cases rest with
    | nil => rfl
    | cons b' rest =>
      rw [ih (List.cons_ne_nil _ _) (fun x hx => hbs x (List.mem_cons_of_mem _ hx)), pass_pass]

end Nesting

/-! ## Characters -/

/-- An ASCII character is one byte, its number. -/
theorem utf8EncodeChar_of_ascii {c : Char} (h : c.toNat < 0x80) :
    String.utf8EncodeChar c = [UInt8.ofNat c.toNat] := by
  have hle : c.val.toNat ≤ 127 := Nat.le_of_lt_succ h
  rw [String.utf8EncodeChar]
  exact if_pos hle

theorem le_toNat_ofNat {n : Nat} (hlow : 0x80 ≤ n) (hhigh : n < 0x100) :
    0x80 ≤ (UInt8.ofNat n).toNat := by
  rw [UInt8.toNat_ofNat', Nat.mod_eq_of_lt hhigh]
  exact hlow

/-- Every other character is several bytes, none of them ASCII. -/
theorem le_of_mem_utf8EncodeChar {c : Char} (h : 0x80 ≤ c.toNat) :
    String.utf8EncodeChar c ≠ [] ∧ ∀ b ∈ String.utf8EncodeChar c, 0x80 ≤ b.toNat := by
  have hnot : ¬ c.val.toNat ≤ 127 := Nat.not_le.mpr h
  rw [String.utf8EncodeChar]
  simp only [hnot, ↓reduceIte]
  split
  · refine ⟨List.cons_ne_nil _ _, fun b hb => ?_⟩
    simp only [List.mem_cons, List.not_mem_nil, or_false] at hb
    rcases hb with rfl | rfl <;> exact le_toNat_ofNat (by omega) (by omega)
  · split
    · refine ⟨List.cons_ne_nil _ _, fun b hb => ?_⟩
      simp only [List.mem_cons, List.not_mem_nil, or_false] at hb
      rcases hb with rfl | rfl | rfl <;> exact le_toNat_ofNat (by omega) (by omega)
    · refine ⟨List.cons_ne_nil _ _, fun b hb => ?_⟩
      simp only [List.mem_cons, List.not_mem_nil, or_false] at hb
      rcases hb with rfl | rfl | rfl | rfl <;> exact le_toNat_ofNat (by omega) (by omega)

theorem foldl_stepByte_utf8EncodeChar (n : Nesting) (c : Char) :
    (String.utf8EncodeChar c).foldl Nesting.stepByte n = n.step c := by
  by_cases h : c.toNat < 0x80
  · have hbyte : (UInt8.ofNat c.toNat).toNat = c.toNat := by
      rw [UInt8.toNat_ofNat']
      omega
    rw [utf8EncodeChar_of_ascii h, List.foldl_cons, List.foldl_nil, Nesting.stepByte, hbyte,
      Char.ofNat_toNat]
  · have hhigh : 0x80 ≤ c.toNat := Nat.not_lt.mp h
    obtain ⟨hne, hbytes⟩ := le_of_mem_utf8EncodeChar hhigh
    rw [Nesting.foldl_stepByte_high hne hbytes, Nesting.step_beyond_ascii hhigh]

/-! ## Texts -/

/-- The most brackets that are open at once, counted byte by byte. -/
def nestingOfBytes (bytes : ByteArray) : Nat :=
  (bytes.data.toList.foldl Nesting.stepByte .start).deepest

/-- Bytes and characters give the same count. -/
theorem nestingOfBytes_utf8 (s : String) : nestingOfBytes s.toUTF8 = nesting s.toList := by
  have hbytes : s.toUTF8.data.toList = s.toList.flatMap String.utf8EncodeChar := by
    rw [String.toUTF8_eq_toByteArray, ← String.utf8Encode_toList, List.utf8Encode,
      List.toList_data_toByteArray]
  have hchars (cs : List Char) (n : Nesting) :
      (cs.flatMap String.utf8EncodeChar).foldl Nesting.stepByte n = cs.foldl Nesting.step n := by
    induction cs generalizing n with
    | nil => rfl
    | cons c rest ih =>
      rw [List.flatMap_cons, List.foldl_append, foldl_stepByte_utf8EncodeChar, ih,
        List.foldl_cons]
  rw [nestingOfBytes, hbytes, hchars]
  rfl

/-- A letter of two bytes after a backslash, and a bracket between quotes. -/
example : nestingOfBytes "[\"\\ä[\", []]".toUTF8 = 2 := by cbv

end DiskShell.Json
