import DiskShell.Document
import DiskShell.Proofs.Json.Depth
import DiskShell.Proofs.Json.RoundTrip
import DiskShell.Proofs.Record

/-!
The stored text of a tree. Whatever is read from a text is well formed (`wellFormed_of_decode`), and
what is well formed is read back (`decode_encode`); so the trees that survive being stored are the
well-formed ones and no others, and a text has to be repaired at most once.
-/

namespace DiskShell.Tree

theorem parse?_encode (t : Tree) : Json.parse? none t.encode = some t.toRecord.toJson :=
  Json.parse?_print t.toRecord.toJson

/-- The text of a tree has three brackets for each level, and one or two more. -/
theorem nesting_encode (t : Tree) :
    3 * Directory.levels t + 1 ≤ Json.nesting t.encode.toList ∧
      Json.nesting t.encode.toList ≤ 3 * Directory.levels t + 2 := by
  rw [Json.nesting_eq_depth (parse?_encode t)]
  exact Record.depth_toJson_ofNode (.directory t) ""

/-- The root and its list are two brackets, and the empty directory in it is three more. -/
example : Json.nesting (Tree.encode [("a", .directory [])]).toList = 5 := by cbv

theorem nesting_encode_le_iff (t : Tree) :
    Json.nesting t.encode.toList ≤ nestingLimit ↔ Directory.levels t ≤ depthLimit := by
  obtain ⟨hle, hge⟩ := nesting_encode t
  simp only [nestingLimit, depthLimit]
  omega

/-- A text is read as the document that it holds if it is not nested too deeply. -/
theorem decode_of_parse? {s : String} {j : Json} {r : Record}
    (hn : Json.nesting s.toList ≤ nestingLimit) (hp : Json.parse? none s = some j)
    (hv : j.isValue = true) (hr : Record.ofJson? j = some r) : decode s = ofRecord r := by
  have hpv : Json.parseValue? none s = some j := by
    rw [Json.parseValue?, hp]
    simp [Option.filter, hv]
  simp only [decode, if_neg (Nat.not_lt.mpr hn), hpv, hr]

theorem decode_encode {t : Tree} (h : t.WellFormed) : decode t.encode = .ok t := by
  have hn : Json.nesting t.encode.toList ≤ nestingLimit := (nesting_encode_le_iff t).mpr h.shallow
  rw [decode_of_parse? hn (parse?_encode t) (Record.isValue_toJson _) (Record.ofJson?_toJson _)]
  have hbuilt : Record.insertAll [] (Record.ofEntries t) = t :=
    Node.directory.inj (Record.toNode_ofNode (.directory t) "" h.tidy)
  rw [toRecord, ofRecord, hbuilt]

/-- What a text that is accepted holds: a document that is not nested too deeply, and in it the
record of a directory. -/
theorem exists_record_of_decode {s : String} {t : Tree} (h : decode s = .ok t) :
    ∃ j name children, Json.nesting s.toList ≤ nestingLimit ∧ Json.parse? none s = some j ∧
      Record.ofJson? j = some (.directory name children) ∧ t = Record.insertAll [] children := by
  simp only [decode] at h
  split at h
  · cases h
  next hn =>
  split at h
  · cases h
  next j hj =>
  split at h
  · cases h
  next r hr =>
  obtain ⟨hp, -⟩ := Option.filter_eq_some_iff.mp hj
  cases r with
  | file name content => cases h
  | directory name children =>
    cases h
    exact ⟨j, name, children, Nat.not_lt.mp hn, hp, hr, rfl⟩

theorem levels_of_decode {s : String} {t : Tree} (h : decode s = .ok t) :
    3 * Directory.levels t + 1 ≤ Json.nesting s.toList := by
  obtain ⟨j, name, children, -, hp, hr, rfl⟩ := exists_record_of_decode h
  rw [Json.nesting_eq_depth hp]
  exact Record.levels_of_ofJson? j _ hr

theorem wellFormed_of_decode {s : String} {t : Tree} (h : decode s = .ok t) : t.WellFormed := by
  have hlevels := levels_of_decode h
  obtain ⟨j, name, children, hn, -, -, rfl⟩ := exists_record_of_decode h
  refine ⟨Record.tidy_insertAll children [] Directory.tidy_nil, ?_⟩
  simp only [nestingLimit, depthLimit] at hn ⊢
  omega

/-- **Storing a tree is lossless on the well-formed trees and on no others.** -/
theorem decode_encode_eq_ok_iff (t : Tree) : decode t.encode = .ok t ↔ t.WellFormed := by
  constructor
  · exact wellFormed_of_decode
  · exact decode_encode

/-! ## Repair -/

/-- Writing adds no more than the list of children that a directory on the lowest level may lack. -/
theorem nesting_encode_of_decode {s : String} {t : Tree} (h : decode s = .ok t) :
    Json.nesting t.encode.toList ≤ Json.nesting s.toList + 1 := by
  have hlevels := levels_of_decode h
  obtain ⟨-, hencode⟩ := nesting_encode t
  omega

/-- **One repair is enough.** A text is refused, or it holds a tree that is well formed, whatever had
to be repaired; and then the text that the tree is written as is accepted and holds the same tree. It
is nested at most one bracket deeper than the first, and never beyond the limit. -/
theorem decode_repairs_once (s : String) :
    (∃ e, decode s = .error e) ∨
      ∃ t, decode s = .ok t ∧ t.WellFormed ∧ t.toRecord.name = "" ∧
        decode t.encode = .ok t ∧
        Json.nesting t.encode.toList ≤ min nestingLimit (Json.nesting s.toList + 1) := by
  cases h : decode s with
  | error e => exact Or.inl ⟨e, rfl⟩
  | ok t =>
    have hwf := wellFormed_of_decode h
    have hlimit := (nesting_encode_le_iff t).mpr hwf.shallow
    refine Or.inr ⟨t, rfl, hwf, rfl, decode_encode hwf, ?_⟩
    exact Nat.le_min.mpr ⟨hlimit, nesting_encode_of_decode h⟩

/-- The list of children that is missing here is written. -/
example :
    Json.nesting "\x7b\"type\":\"directory\"\x7d".toList = 1 ∧
      Json.nesting (Tree.encode []).toList = 2 := by cbv

end DiskShell.Tree
