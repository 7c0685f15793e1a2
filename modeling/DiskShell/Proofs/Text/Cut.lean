import DiskShell.Text.Blank

/-!
Texts cut at one character. The pieces do not contain it, put together with it they are the text
again, and a text that has it between two parts has the pieces of both (`cut_append`).
-/

namespace DiskShell.Text

theorem not_mem_of_mem_splitOnPPrepend {sep : Char} {cs before : List Char}
    (hb : sep ∉ before) {piece : List Char}
    (h : piece ∈ List.splitOnPPrepend (· == sep) cs before) : sep ∉ piece := by
  induction cs generalizing before with
  | nil =>
    rw [List.splitOnPPrepend_nil, List.mem_singleton] at h
    rw [h, List.mem_reverse]
    exact hb
  | cons c cs ih =>
    rw [List.splitOnPPrepend_cons_eq_if] at h
    split at h
    · rcases List.mem_cons.mp h with rfl | h
      · rw [List.mem_reverse]
        exact hb
      · exact ih List.not_mem_nil h
    · next hc =>
      refine ih ?_ h
      intro hm
      rcases List.mem_cons.mp hm with rfl | hm
      · exact hc (beq_self_eq_true sep)
      · exact hb hm

/-- The pieces of a text do not contain what it is cut at. -/
theorem not_mem_of_mem_cut {sep : Char} {s piece : String} (h : piece ∈ cut sep s) :
    sep ∉ piece.toList := by
  obtain ⟨cs, hcs, rfl⟩ := List.mem_map.mp h
  rw [List.splitOn_eq_splitOnP, List.splitOnP_eq_splitOnPPrepend] at hcs
  rw [String.toList_ofList]
  exact not_mem_of_mem_splitOnPPrepend List.not_mem_nil hcs

theorem cut_of_not_mem {sep : Char} {s : String} (h : sep ∉ s.toList) : cut sep s = [s] := by
  rw [cut, List.splitOn_eq_singleton h, List.map_singleton, String.ofList_toList]

theorem cut_append (sep : Char) (s t : String) :
    cut sep (s ++ String.singleton sep ++ t) = cut sep s ++ cut sep t := by
  have htext : (s ++ String.singleton sep ++ t).toList = s.toList ++ sep :: t.toList := by simp
  rw [cut, htext, List.splitOn_append_cons_self, List.map_append]
  rfl

theorem intercalate_cut (sep : Char) (s : String) :
    (String.singleton sep).intercalate (cut sep s) = s := by
  rw [← String.toList_inj, String.toList_intercalate, cut, List.map_map]
  have hpieces : (String.toList ∘ String.ofList : List Char → List Char) = id := by
    funext cs
    exact String.toList_ofList
  rw [hpieces, List.map_id, String.toList_singleton]
  exact List.intercalate_splitOn sep

end DiskShell.Text
