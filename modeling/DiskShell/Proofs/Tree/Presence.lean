import DiskShell.Proofs.Tree.Effect

/-!
Which paths still lead somewhere after an edit: all of them, where the edit only adds, and all but
the path that it is given, where it removes (`isSome_node?_remove`).
-/

namespace DiskShell.Tree

variable {t t' : Tree} {q names : List String}

theorem isSome_face? (t : Tree) (names : List String) :
    (t.face? names).isSome = (t.node? names).isSome := Option.isSome_map

/-- A path where only the names in a directory may have changed leads somewhere as before. -/
theorem isSome_node?_of_face? {change : List String → List String}
    (h : t'.face? q = (t.face? q).map (Face.relist change)) :
    (t'.node? q).isSome = (t.node? q).isSome := by
  rw [← isSome_face?, h, Option.isSome_map, isSome_face?]

theorem isSome_node?_write (names : List String) (content : String)
    (hq : (t.node? q).isSome = true) : (node? (t.write names content).1 q).isSome = true := by
  refine (atomic_write t names content).keeps (P := fun t' => (t'.node? q).isSome = true) hq
    fun t' h => ?_
  have hwritten := written_of_write h
  by_cases hsame : q = names
  · rw [hsame, hwritten.node?_eq]
    rfl
  · rw [isSome_node?_of_face? (hwritten.face?_eq q hsame)]
    exact hq

theorem isSome_node?_makeDirectory (names : List String) (hq : (t.node? q).isSome = true) :
    (node? (t.makeDirectory names).1 q).isSome = true := by
  refine (atomic_makeDirectory t names).keeps (P := fun t' => (t'.node? q).isSome = true) hq
    fun t' h => ?_
  have hmade := directoriesMade_of_makeDirectory h
  by_cases hway : q <+: names
  · obtain ⟨d, hd⟩ := Option.isSome_iff_exists.mp (hmade.reached q hway)
    rw [node?_of_directory? hd]
    rfl
  · rw [hmade.node?_eq q hway]
    exact hq

theorem isSome_node?_copy (source target : List String) (hq : (t.node? q).isSome = true) :
    (node? (t.copy source target).1 q).isSome = true := by
  refine (atomic_copy t source target).keeps (P := fun t' => (t'.node? q).isSome = true) hq
    fun t' h => ?_
  have hfree := node?_of_ensureTransferable (after_eq_ok_iff.mp h).1
  have hbeside : ¬ target <+: q := by
    rintro ⟨rest, rfl⟩
    rw [node?_append_of_none hfree rest] at hq
    cases hq
  rw [isSome_node?_of_face? ((copied_of_copy h).face?_eq q hbeside)]
  exact hq

/-- A removal takes nothing away but what is at its path: below a leaf there is nothing to lose. -/
theorem isSome_node?_remove (hne : q ≠ names) (directoryOnly : Bool)
    (hq : (t.node? q).isSome = true) :
    (node? (t.remove names directoryOnly).1 q).isSome = true := by
  refine (atomic_remove t names directoryOnly).keeps (P := fun t' => (t'.node? q).isSome = true) hq
    fun t' h => ?_
  obtain ⟨hcheck, parent, name, f, n, d, rfl, hf, hd, rfl⟩ := exists_focus_of_remove h
  have hbeside : ¬ parent ++ [name] <+: q := by
    rintro ⟨rest, rfl⟩
    have hrest : rest ≠ [] := by simpa using hne
    obtain ⟨n, hn, hleaf⟩ := exists_leaf_of_ensureRemovable hcheck
    rw [node?_append_of_leaf hn hleaf hrest] at hq
    cases hq
  rw [isSome_node?_of_face? ((differsAt_remove hf hd).face?_eq q hbeside)]
  exact hq

end DiskShell.Tree
