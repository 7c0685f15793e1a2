/-!
Look-ups in lists of pairs. The first pair with a key counts, so a look-up does not depend on the
order where no key comes twice.
-/

namespace DiskShell

variable {α β : Type} [BEq α] [LawfulBEq α] {l l' : List (α × β)} {k : α} {b : β}

theorem lookup_cons_eq [DecidableEq α] (m k : α) (b : β) (rest : List (α × β)) :
    List.lookup k ((m, b) :: rest) = if m = k then some b else rest.lookup k := by
  by_cases h : m = k
  · simp [h]
  · have hne : (k == m) = false := by simpa using fun he => h he.symm
    simp [List.lookup_cons, hne, h]

theorem mem_of_lookup (h : l.lookup k = some b) : (k, b) ∈ l := by
  obtain ⟨before, after, rfl, -⟩ := List.lookup_eq_some_iff.mp h
  simp

/-- Where no key comes twice, every pair is found under its key. -/
theorem lookup_eq_some_iff_mem (h : (l.map Prod.fst).Nodup) :
    l.lookup k = some b ↔ (k, b) ∈ l := by
  refine ⟨mem_of_lookup, fun hmem => ?_⟩
  obtain ⟨before, after, rfl⟩ := List.append_of_mem hmem
  refine List.lookup_eq_some_iff.mpr ⟨before, after, rfl, fun p hp => ?_⟩
  rw [List.map_append, List.nodup_append] at h
  have hne := h.2.2 p.1 (List.mem_map_of_mem hp) k (List.mem_cons_self ..)
  simpa using fun he => hne he.symm

theorem lookup_of_perm (hperm : l.Perm l') (h : (l.map Prod.fst).Nodup) :
    l.lookup k = l'.lookup k := by
  have h' : (l'.map Prod.fst).Nodup := (hperm.map Prod.fst).nodup_iff.mp h
  refine Option.ext fun b => ?_
  rw [lookup_eq_some_iff_mem h, lookup_eq_some_iff_mem h', hperm.mem_iff]

theorem lookup_filter_fst (p : α → Bool) (l : List (α × β)) (k : α) :
    (l.filter fun e => p e.1).lookup k = if p k then l.lookup k else none := by
  classical
  induction l with
  | nil => simp
  | cons e rest ih =>
    obtain ⟨m, b⟩ := e
    by_cases hm : m = k
    · subst hm
      cases hp : p m <;> simp [hp, ih]
    · cases hp : p m <;> simp [hp, ih, lookup_cons_eq, hm]

end DiskShell
