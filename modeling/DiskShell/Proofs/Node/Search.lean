import DiskShell.Proofs.Node.Height
import DiskShell.Proofs.Node.Total

/-!
The search for the lowest node, one visit at a time. Nothing depends on which of the pending
directories comes next: every search visits each directory once and then stops, with the height of
the node it set out from (`visits_search`).
-/

namespace DiskShell

/-! ## Visits -/

/-- How far a search has come: the greatest distance that it has seen, and the directories that it
has not visited yet, with their distance. -/
structure Search where
  best : Nat
  pending : Multiset (Directory × Nat)

namespace Search

/-- One of the pending directories is visited, whichever it is. -/
inductive Visit : Search → Search → Prop
  | visit (best depth : Nat) (d : Directory) (rest : Multiset (Directory × Nat)) :
    Visit ⟨best, (d, depth) ::ₘ rest⟩
      ⟨if d.isEmpty then best else max best (depth + 1), d.below depth + rest⟩

/-- A number of visits, one after the other. -/
inductive Visits : Nat → Search → Search → Prop
  | refl (s : Search) : Visits 0 s s
  | next {k : Nat} {s s' s'' : Search} : Visit s s' → Visits k s' s'' → Visits (k + 1) s s''

end Search

/-- The search as it sets out from a node. -/
def Node.search : Node → Search
  | file _ => ⟨0, 0⟩
  | directory d => ⟨0, {(d, 0)}⟩

/-- The directories of a subtree, its root included. -/
def Node.directories (n : Node) : Nat := n.total fun m => if m.isDirectory then 1 else 0

/-- The directories below a directory are its subdirectories and the directories below them. -/
theorem Directory.total_isDirectory (d : Directory) (depth : Nat) :
    total (fun m => if m.isDirectory then 1 else 0) d =
      ((d.below depth).map fun p => (Node.directory p.1).directories).sum := by
  rw [below, List.map_map]
  induction d with
  | nil => rfl
  | cons e rest ih =>
    obtain ⟨name, n⟩ := e
    cases n with
    | file c =>
      have hrest : subdirectories ((name, .file c) :: rest) = subdirectories rest := rfl
      rw [hrest, ← ih, total, Node.total]
      exact Nat.zero_add _
    | directory s =>
      have hrest : subdirectories ((name, .directory s) :: rest) = s :: subdirectories rest := rfl
      rw [hrest, List.map_cons, List.sum_cons, ← ih, total]
      rfl

namespace Search

variable {s s' : Search} {k m : Nat}

/-! ## How many visits there are -/

/-- The visits that are still to come. -/
def left (s : Search) : Nat := (s.pending.map fun p => (Node.directory p.1).directories).sum

theorem Visit.left_eq (h : Visit s s') : s.left = 1 + s'.left := by
  obtain ⟨best, depth, d, rest⟩ := h
  have hvisited : (Node.directory d).directories =
      1 + ((d.below depth).map fun p => (Node.directory p.1).directories).sum := by
    rw [← Directory.total_isDirectory]
    rfl
  simp only [left, Multiset.map_cons, Multiset.sum_cons, Multiset.map_add, Multiset.sum_add,
    Multiset.map_coe, Multiset.sum_coe, hvisited, Nat.add_assoc]

theorem Visits.left_eq (h : Visits k s s') : s.left = k + s'.left := by
  induction h with
  | refl s => exact (Nat.zero_add _).symm
  | next hvisit _ ih =>
    rw [hvisit.left_eq, ih]
    omega

theorem left_search (n : Node) : n.search.left = n.directories := by
  cases n with
  | file c => rfl
  | directory d => simp [Node.search, left]

theorem pending_eq_zero (h : s.left = 0) : s.pending = 0 := by
  refine Multiset.eq_zero_of_forall_notMem fun p hp => ?_
  have hzero := Multiset.sum_eq_zero_iff.mp h _ (Multiset.mem_map_of_mem _ hp)
  simp [Node.directories, Node.total, Node.isDirectory] at hzero

theorem exists_visit (h : s.pending ≠ 0) : ∃ s', Visit s s' := by
  obtain ⟨best, pending⟩ := s
  obtain ⟨⟨d, depth⟩, hp⟩ := Multiset.exists_mem_of_ne_zero h
  obtain ⟨rest, rfl⟩ := Multiset.exists_cons_of_mem hp
  exact ⟨_, .visit best depth d rest⟩

/-! ## What the visits find -/

/-- No node is further away than a bound, whether it has been seen or not. -/
def Within (s : Search) (m : Nat) : Prop :=
  s.best ≤ m ∧ ∀ p ∈ s.pending, p.1 ≠ [] → p.2 + Directory.levels p.1 ≤ m

/-- A visit finds out what was to be found, and no more. -/
theorem Visit.within_iff (h : Visit s s') : s'.Within m ↔ s.Within m := by
  obtain ⟨best, depth, d, rest⟩ := h
  simp only [Within, Multiset.mem_add, Multiset.mem_coe, Multiset.forall_mem_cons, or_imp,
    forall_and]
  rw [← and_assoc, Directory.visit_le_iff, and_assoc]

theorem Visits.within_iff (h : Visits k s s') : s'.Within m ↔ s.Within m := by
  induction h with
  | refl s => exact Iff.rfl
  | next hvisit _ ih => exact ih.trans hvisit.within_iff

theorem within_search_iff (n : Node) : n.search.Within m ↔ n.levels ≤ m := by
  cases n with
  | file c => simp [Node.search, Within, Node.levels]
  | directory d =>
    by_cases hd : d = []
    · subst hd
      simp [Node.search, Within, Node.levels, Directory.levels]
    · simp [Node.search, Within, Node.levels, hd]

theorem best_eq_height {n : Node} (h : Visits k n.search s) (hend : s.pending = 0) :
    s.best = n.height := by
  rw [Node.height_eq_levels]
  refine eq_of_forall_ge_iff fun m => ?_
  rw [← within_search_iff, ← h.within_iff, Within, hend]
  simp

/-- **A search goes on until it has visited as many directories as there are**, and then it has found
the height. -/
theorem visits_search {n : Node} (h : Visits k n.search s) :
    (k < n.directories ∧ ∃ s', Visit s s') ∨ (k = n.directories ∧ s = ⟨n.height, 0⟩) := by
  have hleft := h.left_eq
  rw [left_search] at hleft
  by_cases hend : s.pending = 0
  · have hbest := best_eq_height h hend
    have hzero : s.left = 0 := by
      rw [left, hend]
      rfl
    refine Or.inr ⟨by omega, ?_⟩
    obtain ⟨best, pending⟩ := s
    cases hend
    cases hbest
    rfl
  · have hpos : s.left ≠ 0 := fun hzero => hend (pending_eq_zero hzero)
    exact Or.inl ⟨by omega, exists_visit hend⟩

/-! ## The search that is run -/

/-- To visit the first pending directory each time is one way to search. -/
theorem exists_visits_heightFrom (best : Nat) (pending : List (Directory × Nat)) :
    ∃ k, Visits k ⟨best, pending⟩ ⟨heightFrom best pending, 0⟩ := by
  induction best, pending using heightFrom.induct with
  | case1 best =>
    rw [heightFrom]
    exact ⟨0, .refl _⟩
  | case2 best d depth pending ih =>
    obtain ⟨k, hk⟩ := ih
    simp only [dite_eq_ite] at hk
    rw [heightFrom]
    exact ⟨k + 1, .next (.visit best depth d pending) hk⟩

theorem visits_height (n : Node) : Visits n.directories n.search ⟨n.height, 0⟩ := by
  have hrun : ∃ k, Visits k n.search ⟨n.height, 0⟩ := by
    cases n with
    | file c => exact ⟨0, .refl _⟩
    | directory d => exact exists_visits_heightFrom 0 [(d, 0)]
  obtain ⟨k, hk⟩ := hrun
  have hleft := hk.left_eq
  rw [left_search] at hleft
  have hzero : left ⟨n.height, 0⟩ = 0 := rfl
  rwa [hleft, hzero]

end Search

end DiskShell
