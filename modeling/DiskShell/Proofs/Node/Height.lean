import DiskShell.Height
import DiskShell.Proofs.Node.Shape

/-!
The height of a node is the number of its levels (`height_eq_levels`): visiting the directories one
by one from a list of pending ones finds the same number as the recursion on the node.
-/

namespace DiskShell

theorem Directory.mem_below_iff {d : Directory} {depth : Nat} {p : Directory × Nat} :
    p ∈ d.below depth ↔ ∃ name s, (name, Node.directory s) ∈ d ∧ p = (s, depth + 1) := by
  simp only [below, subdirectories, List.mem_map, List.mem_filterMap]
  constructor
  · rintro ⟨s, ⟨⟨name, n⟩, he, hs⟩, rfl⟩
    cases n with
    | file c => cases hs
    | directory d =>
      cases hs
      exact ⟨name, s, he, rfl⟩
  · rintro ⟨name, s, he, rfl⟩
    exact ⟨s, ⟨(name, .directory s), he, rfl⟩, rfl⟩

/-- What one visit finds: its entries, one step down, and the subdirectories that it leaves. -/
theorem Directory.below_le_iff {d : Directory} (hd : d ≠ []) (depth m : Nat) :
    (depth + 1 ≤ m ∧ ∀ p ∈ d.below depth, p.1 ≠ [] → p.2 + levels p.1 ≤ m) ↔
      depth + levels d ≤ m := by
  constructor
  · rintro ⟨hstep, hbelow⟩
    have hentry : ∀ e ∈ d, e.2.levels + 1 ≤ m - depth := by
      intro e he
      obtain ⟨name, n⟩ := e
      cases n with
      | file c =>
        simp only [Node.levels]
        omega
      | directory s =>
        simp only [Node.levels]
        by_cases hs : s = []
        · subst hs
          simp only [levels]
          omega
        · have hle := hbelow (s, depth + 1) (mem_below_iff.mpr ⟨name, s, he, rfl⟩) hs
          simp only at hle
          omega
    have hlevels := (levels_le_iff d (m - depth)).mpr hentry
    omega
  · intro hle
    constructor
    · obtain ⟨e, he⟩ := List.exists_mem_of_ne_nil d hd
      have hlevels := levels_of_mem he
      omega
    · intro p hp _
      obtain ⟨name, s, he, rfl⟩ := mem_below_iff.mp hp
      have hlevels := levels_of_mem he
      simp only [Node.levels] at hlevels
      simp only
      omega

/-- What one visit makes of a bound. A visit of an empty directory raises nothing, so empty
directories are left out of the bound. -/
theorem Directory.visit_le_iff (d : Directory) (best depth m : Nat) :
    ((if d.isEmpty then best else max best (depth + 1)) ≤ m ∧
        ∀ p ∈ d.below depth, p.1 ≠ [] → p.2 + levels p.1 ≤ m) ↔
      best ≤ m ∧ (d ≠ [] → depth + levels d ≤ m) := by
  by_cases hd : d = []
  · subst hd
    simp [below, subdirectories]
  · have hempty : d.isEmpty = false := by simpa using hd
    rw [hempty, if_neg Bool.false_ne_true, Nat.max_le, and_assoc, below_le_iff hd]
    simp [hd]

theorem heightFrom_le_iff (best : Nat) (pending : List (Directory × Nat)) (m : Nat) :
    heightFrom best pending ≤ m ↔
      best ≤ m ∧ ∀ p ∈ pending, p.1 ≠ [] → p.2 + Directory.levels p.1 ≤ m := by
  induction best, pending using heightFrom.induct with
  | case1 best => simp [heightFrom]
  | case2 best d depth pending ih =>
    simp only [dite_eq_ite] at ih
    rw [heightFrom, ih, List.forall_mem_append, List.forall_mem_cons, ← and_assoc,
      Directory.visit_le_iff, and_assoc]

theorem Node.height_eq_levels (n : Node) : n.height = n.levels := by
  cases n with
  | file c => rfl
  | directory d =>
    apply Nat.le_antisymm
    · refine (heightFrom_le_iff 0 [(d, 0)] _).mpr ⟨Nat.zero_le _, ?_⟩
      intro p hp _
      rw [List.mem_singleton.mp hp]
      simp [Node.levels]
    · by_cases hd : d = []
      · subst hd
        exact Nat.zero_le _
      · have hle := ((heightFrom_le_iff 0 [(d, 0)] _).mp (Nat.le_refl _)).2 (d, 0)
          (List.mem_singleton.mpr rfl) hd
        simpa [Node.levels, Node.height] using hle

end DiskShell
