import Mathlib.Data.List.Chain
import Mathlib.Order.Bounds.Basic
import DiskShell.Proofs.Node.Level

/-!
Chains of nodes, each held by the one before it. The levels of a node are the length of the longest
chain below it (`isGreatest_levels`), and one more than the levels of the highest node that it holds
(`levels_eq`). Where paths reach every node, names lead down each chain (`exists_descend?`).
-/

namespace DiskShell.Node

variable {n m : Node} {below : List Node} {names : List String}

/-- The second node stands directly below the first, under some name. -/
def Holds (n m : Node) : Prop := ∃ name, (name, m) ∈ n.entries

theorem levels_lt_of_holds (h : n.Holds m) : m.levels < n.levels := by
  obtain ⟨name, hm⟩ := h
  cases n with
  | file c => cases hm
  | directory d => exact Directory.levels_of_mem hm

/-- Some node below one with levels has just one level less. -/
theorem exists_holds_of_levels {k : Nat} (h : n.levels = k + 1) :
    ∃ m, n.Holds m ∧ m.levels = k := by
  cases n with
  | file c => cases h
  | directory d =>
    rw [levels] at h
    have hnot : ¬ Directory.levels d ≤ k := by omega
    rw [Directory.levels_le_iff] at hnot
    push Not at hnot
    obtain ⟨e, he, hlt⟩ := hnot
    have hle := Directory.levels_of_mem he
    exact ⟨e.2, ⟨e.1, he⟩, by omega⟩

/-! ## The longest chain -/

theorem length_le_of_chain (h : (n :: below).IsChain Holds) : below.length ≤ n.levels := by
  induction below generalizing n with
  | nil => exact Nat.zero_le _
  | cons m rest ih =>
    obtain ⟨hholds, hrest⟩ := List.isChain_cons_cons.mp h
    have hlt := levels_lt_of_holds hholds
    have hle := ih hrest
    rw [List.length_cons]
    omega

theorem exists_longest_chain (n : Node) :
    ∃ below, (n :: below).IsChain Holds ∧ below.length = n.levels := by
  -- by the number of levels: each step of the chain goes down by one of them
  generalize hk : n.levels = k
  induction k generalizing n with
  | zero => exact ⟨[], List.isChain_singleton n, rfl⟩
  | succ k ih =>
    obtain ⟨m, hholds, hm⟩ := exists_holds_of_levels hk
    obtain ⟨below, hchain, hlength⟩ := ih m hm
    exact ⟨m :: below, List.isChain_cons_cons.mpr ⟨hholds, hchain⟩, congrArg (· + 1) hlength⟩

/-- **The levels of a node are the length of the longest chain below it.** -/
theorem isGreatest_levels (n : Node) :
    IsGreatest {k | ∃ below, (n :: below).IsChain Holds ∧ below.length = k} n.levels := by
  refine ⟨exists_longest_chain n, ?_⟩
  rintro _ ⟨below, hchain, rfl⟩
  exact length_le_of_chain hchain

/-- A file and an empty directory have no levels; any other node has one more than the highest of
those that it holds. -/
theorem levels_eq (n : Node) :
    n.levels = (n.entries.map fun e => e.2.levels).max?.elim 0 (1 + ·) := by
  cases n with
  | file c => rfl
  | directory d =>
    show Directory.levels d = (d.map fun e => e.2.levels).max?.elim 0 (1 + ·)
    cases hmax : (d.map fun e => e.2.levels).max? with
    | none =>
      rw [List.max?_eq_none_iff, List.map_eq_nil_iff] at hmax
      subst hmax
      rfl
    | some k =>
      obtain ⟨hmem, hgreatest⟩ := List.max?_eq_some_iff.mp hmax
      obtain ⟨e, he, rfl⟩ := List.mem_map.mp hmem
      show Directory.levels d = 1 + e.2.levels
      apply Nat.le_antisymm
      · refine (Directory.levels_le_iff d _).mpr fun e' he' => ?_
        have hle := hgreatest _ (List.mem_map_of_mem he')
        omega
      · rw [Nat.add_comm]
        exact Directory.levels_of_mem he

/-! ## Names along a chain -/

theorem holds_of_step? {name : String} (h : n.step? name = some m) : n.Holds m := by
  cases n with
  | file c => cases h
  | directory d => exact ⟨name, Directory.mem_of_child? h⟩

theorem Holds.exists_step? (hn : n.Tidy) (h : n.Holds m) :
    m.Tidy ∧ ∃ name, n.step? name = some m := by
  obtain ⟨name, hm⟩ := h
  cases n with
  | file c => cases hm
  | directory d =>
    obtain ⟨hnodup, hentries⟩ := (Directory.tidy_iff d).mp hn
    exact ⟨(hentries _ hm).2, name, (Directory.child?_eq_some_iff_mem hnodup).mpr hm⟩

theorem descend?_cons_eq_bind (n : Node) (name : String) (rest : List String) :
    n.descend? (name :: rest) = (n.step? name).bind fun m => m.descend? rest :=
  List.foldlM_cons

/-- No way down is longer than there are levels. -/
theorem length_le_of_descend? (h : n.descend? names = some m) : names.length ≤ n.levels := by
  induction names generalizing n with
  | nil => exact Nat.zero_le _
  | cons name rest ih =>
    rw [descend?_cons_eq_bind] at h
    obtain ⟨x, hx, hrest⟩ := Option.bind_eq_some_iff.mp h
    have hlt := levels_lt_of_holds (holds_of_step? hx)
    have hle := ih hrest
    rw [List.length_cons]
    omega

/-- Where no two names are the same, names lead down every chain. -/
theorem exists_descend? (hn : n.Tidy) (h : (n :: below).IsChain Holds) :
    ∃ names m, names.length = below.length ∧ n.descend? names = some m := by
  induction below generalizing n with
  | nil => exact ⟨[], n, rfl, rfl⟩
  | cons x rest ih =>
    obtain ⟨hholds, hrest⟩ := List.isChain_cons_cons.mp h
    obtain ⟨hx, name, hname⟩ := hholds.exists_step? hn
    obtain ⟨names, m, hlength, hm⟩ := ih hx hrest
    refine ⟨name :: names, m, congrArg (· + 1) hlength, ?_⟩
    rw [descend?_cons_eq_bind, hname]
    exact hm

end DiskShell.Node
