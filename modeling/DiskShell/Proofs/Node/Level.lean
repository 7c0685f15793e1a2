import DiskShell.Proofs.Tree.Face

/-!
The nodes at a distance below a node. They make up a level: each node at that distance, once
(`mem_level_iff`), in the order in which they stand from left to right (`pairwise_level`). Level
after level they are all nodes down to a depth (`mem_downTo_iff`).
-/

namespace DiskShell

namespace Node

/-- What a node holds, in order. A file holds nothing. -/
def entries : Node → List (String × Node)
  | file _ => []
  | directory d => d

/-- The nodes at a distance, with the names that lead to them. -/
def level : Nat → Node → List (List String × Node)
  | 0, n => [([], n)]
  | k + 1, n => n.entries.flatMap fun e => (level k e.2).map fun x => (e.1 :: x.1, x.2)

/-- The two ways part in a directory, and the first goes on under a name further left. -/
def LeftOf (n : Node) (p q : List String) : Prop :=
  ∃ way d a b rest rest', n.descend? way = some (.directory d) ∧
    [a, b].Sublist (Directory.names d) ∧ p = way ++ a :: rest ∧ q = way ++ b :: rest'

variable {n m : Node} {d : Directory} {names p q : List String}

/-! ## Descending -/

theorem descend?_cons (d : Directory) (name : String) (rest : List String) :
    (directory d).descend? (name :: rest) = (d.child? name).bind fun n => n.descend? rest := rfl

theorem tidy_descend? (hn : n.Tidy) (h : n.descend? names = some m) : m.Tidy := by
  induction names generalizing n with
  | nil =>
    cases h
    exact hn
  | cons name rest ih =>
    cases n with
    | file c => cases h
    | directory d =>
      obtain ⟨x, hx, hrest⟩ := Option.bind_eq_some_iff.mp h
      exact ih (Directory.Tidy.child hn hx).2 hrest

/-! ## Levels -/

/-- **A level holds the nodes at its distance**, and no others. -/
theorem mem_level_iff (hn : n.Tidy) (k : Nat) :
    (names, m) ∈ n.level k ↔ names.length = k ∧ n.descend? names = some m := by
  induction k generalizing n names with
  | zero =>
    rw [level, List.mem_singleton, Prod.mk.injEq, List.length_eq_zero_iff]
    constructor
    · rintro ⟨rfl, rfl⟩
      exact ⟨rfl, rfl⟩
    · rintro ⟨rfl, h⟩
      cases h
      exact ⟨rfl, rfl⟩
  | succ k ih =>
    rw [level, List.mem_flatMap]
    cases n with
    | file c =>
      constructor
      · rintro ⟨e, he, -⟩
        cases he
      · rintro ⟨hlength, h⟩
        cases names with
        | nil => cases hlength
        | cons name rest => cases h
    | directory d =>
      obtain ⟨hnodup, hentries⟩ := (Directory.tidy_iff d).mp hn
      constructor
      · rintro ⟨⟨name, x⟩, he, hmem⟩
        obtain ⟨⟨rest, y⟩, hy, heq⟩ := List.mem_map.mp hmem
        cases heq
        obtain ⟨hlength, hrest⟩ := (ih (hentries _ he).2).mp hy
        refine ⟨congrArg (· + 1) hlength, ?_⟩
        rw [descend?_cons, (Directory.child?_eq_some_iff_mem hnodup).mpr he]
        exact hrest
      · rintro ⟨hlength, h⟩
        cases names with
        | nil => cases hlength
        | cons name rest =>
          obtain ⟨x, hx, hrest⟩ := Option.bind_eq_some_iff.mp h
          have hmem := Directory.mem_of_child? hx
          have hlevel := (ih (hentries _ hmem).2).mpr ⟨Nat.succ.inj hlength, hrest⟩
          exact ⟨(name, x), hmem, List.mem_map.mpr ⟨(rest, m), hlevel, rfl⟩⟩

theorem length_of_mem_level (hn : n.Tidy) {k : Nat} {x : List String × Node}
    (hx : x ∈ n.level k) : x.1.length = k :=
  ((mem_level_iff hn k).mp hx).1

/-! ## From left to right -/

theorem LeftOf.cons {name : String} (hx : d.child? name = some n) (h : n.LeftOf p q) :
    (directory d).LeftOf (name :: p) (name :: q) := by
  obtain ⟨way, s, a, b, rest, rest', hway, hab, rfl, rfl⟩ := h
  refine ⟨name :: way, s, a, b, rest, rest', ?_, hab, rfl, rfl⟩
  rw [descend?_cons, hx]
  exact hway

/-- A way does not stand to the left of itself. -/
theorem LeftOf.ne (hn : n.Tidy) (h : n.LeftOf p q) : p ≠ q := by
  rintro rfl
  obtain ⟨way, d, a, b, rest, rest', hway, hab, rfl, heq⟩ := h
  obtain ⟨hnodup, -⟩ := (Directory.tidy_iff d).mp (tidy_descend? hn hway)
  cases List.append_cancel_left heq
  simpa using hnodup.sublist hab

/-- **A level goes from left to right.** -/
theorem pairwise_level (hn : n.Tidy) (k : Nat) :
    (n.level k).Pairwise fun x y => n.LeftOf x.1 y.1 := by
  induction k generalizing n with
  | zero => exact List.pairwise_singleton _ _
  | succ k ih =>
    cases n with
    | file c => exact List.Pairwise.nil
    | directory d =>
      obtain ⟨hnodup, hentries⟩ := (Directory.tidy_iff d).mp hn
      refine List.pairwise_flatMap.mpr ⟨fun e he => ?_, ?_⟩
      · have hchild := (Directory.child?_eq_some_iff_mem hnodup).mpr he
        refine List.pairwise_map.mpr ((ih (hentries e he).2).imp fun h => ?_)
        exact h.cons hchild
      · refine List.pairwise_iff_forall_sublist.mpr fun {e e'} hee x hx y hy => ?_
        obtain ⟨x, -, rfl⟩ := List.mem_map.mp hx
        obtain ⟨y, -, rfl⟩ := List.mem_map.mp hy
        exact ⟨[], d, e.1, e'.1, x.1, y.1, rfl, hee.map Prod.fst, rfl, rfl⟩

theorem nodup_level (hn : n.Tidy) (k : Nat) : ((n.level k).map Prod.fst).Nodup :=
  List.pairwise_map.mpr ((pairwise_level hn k).imp fun h => h.ne hn)

/-! ## Level after level -/

/-- The nodes below a node, down to a depth. -/
def downTo (depth : Nat) (n : Node) : List (List String × Node) :=
  (List.range' 1 depth).flatMap fun k => n.level k

theorem mem_downTo_iff (hn : n.Tidy) (depth : Nat) :
    (names, m) ∈ n.downTo depth ↔
      names ≠ [] ∧ names.length ≤ depth ∧ n.descend? names = some m := by
  have hrange (k : Nat) : k ∈ List.range' 1 depth ↔ 1 ≤ k ∧ k ≤ depth := by
    rw [List.mem_range'_1]
    omega
  simp only [downTo, List.mem_flatMap, mem_level_iff hn, hrange, ← List.length_pos_iff]
  constructor
  · rintro ⟨k, ⟨hpos, hle⟩, rfl, h⟩
    exact ⟨hpos, hle, h⟩
  · rintro ⟨hpos, hle, h⟩
    exact ⟨_, ⟨hpos, hle⟩, rfl, h⟩

/-- What is further down comes later. -/
theorem pairwise_length_downTo (hn : n.Tidy) (depth : Nat) :
    (n.downTo depth).Pairwise fun x y => x.1.length ≤ y.1.length := by
  have hrange : (List.range' 1 depth).Pairwise (· < ·) := List.pairwise_lt_range'
  refine List.pairwise_flatMap.mpr ⟨fun k _ => ?_, ?_⟩
  · refine List.pairwise_iff_forall_sublist.mpr fun {x y} hxy => ?_
    have hx := length_of_mem_level hn (hxy.subset (List.mem_cons_self ..))
    have hy := length_of_mem_level hn
      (hxy.subset (List.mem_cons_of_mem _ (List.mem_singleton_self _)))
    omega
  · refine hrange.imp fun hlt x hx y hy => ?_
    rw [length_of_mem_level hn hx, length_of_mem_level hn hy]
    exact Nat.le_of_lt hlt

theorem nodup_downTo (hn : n.Tidy) (depth : Nat) : ((n.downTo depth).map Prod.fst).Nodup := by
  have hrange : (List.range' 1 depth).Pairwise (· < ·) := List.pairwise_lt_range'
  rw [downTo, List.map_flatMap]
  refine List.pairwise_flatMap.mpr ⟨fun k _ => nodup_level hn k, ?_⟩
  refine hrange.imp fun hlt names hnames names' hnames' => ?_
  obtain ⟨x, hx, rfl⟩ := List.mem_map.mp hnames
  obtain ⟨y, hy, rfl⟩ := List.mem_map.mp hnames'
  intro heq
  have hlength := congrArg List.length heq
  rw [length_of_mem_level hn hx, length_of_mem_level hn hy] at hlength
  omega

end Node

end DiskShell
