import Mathlib
import DiskShell.Proofs.Node.Level

/-!
Totals over the nodes of a subtree. A total is defined by recursion on the node (`total_eq`); the
levels of the node, summed up one after the other, come to the same (`total_eq_sum_downTo`).
-/

namespace DiskShell

mutual

/-- A weight summed up over a node and all nodes below it. -/
def Node.total (weight : Node → Nat) : Node → Nat
  | .file c => weight (.file c)
  | .directory d => weight (.directory d) + Directory.total weight d

def Directory.total (weight : Node → Nat) : List (String × Node) → Nat
  | [] => 0
  | (_, n) :: rest => n.total weight + Directory.total weight rest

end

theorem Directory.total_eq_sum (weight : Node → Nat) (d : Directory) :
    total weight d = (d.map fun e => e.2.total weight).sum := by
  induction d with
  | nil => rfl
  | cons e rest ih => rw [total, ih, List.map_cons, List.sum_cons]

namespace Node

/-- The bytes of a file. A directory has none of its own. -/
def bytes : Node → Nat
  | file c => c.utf8ByteSize
  | directory _ => 0

theorem total_eq (weight : Node → Nat) (n : Node) :
    n.total weight = weight n + (n.entries.map fun e => e.2.total weight).sum := by
  cases n with
  | file c => rfl
  | directory d => rw [total, Directory.total_eq_sum, entries]

mutual

/-- The number of nodes is the total of the weight one. -/
theorem count_eq_total : (n : Node) → n.count = n.total fun _ => 1
  | .file _ => rfl
  | .directory d => by rw [count, total, countEntries_eq_total d]

theorem countEntries_eq_total :
    (d : List (String × Node)) → countEntries d = Directory.total (fun _ => 1) d
  | [] => rfl
  | (_, n) :: rest => by
    rw [countEntries, Directory.total, count_eq_total n, countEntries_eq_total rest]

end

/-! ## Level by level -/

/-- The next level of a node is made up of the levels of its entries. -/
theorem sum_level_succ (weight : Node → Nat) (k : Nat) (n : Node) :
    ((n.level (k + 1)).map fun x => weight x.2).sum =
      (n.entries.map fun e => ((e.2.level k).map fun x => weight x.2).sum).sum := by
  rw [level, List.map_flatMap, List.flatMap_def, List.sum_flatten, List.map_map]
  simp only [List.map_map, Function.comp_def]

/-- One more level takes in each entry and what is below it. -/
theorem sum_downTo_succ (weight : Node → Nat) (depth : Nat) (n : Node) :
    ((n.downTo (depth + 1)).map fun x => weight x.2).sum =
      (n.entries.map fun e =>
        weight e.2 + ((e.2.downTo depth).map fun x => weight x.2).sum).sum := by
  have hdeeper (depth : Nat) (m : Node) : ((m.downTo (depth + 1)).map fun x => weight x.2).sum =
      ((m.downTo depth).map fun x => weight x.2).sum +
        ((m.level (depth + 1)).map fun x => weight x.2).sum := by
    simp [downTo, List.range'_concat, Nat.add_comm]
  induction depth with
  | zero =>
    rw [hdeeper, sum_level_succ]
    simp [downTo, level]
  | succ depth ih =>
    -- the lowest level of a node is made up of the lowest levels of its entries
    rw [hdeeper, ih, sum_level_succ, ← List.sum_map_add]
    simp only [hdeeper depth, Nat.add_assoc]

/-- **Level by level nothing is left out or counted twice**, once the depth reaches the lowest
node. -/
theorem total_eq_sum_downTo (weight : Node → Nat) {depth : Nat} {n : Node}
    (h : n.levels ≤ depth) :
    n.total weight = weight n + ((n.downTo depth).map fun x => weight x.2).sum := by
  induction depth generalizing n with
  | zero =>
    -- without a level below it the node is a file or an empty directory
    cases n with
    | file c => rfl
    | directory d =>
      cases d with
      | nil => rfl
      | cons e rest =>
        have hle := Directory.levels_of_mem (List.mem_cons_self (a := e) (l := rest))
        rw [levels] at h
        omega
  | succ depth ih =>
    have hentries : ∀ e ∈ n.entries, e.2.total weight =
        weight e.2 + ((e.2.downTo depth).map fun x => weight x.2).sum := by
      intro e he
      cases n with
      | file c => cases he
      | directory d =>
        have hle : e.2.levels + 1 ≤ Directory.levels d := Directory.levels_of_mem he
        rw [levels] at h
        exact ih (by omega)
    rw [total_eq, sum_downTo_succ, List.map_congr_left hentries]

/-- All nodes below a node, counted level by level. -/
theorem length_downTo {depth : Nat} {n : Node} (h : n.levels ≤ depth) :
    (n.downTo depth).length = n.count - 1 := by
  rw [count_eq_total, total_eq_sum_downTo _ h]
  simp

end Node

end DiskShell
