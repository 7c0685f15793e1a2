import DiskShell.Node

/-!
The height of a subtree: the number of steps from its root down to the lowest node. The directories
that are still to be visited are kept in a list with their distance from the root.
-/

namespace DiskShell

/-- The subdirectories with their distance from the root. -/
def Directory.below (d : Directory) (depth : Nat) : List (Directory × Nat) :=
  d.subdirectories.map fun s => (s, depth + 1)

theorem Directory.map_fst_below (d : Directory) (depth : Nat) :
    (d.below depth).map Prod.fst = d.subdirectories := by
  simp [below, Function.comp_def]

/-- Visits the pending directories; `best` is the greatest distance seen so far. -/
def heightFrom (best : Nat) : List (Directory × Nat) → Nat
  | [] => best
  | (d, depth) :: pending =>
    heightFrom (if d.isEmpty then best else max best (depth + 1)) (d.below depth ++ pending)
termination_by pending => Directory.countAll (pending.map Prod.fst)
decreasing_by
  have h := d.countAll_subdirectories_le
  simp only [List.map_append, d.map_fst_below, Directory.countAll_append, List.map_cons,
    Directory.countAll]
  omega

def Node.height : Node → Nat
  | file _ => 0
  | directory d => heightFrom 0 [(d, 0)]

end DiskShell
