import DiskShell.Proofs.Node.Level
import DiskShell.Proofs.Path
import DiskShell.Snapshot

/-!
A snapshot level by level. The walk takes the pending directories in turn and puts their
subdirectories behind all that is pending, so it lists one level after the other, and stops where
there is no room (`walk_pendingOf`).
-/

namespace DiskShell

namespace Path

/-- A name is added to a path after a slash, except after the root, which is one. -/
theorem render_append (names : List String) (name : String) :
    render (names ++ [name]) = Snapshot.pathStem names ++ name := by
  cases names with
  | nil => simp [render, Snapshot.pathStem]
  | cons first rest => simp [render, Snapshot.pathStem, ← String.append_assoc]

theorem pathStem_append (names : List String) (name : String) :
    Snapshot.pathStem (names ++ [name]) = render (names ++ [name]) ++ "/" := by
  simp [Snapshot.pathStem]

end Path

namespace Snapshot

/-! ## Rows -/

/-- Nodes in order, each with the names that lead to it from the root of the tree. -/
abbrev Row := List (List String × Node)

/-- The nodes at a distance below those of a row. -/
def rowBelow (k : Nat) (row : Row) : Row :=
  row.flatMap fun x => (x.2.level k).map fun y => (x.1 ++ y.1, y.2)

theorem rowBelow_one (row : Row) :
    rowBelow 1 row = row.flatMap fun x => x.2.entries.map fun e => (x.1 ++ [e.1], e.2) := by
  simp [rowBelow, Node.level, Function.comp_def, ← List.map_eq_flatMap]

/-- What is further down is below the next row. -/
theorem rowBelow_succ (k : Nat) (row : Row) :
    rowBelow (k + 1) row = rowBelow k (rowBelow 1 row) := by
  rw [rowBelow_one]
  simp [rowBelow, Node.level, List.flatMap_assoc, List.map_flatMap, List.flatMap_map,
    Function.comp_def]

/-- The directories of a row, to be listed at a depth. -/
def pendingOf (depth : Nat) (row : Row) : List Pending :=
  row.filterMap fun x => x.2.directory?.map fun d => ⟨pathStem x.1, d, depth⟩

/-- The item of a node, under its path. -/
def itemOf (maxPreview : Nat) (x : List String × Node) : SnapshotItem :=
  .ofNode maxPreview (Path.render x.1) x.2

theorem depth_of_mem_pendingOf {depth : Nat} {row : Row} {p : Pending}
    (hp : p ∈ pendingOf depth row) : p.depth = depth := by
  obtain ⟨x, -, hx⟩ := List.mem_filterMap.mp hp
  obtain ⟨d, -, rfl⟩ := Option.map_eq_some_iff.mp hx
  rfl

theorem entries_pendingOf (maxPreview depth : Nat) (row : Row) :
    (pendingOf depth row).flatMap (Pending.entries maxPreview) =
      (rowBelow 1 row).map (itemOf maxPreview) := by
  rw [rowBelow_one]
  induction row with
  | nil => rfl
  | cons x rest ih =>
    obtain ⟨names, n⟩ := x
    cases n with
    | file c => exact ih
    | directory d =>
      have hcons : pendingOf depth ((names, .directory d) :: rest) =
          ⟨pathStem names, d, depth⟩ :: pendingOf depth rest := rfl
      rw [hcons, List.flatMap_cons, List.flatMap_cons, List.map_append, ih]
      simp [Pending.entries, Node.entries, itemOf, Path.render_append]

theorem below_pendingOf (depth : Nat) (row : Row) :
    (pendingOf depth row).flatMap Pending.below = pendingOf (depth + 1) (rowBelow 1 row) := by
  rw [rowBelow_one]
  induction row with
  | nil => rfl
  | cons x rest ih =>
    obtain ⟨names, n⟩ := x
    cases n with
    | file c => exact ih
    | directory d =>
      have hcons : pendingOf depth ((names, .directory d) :: rest) =
          ⟨pathStem names, d, depth⟩ :: pendingOf depth rest := rfl
      have hbelow : Pending.below ⟨pathStem names, d, depth⟩ =
          pendingOf (depth + 1) (d.map fun e => (names ++ [e.1], e.2)) := by
        rw [Pending.below, pendingOf, List.filterMap_map]
        congr 1
        funext e
        rw [Function.comp_apply, Path.pathStem_append, Path.render_append]
      rw [hcons, List.flatMap_cons, ih, hbelow, List.flatMap_cons, pendingOf, pendingOf, pendingOf,
        List.filterMap_append]
      rfl

/-! ## The walk -/

theorem walk_no_room (maxPreview maxDepth : Nat) (queue : List Pending) :
    walk maxPreview maxDepth 0 queue = [] := by
  generalize hroom : 0 = room
  induction room, queue using walk.induct maxDepth with
  | case1 room => rw [walk]
  | case2 room p queue hdeep ih =>
    rw [walk, if_pos hdeep]
    exact ih hroom
  | case3 room p queue hdeep hfull =>
    rw [walk, if_neg hdeep, if_pos hfull, ← hroom, List.take_zero]
  | case4 room p queue hdeep hfull ih =>
    have hempty : p.directory = [] := List.eq_nil_of_length_eq_zero (by omega)
    rw [walk, if_neg hdeep, if_neg hfull, ih (by omega), Pending.entries, hempty]
    rfl

/-- Directories that are too far down are passed over. -/
theorem walk_too_deep {maxPreview maxDepth room : Nat} {queue : List Pending}
    (h : ∀ p ∈ queue, maxDepth < p.depth) : walk maxPreview maxDepth room queue = [] := by
  induction queue with
  | nil => rw [walk]
  | cons p rest ih =>
    rw [walk, if_pos (h p (List.mem_cons_self ..))]
    exact ih fun q hq => h q (List.mem_cons_of_mem _ hq)

/-- The directories in front are listed as far as there is room; what they leave behind comes after
all that is pending already. -/
theorem walk_append {maxPreview maxDepth room : Nat} {front back : List Pending}
    (h : ∀ p ∈ front, p.depth ≤ maxDepth) :
    walk maxPreview maxDepth room (front ++ back) =
      (front.flatMap (Pending.entries maxPreview)).take room ++
        walk maxPreview maxDepth (room - (front.flatMap (Pending.entries maxPreview)).length)
          (back ++ front.flatMap Pending.below) := by
  induction front generalizing room back with
  | nil => simp
  | cons p rest ih =>
    have hdeep : ¬ maxDepth < p.depth := Nat.not_lt.mpr (h p (List.mem_cons_self ..))
    have hlength : (p.entries maxPreview).length = p.directory.length := List.length_map ..
    rw [List.cons_append, walk, if_neg hdeep, List.flatMap_cons, List.length_append, hlength,
      List.take_append, hlength, ← Nat.sub_sub]
    by_cases hfull : room < p.directory.length
    · have hroom : room - p.directory.length = 0 := by omega
      rw [if_pos hfull, hroom, Nat.zero_sub, walk_no_room, List.take_zero, List.append_nil,
        List.append_nil]
    · have hall : (p.entries maxPreview).take room = p.entries maxPreview :=
        List.take_of_length_le (by omega)
      have hrest := @ih (room - p.directory.length) (back ++ p.below)
        fun q hq => h q (List.mem_cons_of_mem _ hq)
      rw [if_neg hfull, List.append_assoc, hrest, hall, List.flatMap_cons, List.append_assoc,
        List.append_assoc]

/-- **The walk lists level after level**, down to the greatest depth and as far as there is room. -/
theorem walk_pendingOf (maxPreview maxDepth room depth : Nat) (row : Row) :
    walk maxPreview maxDepth room (pendingOf depth row) =
      (((List.range' 1 (maxDepth + 1 - depth)).flatMap fun k => rowBelow k row).map
        (itemOf maxPreview)).take room := by
  -- on the number of levels that are still to be listed
  generalize hlevels : maxDepth + 1 - depth = levels
  induction levels generalizing room depth row with
  | zero =>
    rw [walk_too_deep fun p hp => by rw [depth_of_mem_pendingOf hp]; omega]
    simp
  | succ levels ih =>
    have hdepth : ∀ p ∈ pendingOf depth row, p.depth ≤ maxDepth := by
      intro p hp
      rw [depth_of_mem_pendingOf hp]
      omega
    have hwalk := @walk_append maxPreview maxDepth room (pendingOf depth row) [] hdepth
    have hshift : (List.range' 2 levels).flatMap (fun k => rowBelow k row) =
        (List.range' 1 levels).flatMap fun k => rowBelow k (rowBelow 1 row) := by
      have hbelow : (fun k => rowBelow (1 + k) row) = fun k => rowBelow k (rowBelow 1 row) := by
        funext k
        rw [Nat.add_comm, rowBelow_succ]
      rw [← List.map_add_range' 1, List.flatMap_map, hbelow]
    rw [List.append_nil, List.nil_append, entries_pendingOf, below_pendingOf,
      ih _ (depth + 1) _ (by omega)] at hwalk
    rw [hwalk, List.range'_succ, List.flatMap_cons, List.map_append, List.take_append, hshift]

end Snapshot

end DiskShell
