import DiskShell.Proofs.Node.Total
import DiskShell.Proofs.Snapshot.Items
import DiskShell.Request

/-!
Usage. Counting from a list of pending nodes finds the totals of the subtree (`ofNode_eq`), and a
snapshot with room for everything shows the same numbers (`usage_and_snapshot_agree`).
-/

namespace DiskShell

/-! ## Counting -/

namespace Usage

/-- Each pending node brings the totals of its subtree, in whatever order the nodes are counted. -/
theorem tally_eq (u : Usage) (pending : List Node) :
    u.tally pending =
      ⟨u.usedBytes + (pending.map fun n => n.total Node.bytes).sum,
        u.fileCount + (pending.map fun n => n.total fun m => m.isFile.toNat).sum,
        u.directoryCount + (pending.map fun n => n.total fun m => m.isDirectory.toNat).sum⟩ := by
  have hnodes (weight : Node → Nat) (d : Directory) :
      (d.nodes.map fun n => n.total weight).sum = Directory.total weight d := by
    rw [Directory.total_eq_sum, Directory.nodes, List.map_map]
    rfl
  induction u, pending using tally.induct with
  | case1 u => simp [tally]
  | case2 u c pending ih =>
    rw [tally, ih]
    simp only [countFile, List.map_cons, List.sum_cons, Node.total, Node.bytes, Node.isFile,
      Node.isDirectory, Bool.toNat_true, Bool.toNat_false, mk.injEq]
    omega
  | case3 u d pending ih =>
    rw [tally, ih]
    simp only [countDirectory, List.map_append, List.sum_append, hnodes, List.map_cons,
      List.sum_cons, Node.total, Node.bytes, Node.isFile, Node.isDirectory, Bool.toNat_true,
      Bool.toNat_false, mk.injEq]
    omega

/-- **What a subtree takes** are its totals, its root included. -/
theorem ofNode_eq (n : Node) :
    ofNode n = ⟨n.total Node.bytes, n.total fun m => m.isFile.toNat,
      n.total fun m => m.isDirectory.toNat⟩ := by
  simp [ofNode, tally_eq, none]

end Usage

/-! ## Snapshots with room for everything -/

namespace Snapshot

/-- Items keep the kinds and the bytes of the nodes that they are made of. -/
theorem counts_of_row (maxPreview : Nat) (path : List String → String) (row : Row) :
    let items := row.map fun x => SnapshotItem.ofNode maxPreview (path x.1) x.2
    items.countP (fun e => e.kind == .file) = (row.map fun x => x.2.isFile.toNat).sum ∧
      items.countP (fun e => e.kind == .directory) =
        (row.map fun x => x.2.isDirectory.toNat).sum ∧
      (items.filterMap SnapshotItem.size).sum = (row.map fun x => x.2.bytes).sum := by
  intro items
  induction row with
  | nil => exact ⟨rfl, rfl, rfl⟩
  | cons x rest ih =>
    obtain ⟨hfiles, hdirectories, hbytes⟩ := ih
    obtain ⟨names, n⟩ := x
    simp only [items, List.map_cons, List.sum_cons, ← hfiles, ← hdirectories, ← hbytes]
    cases n with
    | file c => simp [SnapshotItem.ofNode, Node.isFile, Node.isDirectory, Node.bytes, Nat.add_comm]
    | directory d =>
      simp [SnapshotItem.ofNode, Node.isFile, Node.isDirectory, Node.bytes, Nat.add_comm]

variable {t : Tree} {names : List String} {limits : Limits} {s : Directory}

/-- Where there is room for everything below a directory, a snapshot lists it all. -/
theorem ofTree_of_room (h : t.node? names = some (.directory s))
    (hlevels : (Node.directory s).levels ≤ limits.depthBound)
    (hroom : (Node.directory s).count - 1 ≤ limits.maxItems) :
    ofTree t names limits = ((Node.directory s).downTo limits.depthBound).map fun x =>
      SnapshotItem.ofNode limits.maxPreview (Path.render (names ++ x.1)) x.2 := by
  rw [ofTree_of_directory h]
  refine List.take_of_length_le ?_
  rw [List.length_map, Node.length_downTo hlevels]
  exact hroom

end Snapshot

namespace Disk

variable {σ : Type}

theorem usage?_eq (d : Disk σ) (path cwd : String) :
    d.usage? path cwd = (d.tree.node? (Path.resolve path cwd)).map Usage.ofNode := rfl

/-- **Usage and snapshots agree**, on every disk. There is a usage exactly where something is, and
it consists of the totals of the subtree. A snapshot of a directory that goes down to its lowest
node and has room for every node below it lists as many files, one directory less, and as many
bytes. -/
theorem usage_and_snapshot_agree (d : Disk σ) (path cwd : String) :
    let p := Path.resolve path cwd
    (d.usage? path cwd = none ↔ d.tree.node? p = none) ∧
      (∀ n, d.tree.node? p = some n → ∃ u, d.usage? path cwd = some u ∧
        u.usedBytes = n.total Node.bytes ∧
        u.fileCount = n.total (fun m => m.isFile.toNat) ∧
        u.directoryCount = n.total (fun m => m.isDirectory.toNat)) ∧
      ∀ s u root limits, d.tree.node? p = some (.directory s) → d.usage? path cwd = some u →
        Path.resolve root "/" = p → (Node.directory s).levels ≤ min limits.maxDepth 10 →
        (Node.directory s).count - 1 ≤ limits.maxItems →
        let items := d.snapshot root limits
        items.countP (fun e => e.kind == .file) = u.fileCount ∧
          items.countP (fun e => e.kind == .directory) + 1 = u.directoryCount ∧
          (items.filterMap SnapshotItem.size).sum = u.usedBytes := by
  intro p
  refine ⟨by rw [usage?_eq, Option.map_eq_none_iff], fun n hn => ?_, ?snapshot⟩
  · refine ⟨Usage.ofNode n, by rw [usage?_eq, hn, Option.map_some], ?_⟩
    rw [Usage.ofNode_eq]
    exact ⟨rfl, rfl, rfl⟩
  case snapshot =>
    intro s u root limits hs hu hroot hlevels hroom items
    have hitems : items = _ :=
      (congrArg (Snapshot.ofTree d.tree · limits) hroot).trans
        (Snapshot.ofTree_of_room hs hlevels hroom)
    have htotal (weight : Node → Nat) :
        (Node.directory s).total weight = weight (.directory s) +
          (((Node.directory s).downTo limits.depthBound).map fun x => weight x.2).sum :=
      Node.total_eq_sum_downTo weight hlevels
    rw [usage?_eq, hs, Option.map_some, Option.some.injEq, Usage.ofNode_eq] at hu
    obtain ⟨hfiles, hdirectories, hbytes⟩ := Snapshot.counts_of_row limits.maxPreview
      (fun names => Path.render (p ++ names)) ((Node.directory s).downTo limits.depthBound)
    rw [hitems, hfiles, hdirectories, hbytes, ← hu]
    simp [htotal, Node.bytes, Node.isFile, Node.isDirectory, Nat.add_comm]

/-- Two files and three directories below the root, and room for just these five. -/
theorem five_nodes_counted :
    let requests : List Request := [.change (.makeDirectory "/a/b" "/"),
      .change (.write "/a/f" "xyz" "/"), .change (.write "/g" "" "/")]
    let d := ((load Memory.empty DiskConfig.default).run requests).1
    let limits : Limits := ⟨5, 0, 2⟩
    let items := d.snapshot "/" limits
    d.tree.node? (Path.resolve ".." "/a") = some (.directory d.tree) ∧
      (∃ u, d.usage? ".." "/a" = some u ∧
        u.usedBytes = (Node.directory d.tree).total Node.bytes) ∧
      d.usage? ".." "/a" = some ⟨3, 2, 4⟩ ∧ (Node.directory d.tree).levels = 2 ∧
      (Node.directory d.tree).count = 6 ∧ items.countP (fun e => e.kind == .file) = 2 ∧
      items.countP (fun e => e.kind == .directory) + 1 = 4 ∧
      (items.filterMap SnapshotItem.size).sum = 3 ∧ d.usage? "/a/c" "/" = none := by
  intro requests d limits items
  have htree : d.tree = [("sandbox", .directory []),
    ("a", .directory [("b", .directory []), ("f", .file "xyz")]), ("g", .file "")] := rfl
  obtain ⟨-, htotals, hsnapshot⟩ := usage_and_snapshot_agree d ".." "/a"
  obtain ⟨hmissing, -, -⟩ := usage_and_snapshot_agree d "/a/c" "/"
  have hroot : d.tree.node? (Path.resolve ".." "/a") = some (.directory d.tree) := rfl
  have husage : d.usage? ".." "/a" = some ⟨3, 2, 4⟩ := by
    rw [usage?_eq, hroot, Option.map_some, Usage.ofNode_eq, htree]
    rfl
  obtain ⟨u, hu, hbytes, -⟩ := htotals _ hroot
  have hlevels : (Node.directory d.tree).levels = 2 := rfl
  have hcount : (Node.directory d.tree).count = 6 := rfl
  have hroom : (Node.directory d.tree).count - 1 ≤ limits.maxItems :=
    Nat.sub_le_of_le_add (Nat.le_of_eq hcount)
  obtain ⟨hfiles, hdirectories, hsizes⟩ := hsnapshot d.tree _ "/" limits hroot husage (by decide)
    (Nat.le_of_eq hlevels) hroom
  exact ⟨hroot, ⟨u, hu, hbytes⟩, husage, hlevels, hcount, hfiles, hdirectories, hsizes,
    hmissing.mpr rfl⟩

end Disk

end DiskShell
