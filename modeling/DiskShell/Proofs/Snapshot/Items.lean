import DiskShell.Proofs.Snapshot.Levels

/-!
What the items of a snapshot stand for. Each is made of a node of the tree and the path of that node
(`describes_of_mem_ofTree`), because the nodes of a level come with the names that lead to them
(`ofTree_of_directory`).
-/

namespace DiskShell

theorem SnapshotItem.path_ofNode (maxPreview : Nat) (path : String) (n : Node) :
    (ofNode maxPreview path n).path = path := by
  cases n <;> rfl

namespace Snapshot

variable {t : Tree} {names : List String} {limits : Limits}

/-- The nodes below a directory of the tree are those that longer paths lead to. -/
theorem mem_downTo_iff_node? (ht : Directory.Tidy t) {d : Directory}
    (h : t.node? names = some (.directory d)) {rest : List String} {n : Node} (depth : Nat) :
    (rest, n) ∈ (Node.directory d).downTo depth ↔
      rest ≠ [] ∧ rest.length ≤ depth ∧ t.node? (names ++ rest) = some n := by
  have hd : Directory.Tidy d := Tree.tidy_directory? ht (Tree.directory?_of_node? h)
  rw [Node.mem_downTo_iff hd, Tree.node?_append_eq_bind, h, Option.bind_some]

/-- **A snapshot of a directory** lists what is below it, level after level. -/
theorem ofTree_of_directory {d : Directory} (h : t.node? names = some (.directory d)) :
    ofTree t names limits = (((Node.directory d).downTo limits.depthBound).map fun x =>
      SnapshotItem.ofNode limits.maxPreview (Path.render (names ++ x.1)) x.2).take
        limits.maxItems := by
  unfold ofTree
  split
  · next hzero => rw [hzero, List.take_zero]
  · have hwalk := walk_pendingOf limits.maxPreview limits.depthBound limits.maxItems 1
      [(names, .directory d)]
    simp only [h]
    rw [Nat.add_sub_cancel] at hwalk
    refine hwalk.trans ?_
    simp [Node.downTo, rowBelow, itemOf, List.map_flatMap, Function.comp_def]

/-- An item that has been made of a node at its own path. -/
def Describes (t : Tree) (maxPreview : Nat) (e : SnapshotItem) : Prop :=
  ∃ names n, t.node? names = some n ∧ e = .ofNode maxPreview (Path.render names) n

/-- **Every item stands for a node**, under the path of the node. -/
theorem describes_of_mem_ofTree (ht : Directory.Tidy t) {e : SnapshotItem}
    (he : e ∈ ofTree t names limits) : Describes t limits.maxPreview e := by
  cases hnode : t.node? names with
  | none =>
    simp [ofTree, hnode] at he
  | some n =>
    cases n with
    | file c =>
      rw [ofTree, hnode] at he
      split at he
      · cases he
      · rw [List.mem_singleton.mp he]
        exact ⟨names, .file c, hnode, rfl⟩
    | directory d =>
      rw [ofTree_of_directory hnode] at he
      obtain ⟨⟨rest, n⟩, hmem, rfl⟩ := List.mem_map.mp (List.mem_of_mem_take he)
      obtain ⟨-, -, hn⟩ := (mem_downTo_iff_node? ht hnode limits.depthBound).mp hmem
      exact ⟨names ++ rest, n, hn, rfl⟩

end Snapshot

end DiskShell
