import DiskShell.Proofs.Disk.Address
import DiskShell.Proofs.Shell.Changes
import DiskShell.Proofs.Snapshot.Items

/-!
What a snapshot lists, and in which order: the nodes below a directory, level after level and each
level from left to right, up to a depth and a number of items (`snapshot_lists_levels`). An item
tells the kind of its node and, of a file, the size and the beginning of the content.
-/

namespace DiskShell

namespace SnapshotItem

/-- The longest beginning of a text with at most so many characters. -/
structure IsBeginning (most : Nat) (s text : String) : Prop where
  isPrefix : s.toList <+: text.toList
  length_le : s.length ≤ most
  longest : ∀ r : String, r.toList <+: text.toList → r.length ≤ most → r.toList <+: s.toList

/-- What an item tells of a node. A preview with nothing in it is left out. -/
structure Tells (most : Nat) (e : SnapshotItem) (n : Node) : Prop where
  kind_eq : e.kind = n.kind
  size_eq : e.size = n.content?.map String.utf8ByteSize
  preview_directory : n.content? = none → e.preview = none
  preview_file : ∀ text, n.content? = some text →
    ∃ s, IsBeginning most s text ∧ e.preview = if s = "" then none else some s

theorem isBeginning_take (most : Nat) (text : String) :
    IsBeginning most (String.ofList (text.toList.take most)) text := by
  refine ⟨?_, ?_, fun r hr hlength => ?_⟩
  · rw [String.toList_ofList]
    exact List.take_prefix most _
  · rw [String.length_ofList]
    exact List.length_take_le most _
  · rw [String.toList_ofList]
    exact List.prefix_take_iff.mpr ⟨hr, hlength⟩

theorem previewOf_eq (most : Nat) (text : String) :
    previewOf most text = if String.ofList (text.toList.take most) = "" then none
      else some (String.ofList (text.toList.take most)) := by
  unfold previewOf
  cases text.toList.take most with
  | nil => rfl
  | cons c rest => simp

theorem tells_ofNode (most : Nat) (path : String) (n : Node) :
    (ofNode most path n).Tells most n := by
  cases n with
  | file text =>
    refine ⟨rfl, rfl, nofun, fun content h => ?_⟩
    obtain rfl : text = content := Option.some.inj h
    exact ⟨_, isBeginning_take most text, previewOf_eq most text⟩
  | directory d => exact ⟨rfl, rfl, fun _ => rfl, nofun⟩

end SnapshotItem

namespace Snapshot

variable {t : Tree} {names : List String} {limits : Limits}

/-! ## Items in order -/

/-- The paths of a snapshot of a directory, with their names. -/
theorem paths_ofTree_of_directory {d : Directory} (h : t.node? names = some (.directory d)) :
    (ofTree t names limits).map SnapshotItem.path =
      (((Node.directory d).downTo limits.depthBound).take limits.maxItems).map
        fun x => Path.render (names ++ x.1) := by
  rw [ofTree_of_directory h, ← List.map_take, List.map_map]
  simp only [Function.comp_def, SnapshotItem.path_ofNode]

theorem ofTree_of_none (h : t.node? names = none) : ofTree t names limits = [] := by
  simp [ofTree, h]

theorem ofTree_of_no_room (h : limits.maxItems = 0) : ofTree t names limits = [] := by
  rw [ofTree, if_pos h]

theorem ofTree_of_file {content : String} (h : t.node? names = some (.file content))
    (hroom : limits.maxItems ≠ 0) :
    ofTree t names limits =
      [.ofNode limits.maxPreview (Path.render names) (.file content)] := by
  rw [ofTree, if_neg hroom, h]

/-- **No node is listed twice.** -/
theorem nodup_paths (ht : Directory.Tidy t) :
    ((ofTree t names limits).map SnapshotItem.path).Nodup := by
  cases hnode : t.node? names with
  | none =>
    rw [ofTree_of_none hnode]
    exact List.nodup_nil
  | some n =>
    cases n with
    | file c =>
      by_cases hroom : limits.maxItems = 0
      · rw [ofTree_of_no_room hroom]
        exact List.nodup_nil
      · rw [ofTree_of_file hnode hroom]
        exact List.pairwise_singleton _ _
    | directory d =>
      have hd : (Node.directory d).Tidy := Tree.tidy_directory? ht (Tree.directory?_of_node? hnode)
      have hnodes {x : List String × Node}
          (hx : x ∈ ((Node.directory d).downTo limits.depthBound).take limits.maxItems) :
          ∀ name ∈ names ++ x.1, Path.IsName name :=
        Tree.isName_of_node? ht
          ((mem_downTo_iff_node? ht hnode limits.depthBound).mp (List.mem_of_mem_take hx)).2.2
      have hnodup := List.pairwise_map.mp (Node.nodup_downTo hd limits.depthBound)
      rw [paths_ofTree_of_directory hnode]
      refine List.pairwise_map.mpr (hnodup.take.imp_of_mem fun {x y} hx hy hne heq => hne ?_)
      exact List.append_cancel_left (Path.eq_of_render_eq (hnodes hx) (hnodes hy) heq)

/-- **What is left out is at least as far down as what is listed.** -/
theorem length_le_of_left_out (ht : Directory.Tidy t) {rest : List String} (hne : rest ≠ [])
    (hdepth : rest.length ≤ limits.depthBound) (hnode : t.node? (names ++ rest) ≠ none)
    (hout : Path.render (names ++ rest) ∉ (ofTree t names limits).map SnapshotItem.path)
    {e : SnapshotItem} (he : e ∈ ofTree t names limits) :
    (Path.resolve e.path "/").length ≤ (names ++ rest).length := by
  obtain ⟨m, hm⟩ := Option.ne_none_iff_exists'.mp hnode
  cases hroot : t.node? names with
  | none => exact absurd (Tree.node?_append_of_none hroot rest) hnode
  | some n =>
    cases n with
    | file c => exact absurd (Tree.node?_append_of_file hroot hne) hnode
    | directory d =>
      have hd : (Node.directory d).Tidy := Tree.tidy_directory? ht (Tree.directory?_of_node? hroot)
      have hall := (mem_downTo_iff_node? ht hroot limits.depthBound).mpr ⟨hne, hdepth, hm⟩
      have hlengths := Node.pairwise_length_downTo hd limits.depthBound
      rw [paths_ofTree_of_directory hroot] at hout
      rw [ofTree_of_directory hroot, ← List.map_take] at he
      obtain ⟨x, hx, rfl⟩ := List.mem_map.mp he
      -- the omitted node stands behind the listed ones
      rw [← List.take_append_drop limits.maxItems (Node.downTo _ _)] at hall hlengths
      have hdrop := (List.mem_append.mp hall).resolve_left fun h =>
        hout (List.mem_map_of_mem (f := fun x => Path.render (names ++ x.1)) h)
      have hle : x.1.length ≤ rest.length :=
        (List.pairwise_append.mp hlengths).2.2 x hx (rest, m) hdrop
      have hnames := Tree.isName_of_node? ht
        ((mem_downTo_iff_node? ht hroot limits.depthBound).mp (List.mem_of_mem_take hx)).2.2
      rw [SnapshotItem.path_ofNode, Path.resolve_render hnames, List.length_append,
        List.length_append]
      omega

/-- **With more room more is listed behind.** -/
theorem ofTree_prefix {more : Nat} (h : limits.maxItems ≤ more) :
    ofTree t names limits <+: ofTree t names { limits with maxItems := more } := by
  by_cases hzero : limits.maxItems = 0
  · rw [ofTree_of_no_room hzero]
    exact List.nil_prefix
  · cases hnode : t.node? names with
    | none =>
      rw [ofTree_of_none hnode]
      exact List.nil_prefix
    | some n =>
      cases n with
      | file c =>
        have hmore : more ≠ 0 := by omega
        have hlisted : ofTree t names { limits with maxItems := more } = ofTree t names limits := by
          rw [ofTree_of_file hnode hzero, ofTree_of_file hnode hmore]
        exact hlisted ▸ List.prefix_rfl
      | directory d =>
        rw [ofTree_of_directory hnode, ofTree_of_directory hnode]
        exact List.take_prefix_take_left h

/-- Each level of a directory of the tree: all nodes that as many names lead to, from left to
right. -/
theorem level_of_directory (ht : Directory.Tidy t) {d : Directory}
    (h : t.node? names = some (.directory d)) (k : Nat) :
    (∀ rest n, (rest, n) ∈ (Node.directory d).level k ↔
        rest.length = k ∧ t.node? (names ++ rest) = some n) ∧
      ((Node.directory d).level k).Pairwise fun x y => (Node.directory d).LeftOf x.1 y.1 := by
  have hd : (Node.directory d).Tidy := Tree.tidy_directory? ht (Tree.directory?_of_node? h)
  refine ⟨fun rest n => ?_, Node.pairwise_level hd k⟩
  rw [Node.mem_level_iff hd, Tree.node?_append_eq_bind, h, Option.bind_some]

/-! ## Snapshots of a disk -/

open Shell in
/-- **A snapshot lists level after level**, at every point of every run. Of a directory it lists the
first so many nodes below it, down to the depth that is asked for or to ten: those one name further
down, then those two names further down, each level from left to right. A file is listed by itself.
Each item tells of a node under the path of the node, which leads there from everywhere; none is
listed twice, none before one that is further up, and with more room more is listed behind. -/
theorem snapshot_lists_levels {σ : Type} [Store σ] (store : σ) (config : DiskConfig)
    (inputs : List Input) (path : String) (limits : Limits) :
    let d := (respondAll (Disk.load store config) inputs).1
    let t := d.tree
    let p := Path.resolve path "/"
    let items := d.snapshot path limits
    (t.node? p = none ∨ limits.maxItems = 0 → items = []) ∧
      (∀ content, t.node? p = some (.file content) → limits.maxItems ≠ 0 →
        items = [.ofNode limits.maxPreview (Path.render p) (.file content)]) ∧
      (∀ s, t.node? p = some (.directory s) →
        items = (((List.range' 1 (min limits.maxDepth 10)).flatMap fun k =>
            (Node.directory s).level k).map fun x =>
              SnapshotItem.ofNode limits.maxPreview (Path.render (p ++ x.1)) x.2).take
                limits.maxItems ∧
          ∀ k, (∀ names n, (names, n) ∈ (Node.directory s).level k ↔
              names.length = k ∧ t.node? (p ++ names) = some n) ∧
            ((Node.directory s).level k).Pairwise fun x y =>
              (Node.directory s).LeftOf x.1 y.1) ∧
      (∀ e ∈ items, ∃ names n, e.path = Path.render names ∧ e.Tells limits.maxPreview n ∧
        ∀ cwd, Path.resolve e.path cwd = names ∧ d.node? e.path cwd = some n) ∧
      (items.map SnapshotItem.path).Nodup ∧
      (∀ names, names ≠ [] → names.length ≤ min limits.maxDepth 10 →
        t.node? (p ++ names) ≠ none →
        Path.render (p ++ names) ∉ items.map SnapshotItem.path →
          ∀ e ∈ items, (Path.resolve e.path "/").length ≤ (p ++ names).length) ∧
      ∀ more, limits.maxItems ≤ more →
        items <+: d.snapshot path { limits with maxItems := more } := by
  intro d t p items
  have hd : d.tree.WellFormed := wellFormed_respondAll store config inputs
  refine ⟨fun h => h.elim ofTree_of_none ofTree_of_no_room, fun content => ofTree_of_file,
    fun s hs => ⟨ofTree_of_directory hs, level_of_directory hd.tidy hs⟩, ?items,
    nodup_paths hd.tidy, fun names hne hdepth hnode hout e he =>
      length_le_of_left_out hd.tidy hne hdepth hnode hout he, fun more => ofTree_prefix⟩
  case items =>
    intro e he
    obtain ⟨names, n, hn, rfl⟩ := describes_of_mem_ofTree hd.tidy he
    rw [SnapshotItem.path_ofNode]
    exact ⟨names, n, rfl, SnapshotItem.tells_ofNode _ _ n, Disk.node?_render hd hn⟩

/-- Four of five nodes are listed: those at the root, then one of the two below them. -/
theorem four_of_five_listed :
    let inputs : List Shell.Input := [.request (.change (.makeDirectory "/a/b" "/")),
      .request (.change (.write "/a/f" "xyz" "/")), .request (.change (.write "/g" "" "/"))]
    let d := (Shell.respondAll (Disk.load Memory.empty DiskConfig.default) inputs).1
    let limits : Limits := ⟨4, 2, 100⟩
    let items := d.snapshot "/" limits
    d.tree.node? [] = some (.directory d.tree) ∧
      items = [⟨"/sandbox", .directory, none, none⟩, ⟨"/a", .directory, none, none⟩,
        ⟨"/g", .file, some 0, none⟩, ⟨"/a/b", .directory, none, none⟩] ∧
      d.tree.node? ["a", "f"] ≠ none ∧ "/a/f" ∉ items.map SnapshotItem.path ∧
      (∀ e ∈ items, (Path.resolve e.path "/").length ≤ 2) ∧
      items <+: d.snapshot "/" { limits with maxItems := 5 } ∧
      d.snapshot "/a/f" limits = [⟨"/a/f", .file, some 3, some "xy"⟩] ∧
      d.snapshot "/h" limits = [] := by
  intro inputs d limits items
  have htree : d.tree = [("sandbox", .directory []),
    ("a", .directory [("b", .directory []), ("f", .file "xyz")]), ("g", .file "")] := rfl
  obtain ⟨-, -, hdirectory, -, -, hout, hmore⟩ :=
    snapshot_lists_levels Memory.empty DiskConfig.default inputs "/" limits
  obtain ⟨-, hfile, -⟩ :=
    snapshot_lists_levels Memory.empty DiskConfig.default inputs "/a/f" limits
  obtain ⟨hmissing, -⟩ :=
    snapshot_lists_levels Memory.empty DiskConfig.default inputs "/h" limits
  have hitems : items = [⟨"/sandbox", .directory, none, none⟩, ⟨"/a", .directory, none, none⟩,
      ⟨"/g", .file, some 0, none⟩, ⟨"/a/b", .directory, none, none⟩] :=
    (hdirectory d.tree rfl).1.trans rfl
  have hnode : d.tree.node? ["a", "f"] ≠ none := by
    rw [htree]
    decide
  have hleft : "/a/f" ∉ items.map SnapshotItem.path := by
    rw [hitems]
    decide
  exact ⟨rfl, hitems, hnode, hleft, hout ["a", "f"] (by decide) (by decide) hnode hleft,
    hmore 5 (by decide), (hfile "xyz" rfl (by decide)).trans rfl, hmissing (Or.inl rfl)⟩

end Snapshot

end DiskShell
