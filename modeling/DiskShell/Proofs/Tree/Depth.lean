import DiskShell.Proofs.Node.Chain
import DiskShell.Proofs.Node.Search
import DiskShell.Proofs.Tree.Presence
import DiskShell.Proofs.Tree.Verdict
import DiskShell.Proofs.Tree.WellFormed

/-!
How deep a tree is after a node has been placed in it. The height of a node is found by a search
through the directories below it, so the check before a transfer refuses just those that would put
some node too far from the root (`height_is_exact`).
-/

namespace DiskShell

/-! ## The height of a node -/

/-- The height is found by a search, however it goes on; it is one more than the greatest height of
the nodes in a directory, and the length of the longest chain of nodes below. -/
structure Node.IsHeight (n : Node) (height : Nat) : Prop where
  found : Search.Visits n.directories n.search ⟨height, 0⟩
  /-- After fewer visits than there are directories there is another one to make; after as many
  there is none, and the height has been found. -/
  search : ∀ k s, Search.Visits k n.search s →
    (k < n.directories ∧ ∃ s', Search.Visit s s') ∨ (k = n.directories ∧ s = ⟨height, 0⟩)
  step : height = (n.entries.map fun e => e.2.height).max?.elim 0 (1 + ·)
  longest : IsGreatest {k | ∃ below, (n :: below).IsChain Node.Holds ∧ below.length = k} height

theorem Node.isHeight_height (n : Node) : n.IsHeight n.height where
  found := Search.visits_height n
  search _ _ := Search.visits_search
  step := by
    simp only [height_eq_levels]
    exact levels_eq n
  longest := by
    rw [height_eq_levels]
    exact isGreatest_levels n

namespace Tree

variable {t t' : Tree} {source target : List String} {n : Node} {d : Directory} {limit : Nat}

/-! ## The depth of a tree -/

/-- No node is further from the root than a limit. -/
def NoDeeper (limit : Nat) (t : Tree) : Prop :=
  ∀ q n, t.node? q = some n → q.length ≤ limit

theorem noDeeper_of_levels (h : Directory.levels t ≤ limit) : t.NoDeeper limit := by
  intro q n hq
  rw [node?_eq_descend?] at hq
  exact Nat.le_trans (Node.length_le_of_descend? hq) h

/-- At a free path in a directory any node can be placed. -/
theorem exists_place (hfree : t.node? target = none) (hd : t.directory? target.dropLast = some d)
    (n : Node) : ∃ t', t.place target n = (t', .ok ()) := by
  rcases List.eq_nil_or_concat target with rfl | ⟨parent, name, rfl⟩
  · cases hfree
  · rw [List.concat_eq_append, List.dropLast_concat] at hd
    obtain ⟨f, -, -, hplace⟩ :=
      editParent_of_directory? hd name fun d name => .ok (d.insert name n)
    rw [List.concat_eq_append, place, hplace]
    exact ⟨_, rfl⟩

/-- **What is placed at a free path** reaches as far below it as it has levels, and no other node
moves. -/
theorem noDeeper_place_iff (ht : t.NoDeeper limit) (hn : n.Tidy) (hfree : t.node? target = none)
    (h : t.place target n = (t', .ok ())) :
    t'.NoDeeper limit ↔ target.length + n.levels ≤ limit := by
  obtain ⟨hnew, hdiff⟩ := differsAt_place h hfree
  constructor
  · intro hdeep
    obtain ⟨below, hchain, hbelow⟩ := n.exists_longest_chain
    obtain ⟨names, m, hlength, hm⟩ := Node.exists_descend? hn hchain
    have hlowest : t'.node? (target ++ names) = some m := by
      rw [node?_append_eq_bind, hnew]
      exact hm
    have hle := hdeep _ m hlowest
    rwa [List.length_append, hlength, hbelow] at hle
  · intro hle q m hq
    by_cases hbelow : target <+: q
    · obtain ⟨rest, rfl⟩ := hbelow
      rw [node?_append_eq_bind, hnew] at hq
      have hrest := Node.length_le_of_descend? hq
      rw [List.length_append]
      omega
    · have hsome := isSome_node?_of_face? (hdiff.face?_eq q hbelow)
      rw [hq] at hsome
      obtain ⟨x, hx⟩ := Option.isSome_iff_exists.mp hsome.symm
      exact ht q x hx

/-! ## The check before a transfer -/

/-- Where nothing else is wrong with a transfer, its depth decides. -/
theorem ensureTransferable_of_free (hn : t.node? source = some n) (hfree : t.node? target = none)
    (hd : t.directory? target.dropLast = some d) :
    t.ensureTransferable source target =
      if target.length + n.height ≤ depthLimit then .ok () else .error .tooDeep := by
  have hne : target ≠ [] := by
    rintro rfl
    cases hfree
  have hdeep : 128 < target.length + n.levels ↔ ¬ target.length + n.levels ≤ depthLimit :=
    Nat.not_le.symm
  rw [ensureTransferable_eq, transferComplaints, hn, hfree, node?_of_directory? hd,
    Node.height_eq_levels]
  by_cases hle : target.length + n.levels ≤ depthLimit <;> simp [Node.isFile, hne, hdeep, hle]

/-- **The height is exact, and so is the check before a transfer.** Every search from a node stops
once it has visited each directory, with the number of levels below the node. In a well-formed tree
the way to a free path in a directory and the height of a node that is there keep to the limit if and
only if no node is too deep once a copy of that node has been placed at the path. -/
theorem height_is_exact :
    (∀ n : Node, n.IsHeight n.height) ∧
      ∀ (t : Tree) (source target : List String) (n : Node) (d : Directory), t.WellFormed →
        t.node? source = some n → t.node? target = none → t.directory? target.dropLast = some d →
        t.ensureTransferable source target =
            (if target.length + n.height ≤ depthLimit then .ok () else .error .tooDeep) ∧
          ∃ t', t.place target n = (t', .ok ()) ∧
            (target.length + n.height ≤ depthLimit ↔ t'.NoDeeper depthLimit) := by
  refine ⟨Node.isHeight_height, fun t source target n d ht hn hfree hd => ?_⟩
  refine ⟨ensureTransferable_of_free hn hfree hd, ?_⟩
  obtain ⟨t', h⟩ := exists_place hfree hd n
  refine ⟨t', h, ?_⟩
  rw [Node.height_eq_levels]
  exact (noDeeper_place_iff (noDeeper_of_levels ht.shallow) (ht.tidy_node hn) hfree h).symm

/-- In the lowest of 64 directories, each in the one before, there is just room for a copy of the
first. A copy of the root is too deep by one level. -/
theorem copy_down_to_limit :
    let t : Tree := (makeDirectory [] (List.replicate 64 "a")).1
    let target := List.replicate 64 "a" ++ ["b"]
    t.WellFormed ∧ t.node? target = none ∧ t.directory? target.dropLast = some [] ∧
      (∃ n t', t.node? ["a"] = some n ∧ n.height = 63 ∧
        t.ensureTransferable ["a"] target = .ok () ∧ t.place target n = (t', .ok ()) ∧
        t'.NoDeeper 128) ∧
      ∃ n t', t.node? [] = some n ∧ n.height = 64 ∧
        t.ensureTransferable [] target = .error .tooDeep ∧ t.place target n = (t', .ok ()) ∧
        ¬ t'.NoDeeper 128 := by
  intro t target
  have hname : Path.IsName "a" := (Path.isName_iff "a").mp (by decide)
  have ht : t.WellFormed :=
    wellFormed_nil.makeDirectory fun name h => List.eq_of_mem_replicate h ▸ hname
  have hfree : t.node? target = none := rfl
  have hd : t.directory? target.dropLast = some [] := rfl
  refine ⟨ht, hfree, hd, ?_, ?_⟩
  · have hn : t.node? ["a"] = some (.directory (makeDirectory [] (List.replicate 63 "a")).1) := rfl
    have hheight : (Node.directory (makeDirectory [] (List.replicate 63 "a")).1).height = 63 := by
      cbv
    obtain ⟨hcheck, t', hplace, hiff⟩ := height_is_exact.2 t ["a"] target _ _ ht hn hfree hd
    have hfits : target.length + 63 ≤ depthLimit := by decide
    rw [hheight] at hcheck hiff
    exact ⟨_, t', hn, hheight, hcheck.trans (if_pos hfits), hplace, hiff.mp hfits⟩
  · have hn : t.node? [] = some (.directory t) := rfl
    have hheight : (Node.directory t).height = 64 := by cbv
    obtain ⟨hcheck, t', hplace, hiff⟩ := height_is_exact.2 t [] target _ _ ht hn hfree hd
    have hdeep : ¬ target.length + 64 ≤ depthLimit := by decide
    rw [hheight] at hcheck hiff
    exact ⟨_, t', hn, hheight, hcheck.trans (if_neg hdeep), hplace, fun h => hdeep (hiff.mpr h)⟩

end Tree

end DiskShell
