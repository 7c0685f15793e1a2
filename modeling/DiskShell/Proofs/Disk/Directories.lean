import Mathlib
import DiskShell.Proofs.Shell.Changes
import DiskShell.Proofs.Tree.Directories

/-!
Making many directories on a disk. The changes answer what each would answer alone, and the order in
which they are made shows in the order of the new names only (`directories_in_any_order`).
-/

namespace DiskShell

/-- The changes that make directories at paths, each read against its working directory. -/
def Change.makeDirectories (requests : List (String × String)) : List Change :=
  requests.map fun r => .makeDirectory r.1 r.2

namespace Disk

variable {σ : Type} [Store σ]

theorem tree_makeDirectory (d : Disk σ) (path cwd : String) :
    (d.makeDirectory path cwd).1.tree = (d.tree.makeDirectory (Path.resolve path cwd)).1 := by
  rw [makeDirectory, commit_eq]

theorem snd_makeDirectory (d : Disk σ) (path cwd : String) :
    (d.makeDirectory path cwd).2 = (d.tree.makeDirectory (Path.resolve path cwd)).2 := by
  rw [makeDirectory, commit_eq]

theorem tree_makeDirectories (d : Disk σ) (requests : List (String × String)) :
    (d.applyAll (Change.makeDirectories requests)).tree =
      d.tree.makeAll (requests.map fun r => Path.resolve r.1 r.2) := by
  induction requests generalizing d with
  | nil => rfl
  | cons r rest ih =>
    refine (ih (d.makeDirectory r.1 r.2).1).trans ?_
    rw [tree_makeDirectory]
    rfl

/-- Each change answers what it would answer alone. -/
theorem results_makeDirectories (d : Disk σ) (requests : List (String × String)) :
    d.results (Change.makeDirectories requests) =
      requests.map fun r => (d.makeDirectory r.1 r.2).2 := by
  induction requests generalizing d with
  | nil => rfl
  | cons r rest ih =>
    have halone (s : String × String) : ((d.makeDirectory r.1 r.2).1.makeDirectory s.1 s.2).2 =
        (d.makeDirectory s.1 s.2).2 := by
      rw [snd_makeDirectory, tree_makeDirectory, Tree.snd_makeDirectory_makeDirectory,
        ← snd_makeDirectory]
    calc d.results (Change.makeDirectories (r :: rest))
        = (d.makeDirectory r.1 r.2).2 ::
            (d.makeDirectory r.1 r.2).1.results (Change.makeDirectories rest) := results_cons d _ _
      _ = (r :: rest).map fun s => (d.makeDirectory s.1 s.2).2 := by
        rw [ih, List.map_cons]
        simp only [halone]

/-- The trees that are left when the same directories are made in two ways have the same directories
and files; the new names, which come after the old ones, may stand in another order. -/
theorem alike_makeDirectories (d : Disk σ) {requests others : List (String × String)}
    (hsame : ∀ r, r ∈ others ↔ r ∈ requests) (q : List String) :
    let t := (d.applyAll (Change.makeDirectories requests)).tree
    let t' := (d.applyAll (Change.makeDirectories others)).tree
    (t'.node? q).map Node.content? = (t.node? q).map Node.content? ∧
      ∃ new new', t.namesAt q = d.tree.namesAt q ++ new ∧
        t'.namesAt q = d.tree.namesAt q ++ new' ∧ new.Perm new' := by
  intro t t'
  have hpaths (p : List String) : p ∈ others.map (fun r => Path.resolve r.1 r.2) ↔
      p ∈ requests.map fun r => Path.resolve r.1 r.2 := by
    simp only [List.mem_map, hsame]
  have h := d.tree.directoriesAdded_makeAll (requests.map fun r => Path.resolve r.1 r.2)
  have h' := d.tree.directoriesAdded_makeAll (others.map fun r => Path.resolve r.1 r.2)
  simp only [hpaths] at h'
  rw [← tree_makeDirectories] at h h'
  exact ⟨h.map_content?_eq h' q, (h.listed q).perm (h'.listed q)⟩

theorem makeDirectory_again (d : Disk σ) {requests : List (String × String)} {path cwd : String}
    (hmem : (path, cwd) ∈ requests) (hok : (d.makeDirectory path cwd).2 = .ok ()) :
    let made := d.applyAll (Change.makeDirectories requests)
    (made.makeDirectory path cwd).1.tree = made.tree := by
  intro made
  have hpath : Path.resolve path cwd ∈ requests.map fun r => Path.resolve r.1 r.2 :=
    List.mem_map.mpr ⟨(path, cwd), hmem, rfl⟩
  rw [snd_makeDirectory] at hok
  rw [tree_makeDirectory, tree_makeDirectories, Tree.makeDirectory_makeAll hpath hok]

theorem config_respondAll (d : Disk σ) (inputs : List Shell.Input) :
    (Shell.respondAll d inputs).1.config = d.config :=
  Shell.respondAll_induction (P := fun e => e.config = d.config) rfl
    (fun e c he => by rw [apply_eq]; exact he) inputs

/-- **Directories in any order.** Each path answers what it answers alone on the disk as it is, be it
made first or last, once or again. The paths given in another order, or repeatedly, lead to the same
directories and files; only the new names, which are listed after the old ones, can stand in another
order. To make a directory again is to do nothing. A configured disk has the directories that lead to
the configured paths, but for paths that are too deep, and nothing else; a reset always leads back to
it. -/
theorem directories_in_any_order :
    (∀ (d : Disk σ) (requests : List (String × String)),
        d.results (Change.makeDirectories requests) =
          requests.map fun r => (d.makeDirectory r.1 r.2).2) ∧
      (∀ (d : Disk σ) (requests others : List (String × String)),
        (∀ r, r ∈ others ↔ r ∈ requests) →
          let t := (d.applyAll (Change.makeDirectories requests)).tree
          let t' := (d.applyAll (Change.makeDirectories others)).tree
          ∀ q, (t'.node? q).map Node.content? = (t.node? q).map Node.content? ∧
            ∃ new new', t.namesAt q = d.tree.namesAt q ++ new ∧
              t'.namesAt q = d.tree.namesAt q ++ new' ∧ new.Perm new') ∧
      (∀ (d : Disk σ) (requests : List (String × String)) (path cwd : String),
        (path, cwd) ∈ requests → (d.makeDirectory path cwd).2 = .ok () →
          let made := d.applyAll (Change.makeDirectories requests)
          (made.makeDirectory path cwd).1.tree = made.tree) ∧
      (∀ config : DiskConfig,
        let t := Tree.ofPaths config.seedDirectories
        t.WellFormed ∧ (∀ q n, t.node? q = some n → n.isDirectory = true) ∧
          ∀ q, (t.node? q).isSome = true ↔ q = [] ∨ ∃ path ∈ config.seedDirectories,
            (Path.resolve path "/").length ≤ 128 ∧ q <+: Path.resolve path "/") ∧
      ∀ (store : σ) (config : DiskConfig) (inputs : List Shell.Input),
        (Shell.respondAll (load store config) inputs).1.reset.tree =
          Tree.ofPaths config.seedDirectories := by
  refine ⟨results_makeDirectories, fun d _ _ => alike_makeDirectories d,
    fun d _ _ _ => makeDirectory_again d, fun config => ⟨?_, ?_, ?_⟩,
    fun store config inputs => ?_⟩
  · exact Tree.wellFormed_ofPaths config.seedDirectories
  · exact fun q n => Tree.isDirectory_of_node?_ofPaths
  · exact Tree.isSome_node?_ofPaths_iff config.seedDirectories
  · rw [reset, config_respondAll]
    rfl

/-- A file is in the way of one path; the others are made, in either order. -/
theorem directories_made_beside_file :
    let d : Disk Memory := ⟨[("f", .file "x")], Memory.empty, .default⟩
    let requests := [("a/b", "/"), ("g", "/f"), ("c", "/a")]
    let others := [("c", "/a"), ("a/b", "/"), ("g", "/f"), ("c", "/a")]
    let made := d.applyAll (Change.makeDirectories requests)
    d.results (Change.makeDirectories others) =
        [.ok (), .ok (), .error .notADirectory, .ok ()] ∧
      (∀ q, ((d.applyAll (Change.makeDirectories others)).tree.node? q).map Node.content? =
        (made.tree.node? q).map Node.content?) ∧
      (made.makeDirectory "a/b" "/").1.tree = made.tree := by
  intro d requests others
  obtain ⟨hresults, halike, hagain, -⟩ := @directories_in_any_order Memory _
  have hsame : ∀ r, r ∈ others ↔ r ∈ requests := by
    intro r
    simp only [requests, others, List.mem_cons, List.not_mem_nil, or_false]
    tauto
  have hok : (d.makeDirectory "a/b" "/").2 = .ok () := by cbv
  refine ⟨?_, fun q => ?_, ?_⟩
  · rw [hresults]
    cbv
  · obtain ⟨hkind, -⟩ := halike d requests others hsame q
    exact hkind
  · exact hagain d requests "a/b" "/" (List.mem_cons_self ..) hok

end Disk

end DiskShell
