import DiskShell.Proofs.Disk.Run

/-!
Absolute paths. Whatever is done with a path can be done with its absolute form, from any working
directory (`answer_absolute`, `apply_absolute`). On a disk whose tree is well formed every node is
found under the path that its names are rendered as (`node?_render`), and a directory lists exactly
what is found below it (`mem_list_iff`).
-/

namespace DiskShell

/-- The same query with its path in absolute form, from another working directory. -/
def Query.absolute (cwd' : String) : Query → Query
  | .list path cwd => .list (Path.canonical path cwd) cwd'
  | .read path cwd => .read (Path.canonical path cwd) cwd'
  | .canonical path cwd => .canonical (Path.canonical path cwd) cwd'
  | .isPresent path cwd => .isPresent (Path.canonical path cwd) cwd'
  | .isDirectory path cwd => .isDirectory (Path.canonical path cwd) cwd'
  | .isFile path cwd => .isFile (Path.canonical path cwd) cwd'
  | .usage path cwd => .usage (Path.canonical path cwd) cwd'
  | .snapshot path limits => .snapshot (Path.canonical path "/") limits

/-- The same change with its paths in absolute form, from another working directory. -/
def Change.absolute (cwd' : String) : Change → Change
  | .write path content cwd => .write (Path.canonical path cwd) content cwd'
  | .touch path cwd => .touch (Path.canonical path cwd) cwd'
  | .makeDirectory path cwd => .makeDirectory (Path.canonical path cwd) cwd'
  | .remove path cwd => .remove (Path.canonical path cwd) cwd'
  | .removeDirectory path cwd => .removeDirectory (Path.canonical path cwd) cwd'
  | .move source target cwd =>
    .move (Path.canonical source cwd) (Path.canonical target cwd) cwd'
  | .copy source target cwd =>
    .copy (Path.canonical source cwd) (Path.canonical target cwd) cwd'
  | .reset => .reset

namespace Disk

variable {σ : Type}

/-! ## Paths -/

theorem answer_absolute (d : Disk σ) (q : Query) (cwd' : String) :
    d.answer (q.absolute cwd') = d.answer q := by
  cases q <;> simp only [Query.absolute, answer, list, read?, exists?, isDirectory, isFile, usage?,
    snapshot, node?, Path.resolve_canonical, Path.canonical_canonical]

theorem apply_absolute [Store σ] (d : Disk σ) (c : Change) (cwd' : String) :
    d.apply (c.absolute cwd') = d.apply c := by
  cases c <;> simp only [Change.absolute, apply, write, touch, makeDirectory, remove,
    removeDirectory, move, copy, Path.resolve_canonical]

/-- **Every node is found under its absolute path**, from wherever it is looked up. -/
theorem node?_render {d : Disk σ} (hd : d.tree.WellFormed) {names : List String} {n : Node}
    (h : d.tree.node? names = some n) (cwd : String) :
    Path.resolve (Path.render names) cwd = names ∧ d.node? (Path.render names) cwd = some n := by
  have hresolve := Path.resolve_render (Tree.isName_of_node? hd.tidy h) cwd
  rw [node?, hresolve]
  exact ⟨rfl, h⟩

/-! ## Directories -/

theorem isDirectory_eq (d : Disk σ) (path cwd : String) :
    d.isDirectory path cwd = (d.tree.directory? (Path.resolve path cwd)).isSome := by
  rw [isDirectory, node?, Tree.directory?_eq_bind_node?]
  cases d.tree.node? (Path.resolve path cwd) with
  | none => rfl
  | some n => cases n <;> rfl

theorem isDirectory_canonical (d : Disk σ) (path cwd cwd' : String) :
    d.isDirectory (Path.canonical path cwd) cwd' = d.isDirectory path cwd := by
  rw [isDirectory_eq, isDirectory_eq, Path.resolve_canonical]

theorem isDirectory_root (d : Disk σ) (cwd : String) : d.isDirectory "/" cwd = true := by
  rw [isDirectory_eq, Path.resolve_root]
  rfl

theorem isDirectory_apply [Store σ] {d : Disk σ} {c : Change} (hc : c.onlyAdds = true)
    {path cwd : String} (h : d.isDirectory path cwd = true) :
    (d.apply c).1.isDirectory path cwd = true := by
  rw [isDirectory_eq] at h ⊢
  rw [apply_eq]
  exact Change.grows_edit hc d.config d.tree _ h

/-! ## Listings -/

/-- What a path with one more name leads to is what the directory has under the name. -/
theorem node?_canonical_append (d : Disk σ) {name : String} (hname : Path.IsName name)
    (path cwd cwd' : String) :
    d.node? (Path.canonical path cwd ++ "/" ++ name) cwd' =
      (d.tree.directory? (Path.resolve path cwd)).bind fun s => s.child? name := by
  have hnames : ∀ m ∈ Path.resolve path cwd, Path.IsName m :=
    fun _ hm => Path.isName_of_mem_resolve hm
  rw [node?, Path.canonical, Path.resolve_render_append hnames hname, Tree.node?_append]

theorem list_of_directory? {d : Disk σ} {path cwd : String} {s : Directory}
    (hs : d.tree.directory? (Path.resolve path cwd) = some s) :
    d.list path cwd = s.map fun e => .ofNode e.1 e.2 := by
  simp only [list, Tree.list, Tree.node?_of_directory? hs]

/-- A directory lists what is found below it, under the names that can be a step of a path. -/
theorem mem_list_iff {d : Disk σ} (hd : d.tree.WellFormed) {path cwd : String}
    (h : d.isDirectory path cwd = true) (e : ListEntry) :
    e ∈ d.list path cwd ↔ Path.IsName e.name ∧ ∀ cwd', ∃ n,
      d.node? (Path.canonical path cwd ++ "/" ++ e.name) cwd' = some n ∧
        e = .ofNode e.name n := by
  rw [isDirectory_eq] at h
  obtain ⟨s, hs⟩ := Option.isSome_iff_exists.mp h
  obtain ⟨hnodup, hentries⟩ := (Directory.tidy_iff s).mp (Tree.tidy_directory? hd.tidy hs)
  rw [list_of_directory? hs]
  constructor
  · intro he
    obtain ⟨⟨name, n⟩, hmem, rfl⟩ := List.mem_map.mp he
    have hname : Path.IsName name := (hentries _ hmem).1
    refine ⟨hname, fun cwd' => ⟨n, ?_, rfl⟩⟩
    show d.node? (Path.canonical path cwd ++ "/" ++ name) cwd' = some n
    rw [node?_canonical_append d hname, hs]
    exact (Directory.child?_eq_some_iff_mem hnodup).mpr hmem
  · rintro ⟨hname, hall⟩
    obtain ⟨n, hn, heq⟩ := hall "/"
    rw [node?_canonical_append d hname, hs] at hn
    rw [heq]
    exact List.mem_map_of_mem (Directory.mem_of_child? hn)

theorem nodup_list {d : Disk σ} (hd : d.tree.WellFormed) {path cwd : String}
    (h : d.isDirectory path cwd = true) : ((d.list path cwd).map ListEntry.name).Nodup := by
  rw [isDirectory_eq] at h
  obtain ⟨s, hs⟩ := Option.isSome_iff_exists.mp h
  obtain ⟨hnodup, -⟩ := (Directory.tidy_iff s).mp (Tree.tidy_directory? hd.tidy hs)
  rw [list_of_directory? hs, List.map_map]
  exact hnodup

/-- **A listing is exact.** A name is listed if and only if something exists under it. -/
theorem exists_mem_list_iff {d : Disk σ} (hd : d.tree.WellFormed) {path cwd name : String}
    (h : d.isDirectory path cwd = true) (hname : Path.IsName name) :
    (∃ e ∈ d.list path cwd, e.name = name) ↔
      ∀ cwd', d.exists? (Path.canonical path cwd ++ "/" ++ name) cwd' = true := by
  constructor
  · rintro ⟨e, he, rfl⟩ cwd'
    obtain ⟨n, hn, -⟩ := ((mem_list_iff hd h e).mp he).2 cwd'
    rw [exists?, hn]
    rfl
  · intro hexists
    have hsame : ∀ cwd', d.node? (Path.canonical path cwd ++ "/" ++ name) cwd' =
        d.node? (Path.canonical path cwd ++ "/" ++ name) "/" := by
      intro cwd'
      rw [node?_canonical_append d hname, node?_canonical_append d hname]
    obtain ⟨n, hn⟩ := Option.isSome_iff_exists.mp (hexists "/")
    refine ⟨.ofNode name n, (mem_list_iff hd h _).mpr ⟨hname, fun cwd' => ⟨n, ?_, rfl⟩⟩, rfl⟩
    exact (hsame cwd').trans hn

end Disk

end DiskShell
