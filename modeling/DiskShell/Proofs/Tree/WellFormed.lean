import DiskShell.Proofs.Tree.Edit

/-!
Every edit keeps a tree well formed, whether it succeeds or fails, provided that the paths it is
given consist of names. A tree of configured directories is well formed whatever is configured.
-/

namespace DiskShell.Tree

variable {t : Tree} {names : List String}

theorem wellFormed_nil : WellFormed [] := ⟨Directory.tidy_nil, Nat.zero_le _⟩

/-! ## One directory replaced -/

theorem WellFormed.insertAt {f : Focus} {name : String} {n : Node} (ht : t.WellFormed)
    (hf : t.focus? names = some f) (hname : Path.IsName name) (hn : n.Tidy)
    (hdepth : names.length + 1 + n.levels ≤ depthLimit) :
    WellFormed (f.replace (f.found.insert name n)) := by
  constructor
  · exact tidy_replace ht.tidy hf ((tidy_found ht.tidy hf).insert hname hn)
  · have hfound := levels_found_le hf
    have hinsert := Directory.levels_insert_le f.found name n
    have hreplace := levels_replace_le hf (f.found.insert name n)
    have hshallow := ht.shallow
    omega

theorem WellFormed.removeAt {f : Focus} {name : String} {n : Node} {d : Directory}
    (ht : t.WellFormed) (hf : t.focus? names = some f)
    (hd : Directory.remove? f.found name = some (n, d)) :
    n.Tidy ∧ WellFormed (f.replace d) := by
  obtain ⟨hn, htidy⟩ := (tidy_found ht.tidy hf).remove hd
  refine ⟨hn, tidy_replace ht.tidy hf htidy, ?_⟩
  have hfound := levels_found_le hf
  have hremove := Directory.levels_remove_le hd
  have hreplace := levels_replace_le hf d
  have hshallow := ht.shallow
  omega

/-- The nodes of a well-formed tree are tidy, the root included. -/
theorem WellFormed.tidy_node {n : Node} (ht : t.WellFormed) (h : t.node? names = some n) :
    n.Tidy := by
  rcases List.eq_nil_or_concat names with rfl | ⟨parent, name, rfl⟩
  · cases h
    exact ht.tidy
  · rw [List.concat_eq_append, node?_append] at h
    obtain ⟨d, hd, hchild⟩ := Option.bind_eq_some_iff.mp h
    exact ((tidy_directory? ht.tidy hd).child hchild).2

/-! ## Edits -/

theorem WellFormed.place {t' : Tree} {n : Node} (ht : t.WellFormed)
    (hnames : ∀ name ∈ names, Path.IsName name) (hn : n.Tidy)
    (hdepth : names.length + n.levels ≤ depthLimit) (h : t.place names n = (t', .ok ())) :
    t'.WellFormed := by
  obtain ⟨parent, name, f, d, rfl, hf, hd, rfl⟩ := editsParent_of_editParent h
  cases hd
  have hname : Path.IsName name := hnames name (by simp)
  rw [List.length_append, List.length_singleton] at hdepth
  exact ht.insertAt hf hname hn hdepth

theorem WellFormed.write (ht : t.WellFormed) (hnames : ∀ name ∈ names, Path.IsName name)
    (content : String) : WellFormed (t.write names content).1 := by
  refine (atomic_write t names content).keeps (P := WellFormed) ht fun t' h => ?_
  obtain ⟨hlength, parent, name, f, rfl, hf, -, rfl⟩ := exists_focus_of_write h
  have hname : Path.IsName name := hnames name (by simp)
  rw [List.length_append, List.length_singleton] at hlength
  exact ht.insertAt hf hname trivial hlength

theorem WellFormed.remove (ht : t.WellFormed) (names : List String) (directoryOnly : Bool) :
    WellFormed (t.remove names directoryOnly).1 := by
  refine (atomic_remove t names directoryOnly).keeps (P := WellFormed) ht fun t' h => ?_
  obtain ⟨-, parent, name, f, n, d, rfl, hf, hd, rfl⟩ := exists_focus_of_remove h
  exact (ht.removeAt hf hd).2

theorem WellFormed.copy {source target : List String} (ht : t.WellFormed)
    (htarget : ∀ name ∈ target, Path.IsName name) : WellFormed (t.copy source target).1 := by
  refine (atomic_copy t source target).keeps (P := WellFormed) ht fun t' h => ?_
  obtain ⟨htrans, h⟩ := after_eq_ok_iff.mp h
  obtain ⟨n, hn⟩ := exists_transferable htrans
  rw [hn.found] at h
  exact ht.place htarget (ht.tidy_node hn.found) hn.shallow h

theorem WellFormed.move {source target : List String} (ht : t.WellFormed)
    (htarget : ∀ name ∈ target, Path.IsName name) : WellFormed (t.move source target).1 := by
  refine (atomic_move t source target).keeps (P := WellFormed) ht fun t' h => ?_
  obtain ⟨htrans, h⟩ := after_eq_ok_iff.mp h
  obtain ⟨hmove, h⟩ := after_eq_ok_iff.mp h
  obtain ⟨n, hn⟩ := exists_transferable htrans
  obtain ⟨hne, -⟩ := not_below_source hmove hn
  obtain ⟨t₁, ht₁⟩ := exists_takeOut? hne hn.found
  rw [ht₁] at h
  obtain ⟨parent, name, f, d, -, hf, hd, rfl⟩ := takeOut?_eq_some_iff.mp ht₁
  obtain ⟨htidy, hwf⟩ := ht.removeAt hf hd
  exact hwf.place htarget htidy hn.shallow h

/-! ## New directories -/

theorem tidy_addPath (ht : Directory.Tidy t) (hnames : ∀ name ∈ names, Path.IsName name) :
    Directory.Tidy (t.addPath names).1 := by
  induction names generalizing t with
  | nil => exact ht
  | cons name rest ih =>
    have hname : Path.IsName name := hnames name (List.mem_cons_self ..)
    have hrest : ∀ m ∈ rest, Path.IsName m := fun m hm => hnames m (List.mem_cons_of_mem _ hm)
    rw [addPath_cons]
    cases hchild : t.child? name with
    | none => exact ht.insert hname (ih Directory.tidy_nil hrest)
    | some n =>
      cases n with
      | file c => exact ht
      | directory d => exact ht.insert hname (ih (ht.child hchild).2 hrest)

theorem levels_addPath_le (t : Tree) (names : List String) :
    Directory.levels (t.addPath names).1 ≤ max (Directory.levels t) names.length := by
  induction names generalizing t with
  | nil => exact Nat.le_max_left ..
  | cons name rest ih =>
    rw [addPath_cons, List.length_cons]
    cases hchild : t.child? name with
    | none =>
      show Directory.levels (t.insert name (.directory (addPath [] rest).1)) ≤ _
      have hinsert := Directory.levels_insert_le t name (.directory (addPath [] rest).1)
      have hle := ih []
      simp only [Node.levels, Directory.levels] at hinsert hle
      omega
    | some n =>
      cases n with
      | file c => exact Nat.le_max_left ..
      | directory d =>
        show Directory.levels (t.insert name (.directory (addPath d rest).1)) ≤ _
        have hinsert := Directory.levels_insert_le t name (.directory (addPath d rest).1)
        have hmem := Directory.levels_of_mem (Directory.mem_of_child? hchild)
        have hle := ih d
        simp only [Node.levels] at hinsert hmem
        omega

theorem WellFormed.makeDirectory (ht : t.WellFormed) (hnames : ∀ name ∈ names, Path.IsName name) :
    WellFormed (t.makeDirectory names).1 := by
  refine (atomic_makeDirectory t names).keeps (P := WellFormed) ht fun t' h => ?_
  obtain ⟨hdepth, h⟩ := after_eq_ok_iff.mp h
  have hlength := length_le_of_ensureDepth hdepth
  have htidy := tidy_addPath ht.tidy hnames
  have hlevels := levels_addPath_le t names
  rw [h] at htidy hlevels
  exact ⟨htidy, Nat.le_trans hlevels (Nat.max_le.mpr ⟨ht.shallow, hlength⟩)⟩

theorem wellFormed_ofPaths (paths : List String) : WellFormed (ofPaths paths) := by
  have hfold : ∀ (paths : List String) (t : Tree), t.WellFormed →
      WellFormed (paths.foldl (fun t path => (t.makeDirectory (Path.resolve path "/")).1) t) := by
    intro paths
    induction paths with
    | nil => exact fun t ht => ht
    | cons path rest ih =>
      intro t ht
      exact ih _ (ht.makeDirectory fun _ hname => Path.isName_of_mem_resolve hname)
  exact hfold paths [] wellFormed_nil

end DiskShell.Tree
