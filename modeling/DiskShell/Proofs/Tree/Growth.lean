import DiskShell.Proofs.Tree.Edit

/-!
Edits that only add to a tree: writing, making directories, copying. Every directory is still there
afterwards (`Grows`), because what is put in never stands where a directory was. What has been
written is found again (`node?_write`).
-/

namespace DiskShell.Tree

variable {t t' : Tree} {name : String} {n : Node}

/-- Where there was a directory there is one. -/
def Grows (t t' : Tree) : Prop :=
  ∀ names, (t.directory? names).isSome = true → (t'.directory? names).isSome = true

theorem Grows.refl (t : Tree) : t.Grows t := fun _ h => h

/-! ## One directory replaced -/

theorem grows_insert (h : (t.child? name).bind Node.directory? = none) (n : Node) :
    t.Grows (t.insert name n) := by
  intro names hnames
  cases names with
  | nil => rfl
  | cons m rest =>
    rw [directory?_cons] at hnames ⊢
    by_cases hm : m = name
    · subst hm
      rw [h] at hnames
      cases hnames
    · rw [Directory.child?_insert_of_ne hm]
      exact hnames

theorem grows_replace {names : List String} {f : Focus} (hf : t.focus? names = some f)
    {d : Directory} (hd : Grows f.found d) : t.Grows (f.replace d) := by
  intro other hother
  by_cases hprefix : names <+: other
  · obtain ⟨rest, rfl⟩ := hprefix
    rw [directory?_append, directory?_of_focus? hf] at hother
    rw [directory?_replace_append hf]
    exact hd rest hother
  · rw [isSome_directory?_eq, face?_replace hf d hprefix, ← isSome_directory?_eq]
    exact hother

theorem grows_insert_directory {d d' : Directory} (h : t.child? name = some (.directory d))
    (hd : Grows d d') : t.Grows (t.insert name (.directory d')) := by
  have hfocus : t.focus? [name] = some ⟨d, fun x => t.insert name (.directory x)⟩ :=
    focus?_cons_eq_some_iff.mpr ⟨d, ⟨d, id⟩, h, rfl, rfl⟩
  exact grows_replace hfocus hd

/-- What is put into the directory in focus is found under its name. -/
theorem node?_replace_insert {parent : List String} {f : Focus} (hf : t.focus? parent = some f)
    (d : Directory) (name : String) (n : Node) :
    node? (f.replace (d.insert name n)) (parent ++ [name]) = some n := by
  have hparent := directory?_replace_append hf (d.insert name n) []
  rw [List.append_nil] at hparent
  rw [node?_append, hparent]
  exact Directory.child?_insert_self d name n

/-! ## Writing -/

theorem grows_write (t : Tree) (names : List String) (content : String) :
    t.Grows (t.write names content).1 := by
  refine (atomic_write t names content).keeps (P := t.Grows) (Grows.refl t) fun t' h => ?_
  obtain ⟨-, parent, name, f, -, hf, hfree, rfl⟩ := exists_focus_of_write h
  exact grows_replace hf (grows_insert hfree _)

/-- **What has been written is found again.** -/
theorem node?_write {names : List String} {content : String}
    (h : t.write names content = (t', .ok ())) : t'.node? names = some (.file content) := by
  obtain ⟨-, parent, name, f, rfl, hf, -, rfl⟩ := exists_focus_of_write h
  exact node?_replace_insert hf f.found name _

/-! ## New directories -/

theorem grows_addPath (t : Tree) (names : List String) : t.Grows (t.addPath names).1 := by
  induction names generalizing t with
  | nil => exact Grows.refl t
  | cons name rest ih =>
    rw [addPath_cons]
    cases hchild : t.child? name with
    | none => exact grows_insert (by rw [hchild]; rfl) _
    | some n =>
      cases n with
      | file c => exact Grows.refl t
      | directory d => exact grows_insert_directory hchild (ih d)

theorem grows_makeDirectory (t : Tree) (names : List String) :
    t.Grows (t.makeDirectory names).1 := by
  refine (atomic_makeDirectory t names).keeps (P := t.Grows) (Grows.refl t) fun t' h => ?_
  obtain ⟨-, h⟩ := after_eq_ok_iff.mp h
  have hgrows := grows_addPath t names
  rw [h] at hgrows
  exact hgrows

/-! ## Copies -/

theorem node?_of_ensureTransferable {source target : List String}
    (h : t.ensureTransferable source target = .ok ()) : t.node? target = none := by
  unfold ensureTransferable at h
  split at h
  · cases h
  split at h
  · cases h
  next hfree =>
  rw [Bool.not_eq_true, Bool.or_eq_false_iff] at hfree
  exact Option.isNone_iff_eq_none.mp (Option.isSome_eq_false_iff.mp hfree.2)

theorem grows_copy (t : Tree) (source target : List String) :
    t.Grows (t.copy source target).1 := by
  refine (atomic_copy t source target).keeps (P := t.Grows) (Grows.refl t) fun t' h => ?_
  obtain ⟨htrans, h⟩ := after_eq_ok_iff.mp h
  obtain ⟨n, hn⟩ := exists_transferable htrans
  rw [hn.found] at h
  obtain ⟨parent, name, f, d, rfl, hf, hd, rfl⟩ := editsParent_of_editParent h
  cases hd
  have hfree := node?_of_ensureTransferable htrans
  rw [node?_append, directory?_of_focus? hf, Option.bind_some] at hfree
  exact grows_replace hf (grows_insert (by rw [hfree]; rfl) n)

end DiskShell.Tree
