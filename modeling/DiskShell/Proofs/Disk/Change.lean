import DiskShell.Proofs.Disk.Step
import DiskShell.Proofs.Tree.Growth
import DiskShell.Proofs.Tree.WellFormed

/-!
What a change does to a disk: nothing at all, or a new tree that is written to the store at once
(`settles_apply`). A change that fails is of the first kind.
-/

namespace DiskShell

namespace Change

theorem atomic_edit (config : DiskConfig) (t : Tree) (c : Change) : t.Atomic (c.edit config t) := by
  cases c with
  | write path content cwd => exact Tree.atomic_write t _ content
  | touch path cwd =>
    simp only [edit]
    split
    · exact fun _ _ => rfl
    · exact Tree.atomic_write t _ ""
  | makeDirectory path cwd => exact Tree.atomic_makeDirectory t _
  | remove path cwd => exact Tree.atomic_remove t _ false
  | removeDirectory path cwd => exact Tree.atomic_remove t _ true
  | move source target cwd => exact Tree.atomic_move t _ _
  | copy source target cwd => exact Tree.atomic_copy t _ _
  | reset =>
    intro e h
    cases h

theorem wellFormed_edit {t : Tree} (h : t.WellFormed) (config : DiskConfig) (c : Change) :
    Tree.WellFormed (c.edit config t).1 := by
  have hnames (path cwd : String) : ∀ name ∈ Path.resolve path cwd, Path.IsName name :=
    fun _ hname => Path.isName_of_mem_resolve hname
  cases c with
  | write path content cwd => exact h.write (hnames path cwd) content
  | touch path cwd =>
    simp only [edit]
    split
    · exact h
    · exact h.write (hnames path cwd) ""
  | makeDirectory path cwd => exact h.makeDirectory (hnames path cwd)
  | remove path cwd => exact h.remove _ false
  | removeDirectory path cwd => exact h.remove _ true
  | move source target cwd => exact h.move (hnames target cwd)
  | copy source target cwd => exact h.copy (hnames target cwd)
  | reset => exact Tree.wellFormed_ofPaths config.seedDirectories

/-- An edit that is not to be stored has left the tree as it was. -/
theorem edit_of_isStored_eq_false {config : DiskConfig} {t : Tree} {c : Change}
    (h : c.isStored config t = false) : (c.edit config t).1 = t := by
  cases hresult : (c.edit config t).2 with
  | error e => exact atomic_edit config t c e hresult
  | ok u =>
    have hidle : c.isIdle t = true := by
      simpa [isStored, hresult, Except.isOk, Except.toBool] using h
    cases c with
    | touch path cwd =>
      have hexists : t.exists? (Path.resolve path cwd) = true := hidle
      simp only [edit, hexists, if_true]
    | _ => cases hidle

theorem edit_of_isStored {config : DiskConfig} {t : Tree} {c : Change}
    (h : c.isStored config t = true) : (c.edit config t).2 = .ok () := by
  cases hresult : (c.edit config t).2 with
  | ok u => rfl
  | error e => simp [isStored, hresult, Except.isOk, Except.toBool] at h

/-- The changes that take nothing away. -/
def onlyAdds : Change → Bool
  | write _ _ _ => true
  | touch _ _ => true
  | makeDirectory _ _ => true
  | copy _ _ _ => true
  | _ => false

/-- A change that takes nothing away leaves every directory where it is. -/
theorem grows_edit {c : Change} (h : c.onlyAdds = true) (config : DiskConfig) (t : Tree) :
    t.Grows (c.edit config t).1 := by
  cases c with
  | write path content cwd => exact Tree.grows_write t _ content
  | touch path cwd =>
    simp only [edit]
    split
    · exact Tree.Grows.refl t
    · exact Tree.grows_write t _ ""
  | makeDirectory path cwd => exact Tree.grows_makeDirectory t _
  | copy source target cwd => exact Tree.grows_copy t _ _
  | _ => cases h

end Change

namespace Disk

variable {σ : Type} [Store σ]

/-- The disk is as it was, or it has a new tree, which has been offered to the store. -/
def Settles (d : Disk σ) (outcome : Disk σ × Except DiskError Unit) : Prop :=
  outcome.1 = d ∨ ∃ t : Tree, (d.tree.WellFormed → t.WellFormed) ∧
    outcome = (writeBack { d with tree := t }, .ok ())

/-- **One step of a disk, settled.** -/
theorem settles_apply (d : Disk σ) (c : Change) : d.Settles (d.apply c) := by
  have happly := apply_eq d c
  cases hstored : c.isStored d.config d.tree with
  | true =>
    rw [hstored, if_pos rfl, Change.edit_of_isStored hstored] at happly
    exact Or.inr ⟨_, fun h => Change.wellFormed_edit h d.config c, happly⟩
  | false =>
    rw [hstored, if_neg Bool.false_ne_true, Change.edit_of_isStored_eq_false hstored] at happly
    exact Or.inl (congrArg Prod.fst happly)

theorem unchanged_of_error {d : Disk σ} {c : Change} {e : DiskError}
    (h : (d.apply c).2 = .error e) : (d.apply c).1 = d := by
  rcases settles_apply d c with hsame | ⟨t, -, heq⟩
  · exact hsame
  · rw [heq] at h
    cases h

theorem wellFormed_apply {d : Disk σ} (hd : d.tree.WellFormed) (c : Change) :
    (d.apply c).1.tree.WellFormed := by
  rcases settles_apply d c with hsame | ⟨t, hwf, heq⟩
  · rw [hsame]
    exact hd
  · rw [heq]
    exact hwf hd

/-- **A change that fails has changed nothing.** In particular the two edits that work in several
steps cannot fail in the middle: a walk meets no file below the first directory that it adds, and a
node that has been taken out to be moved finds its target. -/
theorem failed_change_changes_nothing (d : Disk σ) :
    (∀ c e, (d.apply c).2 = .error e → (d.apply c).1 = d) ∧
    (∀ parent name rest holder, d.tree.directory? parent = some holder →
      holder.child? name = none → (d.tree.addPath (parent ++ name :: rest)).2 = .ok ()) ∧
    (∀ source target, d.tree.ensureTransferable source target = .ok () →
      d.tree.ensureMovable source target = .ok () →
      ∃ n t, d.tree.takeOut? source = some (n, t) ∧ (t.place target n).2 = .ok ()) :=
  ⟨fun _ _ h => unchanged_of_error h,
    fun _ _ rest _ hholder hmissing => Tree.addPath_of_missing rest hholder hmissing,
    fun _ _ htrans hmove => Tree.place_takeOut? htrans hmove⟩

/-- On a fresh disk with the one directory `/sandbox`. -/
theorem fresh_disk_failures :
    let d := load Memory.empty DiskConfig.default
    (d.apply (.move "/sandbox" "/sandbox" "/")).2 = .error .alreadyExists ∧
      (d.apply (.move "/sandbox" "/sandbox" "/")).1 = d ∧
      (d.tree.addPath ["sandbox", "a", "b"]).2 = .ok () ∧
      ∃ n t, d.tree.takeOut? ["sandbox"] = some (n, t) ∧ (t.place ["box"] n).2 = .ok () := by
  intro d
  obtain ⟨hsame, hadd, hmove⟩ := failed_change_changes_nothing d
  have herror : (d.apply (.move "/sandbox" "/sandbox" "/")).2 = .error .alreadyExists := rfl
  have hheight : (Node.directory []).height = 0 := Node.height_eq_levels _
  have htrans : d.tree.ensureTransferable ["sandbox"] ["box"] = .ok () := by
    show Tree.ensureDepth (1 + (Node.directory []).height) = .ok ()
    rw [hheight]
    rfl
  exact ⟨herror, hsame _ _ herror, hadd ["sandbox"] "a" ["b"] [] rfl rfl,
    hmove ["sandbox"] ["box"] htrans rfl⟩

end Disk

end DiskShell
