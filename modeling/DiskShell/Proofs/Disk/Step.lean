import DiskShell.Disk

/-!
One step of a disk, taken apart: what a change comes to on the tree alone (`Change.edit`), and what
it asks of the store (`apply_eq`). Nothing that the store answers comes back.
-/

namespace DiskShell

namespace Change

/-- What a change comes to on the tree alone. -/
def edit (config : DiskConfig) (t : Tree) : Change → Edited
  | .write path content cwd => t.write (Path.resolve path cwd) content
  | .touch path cwd =>
    if t.exists? (Path.resolve path cwd) then (t, .ok ())
    else t.write (Path.resolve path cwd) ""
  | .makeDirectory path cwd => t.makeDirectory (Path.resolve path cwd)
  | .remove path cwd => t.remove (Path.resolve path cwd) false
  | .removeDirectory path cwd => t.remove (Path.resolve path cwd) true
  | .move source target cwd => t.move (Path.resolve source cwd) (Path.resolve target cwd)
  | .copy source target cwd => t.copy (Path.resolve source cwd) (Path.resolve target cwd)
  | .reset => (Tree.ofPaths config.seedDirectories, .ok ())

/-- A touch that finds a node has nothing to do. -/
def isIdle (t : Tree) : Change → Bool
  | .touch path cwd => t.exists? (Path.resolve path cwd)
  | _ => false

/-- Whether the tree is to be stored: the change has succeeded and had something to do. -/
def isStored (config : DiskConfig) (t : Tree) (c : Change) : Bool :=
  (c.edit config t).2.isOk && !c.isIdle t

end Change

namespace Disk

variable {σ : Type} [Store σ]

theorem commit_eq (d : Disk σ) (edited : Edited) :
    d.commit edited =
      (⟨edited.1, if edited.2.isOk then (Store.save d.store d.config.storageKey edited.1.encode).1
        else d.store, d.config⟩, edited.2) := by
  obtain ⟨t, result⟩ := edited
  cases result <;> rfl

/-- **One step of a disk.** Tree and result are those of the edit, whatever the store answers, and
the store is asked once or not at all. -/
theorem apply_eq (d : Disk σ) (c : Change) :
    d.apply c =
      (⟨(c.edit d.config d.tree).1,
        if c.isStored d.config d.tree then
          (Store.save d.store d.config.storageKey (c.edit d.config d.tree).1.encode).1
        else d.store, d.config⟩, (c.edit d.config d.tree).2) := by
  cases c with
  | touch path cwd =>
    show d.touch path cwd = _
    cases hexists : d.tree.exists? (Path.resolve path cwd) with
    | true => simp [touch, Change.edit, Change.isStored, Change.isIdle, hexists]
    | false =>
      have hwrite := commit_eq d (d.tree.write (Path.resolve path cwd) "")
      simpa [touch, write, Change.edit, Change.isStored, Change.isIdle, hexists] using hwrite
  | reset => rfl
  | _ =>
    simp only [Change.isStored, Change.isIdle, Bool.not_false, Bool.and_true]
    exact commit_eq d _

end Disk

end DiskShell
