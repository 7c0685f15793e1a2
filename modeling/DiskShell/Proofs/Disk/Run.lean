import DiskShell.Proofs.Disk.Change
import DiskShell.Proofs.Document
import DiskShell.Request

/-!
Runs of requests on a disk that has been loaded from a store. Whatever the store answers and however
the requests turn out, the tree stays well formed, so that it can always be stored and read back. On
a store in memory this makes loading again invisible: either nothing has been written and the store
answers as before, or it answers with the text of the tree.
-/

namespace DiskShell.Disk

variable {σ : Type} [Store σ]

/-- What holds of a disk and is kept by every change holds after every run. -/
theorem run_induction {P : Disk σ → Prop} {d : Disk σ} (hd : P d)
    (hstep : ∀ (d : Disk σ) (c : Change), P d → P (d.apply c).1) (requests : List Request) :
    P (d.run requests).1 := by
  induction requests generalizing d with
  | nil => exact hd
  | cons r rest ih =>
    cases r with
    | change c => exact ih (hstep d c hd)
    | query q => exact ih hd

/-! ## Well-formed trees -/

theorem wellFormed_restore (config : DiskConfig) (loaded : Except StoreError (Option String)) :
    (restore config loaded).WellFormed := by
  unfold restore
  split
  · split
    · next t ht => exact Tree.wellFormed_of_decode ht
    · exact Tree.wellFormed_ofPaths config.seedDirectories
  · exact Tree.wellFormed_ofPaths config.seedDirectories

theorem wellFormed_run (store : σ) (config : DiskConfig) (requests : List Request) :
    ((load store config).run requests).1.tree.WellFormed :=
  run_induction (P := fun d => d.tree.WellFormed) (wellFormed_restore config _)
    (fun _ c hd => wellFormed_apply hd c) requests

/-- **The tree is well formed throughout every run**, and its text is never refused. -/
theorem wellFormed_throughout (store : σ) (config : DiskConfig) (requests : List Request) :
    let t := ((load store config).run requests).1.tree
    t.WellFormed ∧ t.node? [] = some (.directory t) ∧ t.toRecord.name = "" ∧
      Json.nesting t.encode.toList ≤ 386 ∧ Tree.decode t.encode = .ok t := by
  have hwf := wellFormed_run store config requests
  have hnesting := (Tree.nesting_encode_le_iff _).mpr hwf.shallow
  exact ⟨hwf, rfl, rfl, hnesting, Tree.decode_encode hwf⟩

/-! ## Loading again -/

/-- The disk can be dropped and loaded again from its store. -/
structure Reloadable (config : DiskConfig) (d : Disk Memory) : Prop where
  wellFormed : d.tree.WellFormed
  load_eq : load d.store config = d

theorem reloadable_load (store : Memory) (config : DiskConfig) :
    Reloadable config (load store config) :=
  ⟨wellFormed_restore config _, rfl⟩

theorem load_set (store : Memory) (key value : String) :
    Store.load (store.set key value) key = .ok (some value) := by
  simp [Store.load, Memory.get?, Memory.set]

/-- A tree that has been written is the one that is loaded. -/
theorem reloadable_writeBack {d : Disk Memory} (hd : d.tree.WellFormed) :
    Reloadable d.config d.writeBack := by
  refine ⟨hd, ?_⟩
  have hload : Store.load d.writeBack.store d.config.storageKey = .ok (some d.tree.encode) :=
    load_set d.store d.config.storageKey d.tree.encode
  have htree : restore d.config (.ok (some d.tree.encode)) = d.tree := by
    simp only [restore, Tree.decode_encode hd]
  rw [load, hload, htree]
  rfl

theorem Reloadable.apply {config : DiskConfig} {d : Disk Memory} (hd : Reloadable config d)
    (c : Change) : Reloadable config (d.apply c).1 := by
  rcases settles_apply d c with hsame | ⟨t, hwf, heq⟩
  · rw [hsame]
    exact hd
  · have hconfig : d.config = config := by
      rw [← hd.load_eq]
      rfl
    have hwritten := @reloadable_writeBack { d with tree := t } (hwf hd.wellFormed)
    rw [heq, ← hconfig]
    exact hwritten

/-- **Loading again is invisible**, at every point of every run. -/
theorem load_again_eq (store : Memory) (config : DiskConfig) (requests : List Request) :
    let d := ((load store config).run requests).1
    load d.store config = d := by
  have hrun := run_induction (reloadable_load store config) (fun _ c hd => hd.apply c) requests
  exact hrun.load_eq

end DiskShell.Disk
