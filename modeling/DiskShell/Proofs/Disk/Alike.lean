import DiskShell.Proofs.Disk.Step
import DiskShell.Request

/-!
Disks that differ in nothing but their stores. They answer every request alike, and are alike
afterwards: the tree that a change leaves and the result that it reports do not depend on what the
store makes of it.
-/

namespace DiskShell.Disk

variable {σ τ : Type} {d : Disk σ} {e : Disk τ}

structure Alike (d : Disk σ) (e : Disk τ) : Prop where
  tree_eq : d.tree = e.tree
  config_eq : d.config = e.config

/-- Two outcomes that show no difference: disks that are alike, and the same result. -/
def AlikeWith {α : Type} (x : Disk σ × α) (y : Disk τ × α) : Prop :=
  x.1.Alike y.1 ∧ x.2 = y.2

/-- It is enough to look at two disks with one tree and one configuration. -/
@[elab_as_elim]
theorem Alike.elim {P : Disk σ → Disk τ → Prop} (h : d.Alike e)
    (hP : ∀ t s s' config, P ⟨t, s, config⟩ ⟨t, s', config⟩) : P d e := by
  obtain ⟨t, s, config⟩ := d
  obtain ⟨t', s', config'⟩ := e
  obtain ⟨rfl, rfl⟩ := h
  exact hP t s s' config

theorem Alike.answer (h : d.Alike e) (q : Query) : d.answer q = e.answer q := by
  refine h.elim fun t s s' config => ?_
  cases q <;> rfl

variable [Store σ] [Store τ]

theorem Alike.apply (h : d.Alike e) (c : Change) : AlikeWith (d.apply c) (e.apply c) := by
  rw [apply_eq, apply_eq, h.tree_eq, h.config_eq]
  exact ⟨⟨rfl, rfl⟩, rfl⟩

theorem Alike.perform (h : d.Alike e) (r : Request) : AlikeWith (d.perform r) (e.perform r) := by
  cases r with
  | change c =>
    obtain ⟨hdisk, hresult⟩ := h.apply c
    exact ⟨hdisk, congrArg Answer.result hresult⟩
  | query q => exact ⟨h, h.answer q⟩

end DiskShell.Disk
