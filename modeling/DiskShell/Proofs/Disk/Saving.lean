import DiskShell.Proofs.Disk.Step
import DiskShell.Proofs.Store
import DiskShell.Request

/-!
What a run asks of the store. Each change that succeeds and had something to do offers the new tree
to the store, once, under the configured key; nothing else is saved (`recorded_after`). On a store
that sets the key or refuses, the key therefore holds the latest tree that was taken
(`value?_after`).
-/

namespace DiskShell

/-- What can be done with a disk: a request, or loading it again from its store. -/
inductive Operation where
  | request (r : Request)
  | reload
  deriving DecidableEq, Repr

/-- A tree that is offered to the store, and whether the store takes it. -/
structure Offer where
  tree : Tree
  taken : Bool

namespace Offer

def call (key : String) (o : Offer) : SaveCall := ⟨key, o.tree.encode, o.taken⟩

/-- The latest tree that was taken. -/
def latest? (offers : List Offer) : Option Tree := (offers.filter taken).getLast?.map tree

theorem latest?_append (offers more : List Offer) :
    latest? (offers ++ more) = (latest? more).or (latest? offers) := by
  rw [latest?, List.filter_append, List.getLast?_append, Option.map_or]
  rfl

end Offer

namespace Disk

section

variable {σ : Type} [Store σ]

def proceed (d : Disk σ) : Operation → Disk σ
  | .request r => (d.perform r).1
  | .reload => load d.store d.config

def after (d : Disk σ) (operations : List Operation) : Disk σ := operations.foldl proceed d

/-- Whether the new tree is to be saved: a change has succeeded, and was no touch of a node that
exists. -/
def isSaved (d : Disk σ) : Operation → Bool
  | .request (.change c) => (d.apply c).2.isOk && !c.isIdle d.tree
  | .request (.query _) => false
  | .reload => false

def offer (d : Disk σ) (o : Operation) : Offer :=
  let t := (d.proceed o).tree
  ⟨t, (Store.save d.store d.config.storageKey t.encode).2.isOk⟩

/-- The trees that a run offers to the store, one for each operation that has to be saved. -/
def offers (d : Disk σ) : List Operation → List Offer
  | [] => []
  | o :: rest => (if d.isSaved o then [d.offer o] else []) ++ offers (d.proceed o) rest

/-! ## One operation -/

theorem config_proceed (d : Disk σ) (o : Operation) : (d.proceed o).config = d.config := by
  cases o with
  | reload => rfl
  | request r =>
    cases r with
    | change c =>
      show (d.apply c).1.config = d.config
      rw [apply_eq]
    | query q => rfl

theorem isSaved_change (d : Disk σ) (c : Change) :
    d.isSaved (.request (.change c)) = c.isStored d.config d.tree := by
  rw [isSaved, apply_eq]
  rfl

/-- The store is asked to save the new tree, once, or it is left alone. -/
theorem store_proceed (d : Disk σ) (o : Operation) :
    (d.proceed o).store =
      if d.isSaved o then
        (Store.save d.store d.config.storageKey (d.proceed o).tree.encode).1
      else d.store := by
  cases o with
  | reload => rfl
  | request r =>
    cases r with
    | change c =>
      rw [isSaved_change]
      show (d.apply c).1.store = _
      simp only [proceed, perform, apply_eq]
    | query q => rfl

/-! ## Calls -/

/-- The same disk on a store that notes down what it is asked to save. -/
def recorded (d : Disk σ) (calls : List SaveCall) : Disk (Recorder σ) :=
  ⟨d.tree, ⟨d.store, calls⟩, d.config⟩

theorem recorded_proceed (d : Disk σ) (calls : List SaveCall) (o : Operation) :
    (d.recorded calls).proceed o =
      (d.proceed o).recorded
        (calls ++ if d.isSaved o then [(d.offer o).call d.config.storageKey] else []) := by
  cases o with
  | reload => simp [proceed, isSaved, recorded, load, Store.load]
  | request r =>
    cases r with
    | query q => simp [proceed, perform, isSaved]
    | change c =>
      rw [isSaved_change]
      simp only [proceed, perform, offer, Offer.call, apply_eq, recorded]
      cases c.isStored d.config d.tree with
      | true => simp [Store.save]
      | false => simp

/-- **A run saves what it offers and nothing else**, whatever the store makes of it. -/
theorem recorded_after (d : Disk σ) (calls : List SaveCall) (operations : List Operation) :
    (d.recorded calls).after operations =
      (d.after operations).recorded
        (calls ++ (d.offers operations).map (Offer.call d.config.storageKey)) := by
  induction operations generalizing d calls with
  | nil => simp [after, offers]
  | cons o rest ih =>
    have hstep := ih (d.proceed o) (calls ++ if d.isSaved o then
      [(d.offer o).call d.config.storageKey] else [])
    rw [← recorded_proceed, config_proceed] at hstep
    simp only [after, List.foldl_cons, offers] at hstep ⊢
    rw [hstep]
    cases d.isSaved o <;> simp

end

/-! ## Values -/

variable {σ : Type} [KeyedStore σ]

open KeyedStore (value? writes)

theorem value?_proceed (d : Disk σ) (o : Operation) (key : String) :
    value? (d.proceed o).store key =
      if key = d.config.storageKey then
        ((Offer.latest? (d.offers [o])).map Tree.encode).or (value? d.store key)
      else value? d.store key := by
  rw [store_proceed]
  cases hsaved : d.isSaved o with
  | false => simp [offers, hsaved, Offer.latest?]
  | true =>
    rcases KeyedStore.save_cases d.store d.config.storageKey (d.proceed o).tree.encode with
      ⟨e, he⟩ | ⟨s, hs, -, hvalue⟩
    · simp [offers, offer, hsaved, he, Offer.latest?, Except.isOk, Except.toBool]
    · simp [offers, offer, hsaved, hs, hvalue, Offer.latest?, Except.isOk, Except.toBool]

theorem writes_proceed (d : Disk σ) (o : Operation) :
    writes (d.proceed o).store = writes d.store + ((d.offers [o]).filter Offer.taken).length := by
  rw [store_proceed]
  cases hsaved : d.isSaved o with
  | false => simp [offers, hsaved]
  | true =>
    rcases KeyedStore.save_cases d.store d.config.storageKey (d.proceed o).tree.encode with
      ⟨e, he⟩ | ⟨s, hs, hwrites, -⟩
    · simp [offers, offer, hsaved, he, Except.isOk, Except.toBool]
    · simp [offers, offer, hsaved, hs, hwrites, Except.isOk, Except.toBool]

theorem offers_cons (d : Disk σ) (o : Operation) (rest : List Operation) :
    d.offers (o :: rest) = d.offers [o] ++ (d.proceed o).offers rest := by
  simp [offers]

/-- The key holds the latest tree that was taken, and every other key what it held before. -/
theorem value?_after (d : Disk σ) (operations : List Operation) (key : String) :
    value? (d.after operations).store key =
      if key = d.config.storageKey then
        ((Offer.latest? (d.offers operations)).map Tree.encode).or (value? d.store key)
      else value? d.store key := by
  induction operations generalizing d with
  | nil => simp [after, offers, Offer.latest?]
  | cons o rest ih =>
    have hrest := ih (d.proceed o)
    rw [config_proceed, value?_proceed] at hrest
    rw [offers_cons, Offer.latest?_append, Option.map_or, Option.or_assoc]
    show value? ((d.proceed o).after rest).store key = _
    rw [hrest]
    by_cases hkey : key = d.config.storageKey
    · rw [if_pos hkey, if_pos hkey, if_pos hkey]
    · rw [if_neg hkey, if_neg hkey, if_neg hkey]

theorem writes_after (d : Disk σ) (operations : List Operation) :
    writes (d.after operations).store =
      writes d.store + ((d.offers operations).filter Offer.taken).length := by
  induction operations generalizing d with
  | nil => rfl
  | cons o rest ih =>
    rw [offers_cons, List.filter_append, List.length_append, ← Nat.add_assoc, ← writes_proceed]
    exact ih (d.proceed o)

/-- **Every change is saved once, and nothing else is.** A run makes one call for each change that
has succeeded and was no touch of a node that exists: with the text of the new tree, under the
configured key. Afterwards this key holds the text of the latest tree that was taken, or what it held
at first; no other key has changed, and as many values are counted as were taken. -/
theorem saves_each_change_once (store : σ) (config : DiskConfig) (operations : List Operation) :
    let d := load store config
    let offers := d.offers operations
    (load (⟨store, []⟩ : Recorder σ) config).after operations =
        (d.after operations).recorded (offers.map (Offer.call config.storageKey)) ∧
      (∀ key, value? (d.after operations).store key =
        if key = config.storageKey then
          ((Offer.latest? offers).map Tree.encode).or (value? store key)
        else value? store key) ∧
      writes (d.after operations).store = writes store + (offers.filter Offer.taken).length := by
  intro d offers
  refine ⟨recorded_after d [] operations, fun key => ?_, writes_after d operations⟩
  exact value?_after d operations key

end Disk

end DiskShell
