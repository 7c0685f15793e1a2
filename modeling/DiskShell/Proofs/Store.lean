import DiskShell.Proofs.Lookup
import DiskShell.Store

/-!
Stores that set exactly the key that they are given or refuse and change nothing. The store in memory
is one, and so is every faulty one. A recorder stands in front of any store and notes down what it is
asked to save.
-/

namespace DiskShell

/-- A store whose values can be seen. A value that is saved is set under its key and counted, or it
is refused and nothing changes. -/
class KeyedStore (σ : Type) extends Store σ where
  value? : σ → String → Option String
  writes : σ → Nat
  save_cases (s : σ) (key value : String) :
    (∃ e, save s key value = (s, .error e)) ∨
      ∃ s', save s key value = (s', .ok ()) ∧ writes s' = writes s + 1 ∧
        ∀ k, value? s' k = if k = key then some value else value? s k

namespace Memory

theorem get?_set (s : Memory) (key value k : String) :
    (s.set key value).get? k = if k = key then some value else s.get? k := by
  have hwithout : (s.without key).lookup k = if k != key then s.entries.lookup k else none :=
    lookup_filter_fst (fun m => m != key) s.entries k
  rw [get?, set, lookup_cons_eq, hwithout]
  by_cases hk : k = key
  · rw [if_pos hk, if_pos hk.symm]
  · rw [if_neg hk, if_neg fun he => hk he.symm, if_pos (bne_iff_ne.mpr hk), get?]

instance : KeyedStore Memory where
  value? := get?
  writes := writes
  save_cases s key value := Or.inr ⟨s.set key value, rfl, rfl, s.get?_set key value⟩

end Memory

instance : KeyedStore FaultyStore where
  value? s := s.memory.get?
  writes s := s.memory.writes
  save_cases s key value := by
    cases hrefuses : FaultyStore.refusesSave s.fault value with
    | true => exact Or.inl ⟨.write key "quota exceeded", by simp [Store.save, hrefuses]⟩
    | false =>
      refine Or.inr ⟨⟨s.memory.set key value, s.fault⟩, by simp [Store.save, hrefuses], rfl, ?_⟩
      exact s.memory.get?_set key value

/-! ## Recorders -/

/-- A request to save a value, and whether the store has taken it. -/
structure SaveCall where
  key : String
  value : String
  taken : Bool
  deriving DecidableEq, Repr

structure Recorder (σ : Type) where
  store : σ
  calls : List SaveCall

instance {σ : Type} [Store σ] : Store (Recorder σ) where
  load r key := Store.load r.store key
  save r key value :=
    let (store, result) := Store.save r.store key value
    (⟨store, r.calls ++ [⟨key, value, result.isOk⟩]⟩, result)
  erase r key :=
    let (store, result) := Store.erase r.store key
    (⟨store, r.calls⟩, result)

end DiskShell
