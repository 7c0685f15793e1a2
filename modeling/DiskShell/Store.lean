import DiskShell.Error

/-!
Stores that keep texts under keys. A store may refuse any request. The store in memory refuses none
and counts what is written to it; a faulty store adds one fault to it.
-/

namespace DiskShell

class Store (σ : Type) where
  load : σ → String → Except StoreError (Option String)
  save : σ → String → String → σ × Except StoreError Unit
  erase : σ → String → σ × Except StoreError Unit

/-! ## Memory -/

structure Memory where
  entries : List (String × String)
  writes : Nat
  deriving DecidableEq, Repr

namespace Memory

def empty : Memory := ⟨[], 0⟩

/-- What a store holds from the start does not count as written. -/
def ofEntry (key value : String) : Memory := ⟨[(key, value)], 0⟩

def get? (s : Memory) (key : String) : Option String := s.entries.lookup key

def without (s : Memory) (key : String) : List (String × String) :=
  s.entries.filter fun e => e.1 != key

def set (s : Memory) (key value : String) : Memory :=
  ⟨(key, value) :: s.without key, s.writes + 1⟩

def drop (s : Memory) (key : String) : Memory :=
  { s with entries := s.without key }

instance : Store Memory where
  load s key := .ok (s.get? key)
  save s key value := (s.set key value, .ok ())
  erase s key := (s.drop key, .ok ())

end Memory

/-! ## Faults -/

inductive Fault where
  | none
  | readOnly
  | noLoad
  | quota (limit : Nat)
  deriving DecidableEq, Repr

structure FaultyStore where
  memory : Memory
  fault : Fault
  deriving DecidableEq, Repr

namespace FaultyStore

/-- A quota bounds the bytes of each value. -/
def refusesSave (f : Fault) (value : String) : Bool :=
  match f with
  | .readOnly => true
  | .quota limit => limit < value.utf8ByteSize
  | _ => false

instance : Store FaultyStore where
  load s key :=
    if s.fault = .noLoad then .error (.unavailable "no window") else Store.load s.memory key
  save s key value :=
    if refusesSave s.fault value then (s, .error (.write key "quota exceeded"))
    else
      let (memory, result) := Store.save s.memory key value
      ({ s with memory := memory }, result)
  erase s key :=
    let (memory, result) := Store.erase s.memory key
    ({ s with memory := memory }, result)

end FaultyStore

end DiskShell
