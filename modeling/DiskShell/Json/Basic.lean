import DiskShell.Json.Numeral

/-!
JSON documents. An object keeps its members as they are written, repeated keys included; a look-up
takes the last. The text of a string or key is missing if an escape in it names half of a surrogate
pair without the other half. A document is a value if no text is missing and no numeral is out of
range.
-/

namespace DiskShell

inductive Json where
  | null
  | bool (b : Bool)
  | number (n : Json.Numeral)
  | text (s : Option String)
  | array (items : List Json)
  | object (members : List (Option String × Json))
  deriving Repr

namespace Json

abbrev Members := List (Option String × Json)

/-- The last member with the key `name`. -/
def field? (name : String) (members : Members) : Option Json :=
  members.reverse.lookup (some name)

def text? : Json → Option String
  | .text s => s
  | _ => none

/-! ## Building -/

def ofString (s : String) : Json := .text (some s)

def ofNat (n : Nat) : Json := .number (Numeral.ofNat n)

def ofList (f : α → Json) (xs : List α) : Json := .array (xs.map f)

def ofStrings (xs : List String) : Json := ofList ofString xs

def ofOption (f : α → Json) : Option α → Json
  | none => .null
  | some a => f a

def record (fields : List (String × Json)) : Json :=
  .object (fields.map fun f => (some f.1, f.2))

/-! ## Values -/

mutual

def isValue : Json → Bool
  | .number n => n.inRange
  | .text s => s.isSome
  | .array items => areValues items
  | .object members => haveValues members
  | _ => true

def areValues : List Json → Bool
  | [] => true
  | j :: rest => j.isValue && areValues rest

def haveValues : Members → Bool
  | [] => true
  | (key, j) :: rest => key.isSome && j.isValue && haveValues rest

end

/-! ## Depth -/

mutual

/-- How many arrays and objects are open at once where the document is deepest. -/
def depth : Json → Nat
  | .array items => 1 + depthOfItems items
  | .object members => 1 + depthOfMembers members
  | _ => 0

def depthOfItems : List Json → Nat
  | [] => 0
  | j :: rest => max j.depth (depthOfItems rest)

def depthOfMembers : Members → Nat
  | [] => 0
  | (_, j) :: rest => max j.depth (depthOfMembers rest)

end

end Json

end DiskShell
