import DiskShell.Json.Basic

/-!
Records, tagged values and plain values read from documents. A record is an object that names its
fields, or an array that lists them in order. An object may hold more members than the record has
fields, and it may leave fields out; an array may only break off early, and only before fields that
have a default.
-/

namespace DiskShell.Json

/-! ## Plain values -/

/-- Numbers are natural numbers of 64 bits, written with digits only. -/
def natural? : Json → Option Nat
  | .number n => n.natural?.filter fun n => n < Numeral.wordLimit
  | _ => none

def bool? : Json → Option Bool
  | .bool b => some b
  | _ => none

def list? (read : Json → Option α) : Json → Option (List α)
  | .array items => items.mapM read
  | _ => none

def strings? : Json → Option (List String) := list? text?

/-- A value that `null` stands in for when there is none. -/
def option? (read : Json → Option α) : Json → Option (Option α)
  | .null => some none
  | j => (read j).map some

/-! ## Records -/

/-- The fields that were found. In an array, fields that are missing were cut off. -/
structure Fields where
  found : List (String × Json)
  listed : Bool

/-- The members that are fields. A field may not occur twice. -/
def namedFields? (names : List String) (members : Members) : Option (List (String × Json)) :=
  if members.all fun m => m.1.isSome then
    let found := members.filterMap fun m => m.1.bind fun key =>
      if names.contains key then some (key, m.2) else none
    if (found.map Prod.fst).Nodup then some found else none
  else none

def fields? (names : List String) : Json → Option Fields
  | .object members => (namedFields? names members).map fun found => ⟨found, false⟩
  | .array items => if items.length ≤ names.length then some ⟨names.zip items, true⟩ else none
  | _ => none

namespace Fields

def required? (fs : Fields) (name : String) (read : Json → Option α) : Option α :=
  (fs.found.lookup name).bind read

/-- A field that an object may leave out. -/
def optional? (fs : Fields) (name : String) (read : Json → Option α) : Option (Option α) :=
  match fs.found.lookup name with
  | some j => option? read j
  | none => if fs.listed then none else some none

/-- A field with a default. -/
def orDefault? (fs : Fields) (name : String) (read : Json → Option α) (default : α) : Option α :=
  match fs.found.lookup name with
  | some j => read j
  | none => some default

end Fields

/-! ## Tagged values -/

/-- A tag alone, or an object with one member that holds the tag and its content. -/
def tagged? : Json → Option (String × Option Json)
  | .text (some tag) => some (tag, none)
  | .object [(some tag, content)] => some (tag, some content)
  | _ => none

/-- Whether a tag that has no content has none. -/
def isBare : Option Json → Bool
  | none => true
  | some .null => true
  | some _ => false

end DiskShell.Json
