import DiskShell.Json.Basic
import DiskShell.Json.Token

/-!
Documents from tokens. The brackets that are open are kept as a list of frames, innermost first, so
that a bound on the depth of a document is a bound on that list.
-/

namespace DiskShell.Json

/-- An open bracket with what has been read inside it, latest first. An object waits for the value
of `key`. -/
inductive Frame where
  | array (items : List Json)
  | object (members : Members) (key : Option String)

/-- What may come next. `outer` holds the brackets that are open around it. -/
inductive Stage where
  | value (outer : List Frame)
  | firstItem (outer : List Frame)
  | afterItem (outer : List Frame) (items : List Json)
  | firstKey (outer : List Frame)
  | key (outer : List Frame) (members : Members)
  | colon (outer : List Frame) (members : Members) (key : Option String)
  | afterMember (outer : List Frame) (members : Members)
  | done (j : Json)

/-- The stage after a value. -/
def deliver (j : Json) : List Frame → Stage
  | [] => .done j
  | .array items :: outer => .afterItem outer (j :: items)
  | .object members key :: outer => .afterMember outer ((key, j) :: members)

/-- Whether one more bracket may be opened. Without a limit it always may. -/
def hasRoom (limit : Option Nat) (outer : List Frame) : Bool :=
  match limit with
  | none => true
  | some n => outer.length < n

def readValue (limit : Option Nat) (outer : List Frame) : Token → Option Stage
  | .null => some (deliver .null outer)
  | .bool b => some (deliver (.bool b) outer)
  | .number n => some (deliver (.number n) outer)
  | .text s => some (deliver (.text s) outer)
  | .openArray => if hasRoom limit outer then some (.firstItem outer) else none
  | .openObject => if hasRoom limit outer then some (.firstKey outer) else none
  | _ => none

def Stage.step (limit : Option Nat) : Stage → Token → Option Stage
  | .value outer, t => readValue limit outer t
  | .firstItem outer, .closeArray => some (deliver (.array []) outer)
  | .firstItem outer, t => readValue limit (.array [] :: outer) t
  | .afterItem outer items, .comma => some (.value (.array items :: outer))
  | .afterItem outer items, .closeArray => some (deliver (.array items.reverse) outer)
  | .firstKey outer, .closeObject => some (deliver (.object []) outer)
  | .firstKey outer, .text k => some (.colon outer [] k)
  | .key outer members, .text k => some (.colon outer members k)
  | .colon outer members k, .colon => some (.value (.object members k :: outer))
  | .afterMember outer members, .comma => some (.key outer members)
  | .afterMember outer members, .closeObject => some (deliver (.object members.reverse) outer)
  | _, _ => none

def Stage.run (limit : Option Nat) (s : Stage) : List Token → Option Json
  | [] =>
    match s with
    | .done j => some j
    | _ => none
  | t :: ts =>
    match s.step limit t with
    | some s => s.run limit ts
    | none => none

/-- The document that a text holds. With a limit, at most that many brackets may be open at once. -/
def parse? (limit : Option Nat) (s : String) : Option Json :=
  (tokens? s.toList).bind (Stage.run limit (.value []))

/-- Like `parse?`, for documents that are values. -/
def parseValue? (limit : Option Nat) (s : String) : Option Json :=
  (parse? limit s).filter isValue

end DiskShell.Json
