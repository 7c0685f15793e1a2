import DiskShell.Text.Casing

/-! Lower case for whole texts, and equality of texts up to the case of the letters A to Z. -/

namespace DiskShell.Text

/-- The lower-case form of one character alone. The dotted capital I (U+0130) becomes two. -/
def lowerForm (c : Char) : List Char :=
  if c.toNat = 0x130 then ['i', Char.ofNat 0x307]
  else match lowerRuns.find? fun r => r.holds c.toNat with
    | some r => [Char.ofNat (c.toNat + r.shift).toNat]
    | none => [c]

/-- Whether the nearest character that is not passed over has a case. -/
def meetsCased (cs : List Char) : Bool :=
  match cs.dropWhile isCaseIgnorable with
  | c :: _ => isCased c
  | [] => false

/-- A capital sigma ends a word if a letter comes before it and none after it. -/
def endsWord (before after : List Char) : Bool :=
  meetsCased before && !meetsCased after

/-- The lower-case form of a text; `before` holds what came before it, nearest first. -/
def lowerAfter (before : List Char) : List Char → List Char
  | [] => []
  | c :: after =>
    (if c = 'Σ' then [if endsWord before after then 'ς' else 'σ'] else lowerForm c) ++
      lowerAfter (c :: before) after

def lowercase (s : String) : String :=
  String.ofList (lowerAfter [] s.toList)

/-- Equality up to the case of the letters A to Z; all other characters stand for themselves. -/
def sameLetters (s t : String) : Bool :=
  s.toList.map Char.toLower == t.toList.map Char.toLower

end DiskShell.Text
