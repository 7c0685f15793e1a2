import DiskShell.Json.Basic

/-!
The compact text of a document: no spaces, and only those characters escaped that must be.
-/

namespace DiskShell.Json

/-- The characters below U+0020 without a short escape are written with four hexadecimal digits. -/
def escape (c : Char) : List Char :=
  if c = '"' then ['\\', '"']
  else if c = '\\' then ['\\', '\\']
  else if c = '\x08' then ['\\', 'b']
  else if c = '\t' then ['\\', 't']
  else if c = '\n' then ['\\', 'n']
  else if c = '\x0c' then ['\\', 'f']
  else if c = '\r' then ['\\', 'r']
  else if c.toNat < 0x20 then
    ['\\', 'u', '0', '0', Nat.digitChar (c.toNat / 16), Nat.digitChar (c.toNat % 16)]
  else [c]

/-- A missing text is written as one unpaired escape. -/
def textChars : Option String → List Char
  | some s => '"' :: s.toList.flatMap escape ++ ['"']
  | none => ['"', '\\', 'u', 'd', '8', '0', '0', '"']

def Numeral.chars (n : Numeral) : List Char :=
  (if n.negative then ['-'] else []) ++ Nat.toDigits 10 n.whole ++
    (if n.fraction.isEmpty then []
      else '.' :: n.fraction.map fun d => d.val.digitChar) ++
    match n.exponent with
    | none => []
    | some (.ofNat e) => 'e' :: Nat.toDigits 10 e
    | some (.negSucc e) => 'e' :: '-' :: Nat.toDigits 10 (e + 1)

mutual

def chars : Json → List Char
  | .null => ['n', 'u', 'l', 'l']
  | .bool true => ['t', 'r', 'u', 'e']
  | .bool false => ['f', 'a', 'l', 's', 'e']
  | .number n => n.chars
  | .text s => textChars s
  | .array [] => ['[', ']']
  | .array (j :: rest) => '[' :: j.chars ++ itemChars rest
  | .object [] => ['\x7b', '\x7d']
  | .object ((key, j) :: rest) => '\x7b' :: textChars key ++ ':' :: j.chars ++ memberChars rest

/-- The items after the first, and the closing bracket. -/
def itemChars : List Json → List Char
  | [] => [']']
  | j :: rest => ',' :: j.chars ++ itemChars rest

/-- The members after the first, and the closing brace. -/
def memberChars : Members → List Char
  | [] => ['\x7d']
  | (key, j) :: rest => ',' :: textChars key ++ ':' :: j.chars ++ memberChars rest

end

def print (j : Json) : String := String.ofList j.chars

end DiskShell.Json
