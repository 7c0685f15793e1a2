import DiskShell.Json.Numeral

/-!
The tokens of a JSON text. The text is read one character at a time: a mode says which token is
being read, and a character that cannot continue it is refused.
-/

namespace DiskShell.Json

inductive Token where
  | openArray
  | closeArray
  | openObject
  | closeObject
  | comma
  | colon
  | null
  | bool (b : Bool)
  | number (n : Numeral)
  | text (s : Option String)
  deriving DecidableEq, Repr

/-! ## Texts -/

def isHighSurrogate (n : Nat) : Bool := 0xD800 ≤ n && n < 0xDC00

def isLowSurrogate (n : Nat) : Bool := 0xDC00 ≤ n && n < 0xE000

/-- The characters that code units stand for, put before `after`; the units come latest first. Only
a high surrogate right before a low one makes a character. -/
def joinUnits (after : List Char) : List Nat → Option (List Char)
  | [] => some after
  | u :: units =>
    if isLowSurrogate u then
      match units with
      | [] => none
      | v :: rest =>
        if isHighSurrogate v then
          joinUnits (Char.ofNat (0x10000 + (v - 0xD800) * 0x400 + (u - 0xDC00)) :: after) rest
        else none
    else if isHighSurrogate u then none
    else joinUnits (Char.ofNat u :: after) units

def textOfUnits (units : List Nat) : Option String :=
  (joinUnits [] units).map String.ofList

/-- The unit that a backslash and this character stand for. -/
def shortEscape? (c : Char) : Option Nat :=
  match c with
  | '"' | '\\' | '/' => some c.toNat
  | 'b' => some 0x08
  | 'f' => some 0x0C
  | 'n' => some 0x0A
  | 'r' => some 0x0D
  | 't' => some 0x09
  | _ => none

/-! ## Digits -/

def digit? (c : Char) : Option (Fin 10) :=
  if c.isDigit then some (Fin.ofNat 10 (c.toNat - 48)) else none

def hexDigit? (c : Char) : Option Nat :=
  if c.isDigit then some (c.toNat - 48)
  else if 'a' ≤ c && c ≤ 'f' then some (c.toNat - 87)
  else if 'A' ≤ c && c ≤ 'F' then some (c.toNat - 55)
  else none

/-! ## Modes -/

/-- What is being read. Units and digits after the point are held latest first. -/
inductive Mode where
  | between
  | word (rest : List Char) (token : Token)
  | minus
  | whole (n : Numeral)
  | point (n : Numeral)
  | fraction (n : Numeral) (digits : List (Fin 10))
  | mark (n : Numeral)
  | markSign (n : Numeral) (negative : Bool)
  | exponent (n : Numeral) (negative : Bool) (e : Nat)
  | text (units : List Nat)
  | escape (units : List Nat)
  | hex (units : List Nat) (missing value : Nat)
  deriving DecidableEq, Repr

/-- The numeral that has been read, if it may end here. -/
def Mode.numeral? : Mode → Option Numeral
  | .whole n => some n
  | .fraction n digits => some { n with fraction := digits.reverse }
  | .exponent n negative e => some { n with exponent := some (if negative then -(e : Int) else e) }
  | _ => none

/-- A mode, and the tokens that are complete, latest first. -/
structure Lexer where
  mode : Mode
  done : List Token
  deriving DecidableEq, Repr

def isSpace (c : Char) : Bool :=
  c = ' ' || c = '\t' || c = '\n' || c = '\r'

/-- The first character of a token, or a space before it. -/
def begin (done : List Token) (c : Char) : Option Lexer :=
  if isSpace c then some ⟨.between, done⟩
  else match c with
    | '[' => some ⟨.between, .openArray :: done⟩
    | ']' => some ⟨.between, .closeArray :: done⟩
    | '\x7b' => some ⟨.between, .openObject :: done⟩
    | '\x7d' => some ⟨.between, .closeObject :: done⟩
    | ',' => some ⟨.between, .comma :: done⟩
    | ':' => some ⟨.between, .colon :: done⟩
    | '"' => some ⟨.text [], done⟩
    | 'n' => some ⟨.word ['u', 'l', 'l'] .null, done⟩
    | 't' => some ⟨.word ['r', 'u', 'e'] (.bool true), done⟩
    | 'f' => some ⟨.word ['a', 'l', 's', 'e'] (.bool false), done⟩
    | '-' => some ⟨.minus, done⟩
    | c => (digit? c).map fun d => ⟨.whole ⟨false, d, [], none⟩, done⟩

/-- A character that does not continue a numeral ends it and begins the next token. -/
def endNumeral (m : Mode) (done : List Token) (c : Char) : Option Lexer :=
  m.numeral?.bind fun n => begin (.number n :: done) c

def Lexer.step (l : Lexer) (c : Char) : Option Lexer :=
  match l.mode with
  | .between => begin l.done c
  | .word [] token => begin (token :: l.done) c
  | .word (x :: rest) token =>
    if c = x then
      if rest.isEmpty then some ⟨.between, token :: l.done⟩ else some ⟨.word rest token, l.done⟩
    else none
  | .minus => (digit? c).map fun d => ⟨.whole ⟨true, d, [], none⟩, l.done⟩
  | .whole n =>
    match digit? c with
    | some d =>
      if n.whole = 0 then none else some ⟨.whole { n with whole := n.whole * 10 + d }, l.done⟩
    | none =>
      if c = '.' then some ⟨.point n, l.done⟩
      else if c = 'e' || c = 'E' then some ⟨.mark n, l.done⟩
      else endNumeral l.mode l.done c
  | .point n => (digit? c).map fun d => ⟨.fraction n [d], l.done⟩
  | .fraction n digits =>
    match digit? c with
    | some d => some ⟨.fraction n (d :: digits), l.done⟩
    | none =>
      if c = 'e' || c = 'E' then some ⟨.mark { n with fraction := digits.reverse }, l.done⟩
      else endNumeral l.mode l.done c
  | .mark n =>
    if c = '+' then some ⟨.markSign n false, l.done⟩
    else if c = '-' then some ⟨.markSign n true, l.done⟩
    else (digit? c).map fun d => ⟨.exponent n false d, l.done⟩
  | .markSign n negative => (digit? c).map fun d => ⟨.exponent n negative d, l.done⟩
  | .exponent n negative e =>
    match digit? c with
    | some d => some ⟨.exponent n negative (e * 10 + d), l.done⟩
    | none => endNumeral l.mode l.done c
  | .text units =>
    if c = '"' then some ⟨.between, .text (textOfUnits units) :: l.done⟩
    else if c = '\\' then some ⟨.escape units, l.done⟩
    else if c.toNat < 0x20 then none
    else some ⟨.text (c.toNat :: units), l.done⟩
  | .escape units =>
    if c = 'u' then some ⟨.hex units 4 0, l.done⟩
    else (shortEscape? c).map fun u => ⟨.text (u :: units), l.done⟩
  | .hex units missing value =>
    (hexDigit? c).map fun d =>
      if missing ≤ 1 then ⟨.text ((value * 16 + d) :: units), l.done⟩
      else ⟨.hex units (missing - 1) (value * 16 + d), l.done⟩

/-- At the end of the text nothing but a numeral may be open. -/
def Lexer.finish (l : Lexer) : Option (List Token) :=
  match l.mode with
  | .between => some l.done.reverse
  | m => m.numeral?.map fun n => (.number n :: l.done).reverse

def Lexer.run (l : Lexer) : List Char → Option (List Token)
  | [] => l.finish
  | c :: cs =>
    match l.step c with
    | some l => l.run cs
    | none => none

def tokens? (cs : List Char) : Option (List Token) :=
  Lexer.run ⟨.between, []⟩ cs

end DiskShell.Json
