/-!
The nesting of a text, counted from its brackets without reading the document. It tells how deep a
document would be before anything is built.
-/

namespace DiskShell.Json

/-- Where the count stands: outside a string, inside one, or right after a backslash inside one. -/
inductive Place where
  | outside
  | inside
  | escaped
  deriving DecidableEq, Repr

/-- How many brackets are open, and the most that were open at once. -/
structure Nesting where
  place : Place
  depth : Nat
  deepest : Nat
  deriving DecidableEq, Repr

def Nesting.step (n : Nesting) (c : Char) : Nesting :=
  match n.place with
  | .escaped => { n with place := .inside }
  | .inside =>
    if c = '\\' then { n with place := .escaped }
    else if c = '"' then { n with place := .outside }
    else n
  | .outside =>
    if c = '"' then { n with place := .inside }
    else if c = '[' || c = '\x7b' then ⟨.outside, n.depth + 1, max n.deepest (n.depth + 1)⟩
    else if c = ']' || c = '\x7d' then { n with depth := n.depth - 1 }
    else n

def nesting (cs : List Char) : Nat :=
  (cs.foldl Nesting.step ⟨.outside, 0, 0⟩).deepest

end DiskShell.Json
