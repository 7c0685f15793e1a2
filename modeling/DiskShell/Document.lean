import DiskShell.Config
import DiskShell.Json.Nesting
import DiskShell.Json.Parser
import DiskShell.Json.Printer
import DiskShell.Record
import DiskShell.Tree

/-!
The text that a tree is stored as. A text is refused before it is read if it is nested deeper than
the text of any tree can be.
-/

namespace DiskShell

/-- Each name on a path costs three brackets: the children, the pair and the node. A directory at
the end of the longest path has its own two on top. -/
def nestingLimit : Nat := 3 * depthLimit + 2

inductive DocumentError where
  | tooDeep (nesting : Nat)
  | unreadable
  | notANode
  | notADirectory
  deriving DecidableEq, Repr

/-- What exactly is wrong with a text that cannot be read is not told. -/
def DocumentError.toStoreError : DocumentError → StoreError
  | tooDeep n =>
    .serialization s!"document nested {n} levels deep, limit is {nestingLimit}"
  | unreadable => .serialization "*"
  | notANode => .serialization "persisted root is not a node"
  | notADirectory => .serialization "persisted root is not a directory"

namespace Tree

def toRecord (t : Tree) : Record := .directory "" (Record.ofEntries t)

def encode (t : Tree) : String := t.toRecord.toJson.print

def ofRecord : Record → Except DocumentError Tree
  | .file _ _ => .error .notADirectory
  | .directory _ children => .ok (Record.insertAll [] children)

def decode (s : String) : Except DocumentError Tree :=
  let nesting := Json.nesting s.toList
  if nestingLimit < nesting then .error (.tooDeep nesting)
  else match Json.parseValue? none s with
    | none => .error .unreadable
    | some j =>
      match Record.ofJson? j with
      | none => .error .notANode
      | some r => ofRecord r

end Tree

/-- The number of brackets that may be open in the text of a single record. -/
def recordNestingLimit : Nat := 127

/-- A record given as a text of its own. -/
def Record.ofText? (s : String) : Option Record :=
  (Json.parseValue? (some recordNestingLimit) s).bind Record.ofJson?

end DiskShell
