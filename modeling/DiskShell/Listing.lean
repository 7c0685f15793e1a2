import DiskShell.Tree

/-! The entries of a directory as they are listed: name, kind and size. -/

namespace DiskShell

inductive Kind where
  | file
  | directory
  deriving DecidableEq, Repr

namespace Kind

def name : Kind → String
  | file => "file"
  | directory => "directory"

def toJson (k : Kind) : Json := .ofString k.name

def ofJson? (j : Json) : Option Kind := do
  let (tag, content) ← j.tagged?
  if Json.isBare content then [file, directory].find? fun k => k.name == tag else none

end Kind

def Node.kind : Node → Kind
  | file _ => .file
  | directory _ => .directory

structure ListEntry where
  name : String
  kind : Kind
  size : Nat
  deriving DecidableEq, Repr

namespace ListEntry

def ofNode (name : String) (n : Node) : ListEntry := ⟨name, n.kind, n.size⟩

def isDirectory (e : ListEntry) : Bool := e.kind == .directory

def toJson (e : ListEntry) : Json :=
  .record [("name", .ofString e.name), ("kind", e.kind.toJson), ("size", .ofNat e.size)]

def ofJson? (j : Json) : Option ListEntry := do
  let fs ← j.fields? ["name", "kind", "size"]
  return ⟨← fs.required? "name" Json.text?, ← fs.required? "kind" Kind.ofJson?,
    ← fs.required? "size" Json.natural?⟩

end ListEntry

/-- A directory is listed by its entries, a file by itself. -/
def Tree.list (t : Tree) (names : List String) : List ListEntry :=
  match t.node? names with
  | some (.directory d) => d.map fun e => .ofNode e.1 e.2
  | some n => [.ofNode (Path.lastName names) n]
  | none => []

end DiskShell
