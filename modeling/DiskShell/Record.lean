import DiskShell.Node
import DiskShell.Path

/-!
The stored form of a subtree. A record has a name of its own, and a directory's record pairs each
child with a key. Reading is lenient: what is missing becomes empty, and children that cannot be
read are left out. A tree is built from the keys; a key that cannot name a node is left out, and of
two children with one key the later takes the place of the earlier.
-/

namespace DiskShell

inductive Record where
  | file (name content : String)
  | directory (name : String) (children : List (String × Record))
  deriving Repr

namespace Record

def name : Record → String
  | file name _ => name
  | directory name _ => name

/-! ## Writing -/

mutual

def toJson : Record → Json
  | .file name content =>
    .record [("type", .ofString "file"), ("name", .ofString name), ("content", .ofString content)]
  | .directory name children =>
    .record [("type", .ofString "directory"), ("name", .ofString name),
      ("children", .array (pairsToJson children))]

def pairsToJson : List (String × Record) → List Json
  | [] => []
  | (key, r) :: rest => .array [.ofString key, r.toJson] :: pairsToJson rest

end

/-! ## Reading -/

/-- The text of a member, or the empty text. -/
def textOrEmpty (name : String) (members : Json.Members) : String :=
  ((Json.field? name members).bind Json.text?).getD ""

mutual

def ofJson? : Json → Option Record
  | .object members =>
    match (Json.field? "type" members).bind Json.text? with
    | some "file" => some (.file (textOrEmpty "name" members) (textOrEmpty "content" members))
    | some "directory" => some (.directory (textOrEmpty "name" members) (lastChildren members))
    | _ => none
  | _ => none

/-- The children in the last member with the key `children`. -/
def lastChildren : Json.Members → List (String × Record)
  | [] => []
  | (key, j) :: rest =>
    if key = some "children" ∧ ¬ rest.any (fun m => m.1 == some "children") then childrenOf j
    else lastChildren rest

def childrenOf : Json → List (String × Record)
  | .array items => pairsOf items
  | _ => []

def pairsOf : List Json → List (String × Record)
  | [] => []
  | j :: rest =>
    match pair? j with
    | some p => p :: pairsOf rest
    | none => pairsOf rest

def pair? : Json → Option (String × Record)
  | .array (.text (some key) :: j :: _) => (ofJson? j).map fun r => (key, r)
  | _ => none

end

/-! ## Trees -/

mutual

def ofNode (name : String) : Node → Record
  | .file content => .file name content
  | .directory d => .directory name (ofEntries d)

def ofEntries : List (String × Node) → List (String × Record)
  | [] => []
  | (name, n) :: rest => (name, ofNode name n) :: ofEntries rest

end

mutual

def toNode : Record → Node
  | .file _ content => .file content
  | .directory _ children => .directory (insertAll [] children)

/-- Adds the children with usable keys to a directory. -/
def insertAll (d : Directory) : List (String × Record) → Directory
  | [] => d
  | (key, r) :: rest =>
    insertAll (if Path.isName key then d.insert key r.toNode else d) rest

end

end Record

end DiskShell
