import DiskShell.Config
import DiskShell.Height
import DiskShell.Tree

/-!
Edits of a tree. An edit gives the tree as it left it together with its result, so that it shows
what a failed edit has done on the way.
-/

namespace DiskShell

abbrev Edited := Tree × Except DiskError Unit

namespace Tree

def ensureDepth (depth : Nat) : Except DiskError Unit :=
  if depthLimit < depth then
    .error (.invalidPath s!"nested deeper than {depthLimit} levels")
  else .ok ()

/-- The node that is to hold the last name must be a directory. -/
def ensureParent (t : Tree) (names : List String) : Except DiskError Unit :=
  match Path.parentAndName? names with
  | none => .error .notPermitted
  | some (parent, _) =>
    match t.node? parent with
    | some (.directory _) => .ok ()
    | some (.file _) => .error .notADirectory
    | none => .error .notFound

/-- Goes on only after a check that succeeds. -/
@[macro_inline]
def after (t : Tree) (check : Except DiskError Unit) (edit : Edited) : Edited :=
  match check with
  | .ok () => edit
  | .error e => (t, .error e)

/-- Changes the directory that holds the last name. -/
def editParent (t : Tree) (names : List String)
    (edit : Directory → String → Except DiskError Directory) : Edited :=
  match t.parentFocus? names with
  | none => (t, .error .notFound)
  | some (f, name) =>
    match edit f.found name with
    | .ok d => (f.replace d, .ok ())
    | .error e => (t, .error e)

/-! ## Files -/

/-- A file that exists gets the new content where it stands. -/
def writeIn (content : String) (d : Directory) (name : String) : Except DiskError Directory :=
  match d.child? name with
  | some (.directory _) => .error .isADirectory
  | _ => .ok (d.insert name (.file content))

def write (t : Tree) (names : List String) (content : String) : Edited :=
  if names.isEmpty then (t, .error .isADirectory)
  else t.after (ensureDepth names.length) <| t.after (t.ensureParent names) <|
    t.editParent names (writeIn content)

/-! ## Directories -/

/-- Walks down and adds the directories that are missing, up to a file that is in the way. -/
def addPath (t : Tree) : List String → Edited
  | [] => (t, .ok ())
  | name :: rest =>
    let t := if t.contains name then t else t.insert name (.directory [])
    match t.child? name with
    | some (.directory d) =>
      let (d, result) := addPath d rest
      (t.insert name (.directory d), result)
    | _ => (t, .error .notADirectory)

def makeDirectory (t : Tree) (names : List String) : Edited :=
  t.after (ensureDepth names.length) (t.addPath names)

/-- The tree with the given directories and nothing else; those that cannot be made are left out. -/
def ofPaths (paths : List String) : Tree :=
  paths.foldl (fun t path => (t.makeDirectory (Path.resolve path "/")).1) []

/-! ## Removal -/

def removeFrom (d : Directory) (name : String) : Except DiskError Directory :=
  match d.remove? name with
  | some (_, d) => .ok d
  | none => .error .notFound

def ensureRemovable (t : Tree) (names : List String) (directoryOnly : Bool) :
    Except DiskError Unit :=
  match t.node? names with
  | none => .error .notFound
  | some (.file _) => if directoryOnly then .error .notADirectory else .ok ()
  | some (.directory d) => if d.isEmpty then .ok () else .error .notEmpty

/-- Removes a file or an empty directory. -/
def remove (t : Tree) (names : List String) (directoryOnly : Bool) : Edited :=
  if names.isEmpty then (t, .error .notPermitted)
  else t.after (t.ensureRemovable names directoryOnly) (t.editParent names removeFrom)

/-! ## Transfer -/

/-- The node to transfer must exist; the target must be free, in a directory, and not too deep for
the lowest node that arrives there. -/
def ensureTransferable (t : Tree) (source target : List String) : Except DiskError Unit :=
  match t.node? source with
  | none => .error .notFound
  | some n =>
    if target.isEmpty || t.exists? target then .error .alreadyExists
    else do
      t.ensureParent target
      ensureDepth (target.length + n.height)

def place (t : Tree) (names : List String) (n : Node) : Edited :=
  t.editParent names fun d name => .ok (d.insert name n)

/-- Takes the last name out of its directory, with the node. -/
def takeOut? (t : Tree) (names : List String) : Option (Node × Tree) := do
  let (f, name) ← t.parentFocus? names
  let (n, d) ← f.found.remove? name
  return (n, f.replace d)

def ensureMovable (t : Tree) (source target : List String) : Except DiskError Unit :=
  if source.isEmpty then .error .notPermitted
  else if (t.node? source).any Node.isDirectory && Path.liesIn target source then
    .error (.invalidPath "cannot move a directory into itself")
  else .ok ()

def move (t : Tree) (source target : List String) : Edited :=
  t.after (t.ensureTransferable source target) <| t.after (t.ensureMovable source target) <|
    match t.takeOut? source with
    | none => (t, .error .notFound)
    | some (n, t) => t.place target n

def copy (t : Tree) (source target : List String) : Edited :=
  t.after (t.ensureTransferable source target) <|
    match t.node? source with
    | none => (t, .error .notFound)
    | some n => t.place target n

end Tree

end DiskShell
