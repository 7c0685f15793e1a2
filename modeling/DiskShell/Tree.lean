import DiskShell.Node
import DiskShell.Path

/-!
Trees. A tree is its root directory; a list of names leads from there to a node. A directory can be
looked up, or brought into focus: a focus is the directory together with a way to put another one
in its place.
-/

namespace DiskShell

abbrev Tree := Directory

namespace Tree

def directory? (t : Tree) (names : List String) : Option Directory :=
  names.foldlM (fun d name => (d.child? name).bind Node.directory?) t

def node? (t : Tree) (names : List String) : Option Node :=
  match Path.parentAndName? names with
  | none => some (.directory t)
  | some (parent, name) => (directory? t parent).bind fun d => d.child? name

def parent? (t : Tree) (names : List String) : Option Directory :=
  (Path.parentAndName? names).bind fun split => directory? t split.1

def exists? (t : Tree) (names : List String) : Bool := (node? t names).isSome

/-! ## Focus -/

structure Focus where
  found : Directory
  replace : Directory → Tree

def focus? (t : Tree) : List String → Option Focus
  | [] => some ⟨t, id⟩
  | name :: rest =>
    match t.child? name with
    | some (.directory d) =>
      (focus? d rest).map fun f => ⟨f.found, fun d => t.insert name (.directory (f.replace d))⟩
    | _ => none

/-- The directory that holds the last name, in focus, and that name. -/
def parentFocus? (t : Tree) (names : List String) : Option (Focus × String) :=
  (Path.parentAndName? names).bind fun split => (focus? t split.1).map fun f => (f, split.2)

end Tree

end DiskShell
