import DiskShell.Text.Blank

/-!
Paths. A path is read against a working directory and becomes the list of names that leads from the
root to a node. An ascent at the root stays there.
-/

namespace DiskShell.Path

/-- The texts that can name a node inside a directory. -/
def isName (s : String) : Bool :=
  s != "" && s != "." && s != ".." && !s.toList.contains '/'

def step (names : List String) (part : String) : List String :=
  if part = "" ∨ part = "." then names
  else if part = ".." then names.dropLast
  else names ++ [part]

/-- Where a path leads from the node at `names`. -/
def follow (names : List String) (path : String) : List String :=
  (Text.cut '/' path).foldl step names

def isAbsolute (path : String) : Bool :=
  path.toList.head? == some '/'

/-- An absolute path starts at the root, any other at the working directory `cwd`. -/
def resolve (path cwd : String) : List String :=
  follow (if isAbsolute path then [] else follow [] cwd) path

def render : List String → String
  | [] => "/"
  | names => String.join (names.map fun name => "/" ++ name)

def canonical (path cwd : String) : String :=
  render (resolve path cwd)

/-- The names that lead to the parent, and the last name. -/
def parentAndName? : List String → Option (List String × String)
  | [] => none
  | name :: rest => some ((name :: rest).dropLast, rest.getLastD name)

/-- Whether `inner` is `outer` or lies below it. -/
def liesIn (inner outer : List String) : Bool :=
  outer.isPrefixOf inner

/-- The name of the node at a path; the root has the empty name. -/
def lastName (names : List String) : String :=
  names.getLastD ""

end DiskShell.Path
