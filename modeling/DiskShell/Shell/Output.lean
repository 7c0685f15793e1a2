import DiskShell.Json.Fields

/-! What a command line gives back. -/

namespace DiskShell.Shell

/-- The printed lines, the working directory afterwards, whether the screen is to be cleared, and
the line itself if no command knows it. -/
structure Output where
  lines : List String
  cwd : String
  clear : Bool
  unrecognized : Option String
  deriving DecidableEq, Repr

namespace Output

def silent (cwd : String) : Output := ⟨[], cwd, false, none⟩

def print (cwd : String) (lines : List String) : Output := { silent cwd with lines := lines }

def toJson (o : Output) : Json :=
  .record [("lines", .ofStrings o.lines), ("cwd", .ofString o.cwd), ("clear", .bool o.clear),
    ("unrecognized", .ofOption .ofString o.unrecognized)]

def ofJson? (j : Json) : Option Output := do
  let fs ← j.fields? ["lines", "cwd", "clear", "unrecognized"]
  return ⟨← fs.required? "lines" Json.strings?, ← fs.required? "cwd" Json.text?,
    ← fs.required? "clear" Json.bool?, ← fs.optional? "unrecognized" Json.text?⟩

end Output

end DiskShell.Shell
