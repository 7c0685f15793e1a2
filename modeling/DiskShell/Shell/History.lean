import DiskShell.Json.Fields
import DiskShell.Text.Blank

/-!
The history of a session: the latest command lines up to a capacity, oldest first. Blank lines and
immediate repetitions are not kept.
-/

namespace DiskShell.Shell

structure HistoryEntry where
  cwd : String
  input : String
  output : List String
  deriving DecidableEq, Repr

namespace HistoryEntry

def isBlank (e : HistoryEntry) : Bool := (Text.trim e.input).isEmpty

def toJson (e : HistoryEntry) : Json :=
  .record [("cwd", .ofString e.cwd), ("input", .ofString e.input),
    ("output", .ofStrings e.output)]

def ofJson? (j : Json) : Option HistoryEntry := do
  let fs ← j.fields? ["cwd", "input", "output"]
  return ⟨← fs.required? "cwd" Json.text?, ← fs.required? "input" Json.text?,
    ← fs.required? "output" Json.strings?⟩

end HistoryEntry

structure History where
  capacity : Nat
  entries : List HistoryEntry
  deriving DecidableEq, Repr

namespace History

def empty (capacity : Nat) : History := ⟨capacity, []⟩

def last? (h : History) : Option HistoryEntry := h.entries.getLast?

/-- The latest `n` entries. -/
def recent (h : History) (n : Nat) : List HistoryEntry :=
  h.entries.drop (h.entries.length - n)

/-- Whether an entry is kept. -/
def accepts (h : History) (e : HistoryEntry) : Bool :=
  h.capacity != 0 && !e.isBlank && h.last?.all fun newest => newest.input != e.input

/-- An entry that is kept may push the oldest out. -/
def push (h : History) (e : HistoryEntry) : History × Bool :=
  if h.accepts e then
    let entries := h.entries ++ [e]
    ({ h with entries := entries.drop (entries.length - h.capacity) }, true)
  else (h, false)

def clear (h : History) : History := { h with entries := [] }

end History

end DiskShell.Shell
