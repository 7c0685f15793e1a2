import DiskShell.Text.Blank

/-!
The words of a command line. Blanks part words except inside quotes. A single or double quote opens
a quoted part that runs to the next quote of its kind, or to the end of the line; the quotes that
open and close are dropped, and empty words too.
-/

namespace DiskShell.Shell

/-- The quote that is open, the characters of the current word and the finished words, both latest
first. -/
structure WordReader where
  quote : Option Char
  current : List Char
  done : List String
  deriving DecidableEq, Repr

namespace WordReader

def start : WordReader := ⟨none, [], []⟩

def endWord (r : WordReader) : WordReader :=
  if r.current.isEmpty then r
  else { r with current := [], done := String.ofList r.current.reverse :: r.done }

def step (r : WordReader) (c : Char) : WordReader :=
  match r.quote with
  | some q => if c = q then { r with quote := none } else { r with current := c :: r.current }
  | none =>
    if c = '"' || c = '\'' then { r with quote := some c }
    else if Text.isBlank c then r.endWord
    else { r with current := c :: r.current }

end WordReader

def words (line : String) : List String :=
  (line.toList.foldl WordReader.step WordReader.start).endWord.done.reverse

end DiskShell.Shell
