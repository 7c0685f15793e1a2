import DiskShell.Disk

/-!
Requests to a disk. A request is a change or a query; a query is answered from the tree and leaves
the disk alone. A run takes requests in turn, each on the disk that the one before has left.
-/

namespace DiskShell

inductive Query where
  | list (path cwd : String)
  | read (path cwd : String)
  | canonical (path cwd : String)
  | isPresent (path cwd : String)
  | isDirectory (path cwd : String)
  | isFile (path cwd : String)
  | usage (path cwd : String)
  | snapshot (path : String) (limits : Limits)
  deriving DecidableEq, Repr

inductive Request where
  | change (c : Change)
  | query (q : Query)
  deriving DecidableEq, Repr

inductive Answer where
  | result (r : Except DiskError Unit)
  | entries (es : List ListEntry)
  | content (c : Option String)
  | path (s : String)
  | truth (b : Bool)
  | usage (u : Option Usage)
  | items (is : List SnapshotItem)

namespace Disk

variable {σ : Type}

def answer (d : Disk σ) : Query → Answer
  | .list path cwd => .entries (d.list path cwd)
  | .read path cwd => .content (d.read? path cwd)
  | .canonical path cwd => .path (Path.canonical path cwd)
  | .isPresent path cwd => .truth (d.exists? path cwd)
  | .isDirectory path cwd => .truth (d.isDirectory path cwd)
  | .isFile path cwd => .truth (d.isFile path cwd)
  | .usage path cwd => .usage (d.usage? path cwd)
  | .snapshot path limits => .items (d.snapshot path limits)

variable [Store σ]

def perform (d : Disk σ) : Request → Disk σ × Answer
  | .change c => ((d.apply c).1, .result (d.apply c).2)
  | .query q => (d, d.answer q)

/-- The disk after a run, and the answers in the order of the requests. -/
def run (d : Disk σ) : List Request → Disk σ × List Answer
  | [] => (d, [])
  | r :: rest =>
    let (d, answer) := d.perform r
    let (d, answers) := run d rest
    (d, answer :: answers)

end Disk

end DiskShell
