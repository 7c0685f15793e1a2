import DiskShell.Node

/-! What a subtree takes: the bytes of its files, and how many files and directories it holds. -/

namespace DiskShell

structure Usage where
  usedBytes : Nat
  fileCount : Nat
  directoryCount : Nat
  deriving DecidableEq, Repr

namespace Usage

def none : Usage := ⟨0, 0, 0⟩

def countFile (u : Usage) (size : Nat) : Usage :=
  { u with fileCount := u.fileCount + 1, usedBytes := u.usedBytes + size }

def countDirectory (u : Usage) : Usage :=
  { u with directoryCount := u.directoryCount + 1 }

/-- Adds the pending nodes and all nodes below them. -/
def tally (u : Usage) : List Node → Usage
  | [] => u
  | .file c :: pending => tally (u.countFile c.utf8ByteSize) pending
  | .directory d :: pending => tally u.countDirectory (Directory.nodes d ++ pending)
termination_by pending => Node.countAll pending
decreasing_by
  · rw [Node.countAll, Node.count]
    omega
  · rw [Node.countAll_append, Node.countAll_nodes, Node.countAll, Node.count]
    omega

def ofNode (n : Node) : Usage := tally none [n]

def toJson (u : Usage) : Json :=
  .record [("used_bytes", .ofNat u.usedBytes), ("file_count", .ofNat u.fileCount),
    ("directory_count", .ofNat u.directoryCount)]

def ofJson? (j : Json) : Option Usage := do
  let fs ← j.fields? ["used_bytes", "file_count", "directory_count"]
  return ⟨← fs.required? "used_bytes" Json.natural?, ← fs.required? "file_count" Json.natural?,
    ← fs.required? "directory_count" Json.natural?⟩

end Usage

end DiskShell
