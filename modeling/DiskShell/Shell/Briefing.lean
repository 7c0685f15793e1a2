import DiskShell.Disk
import DiskShell.Shell.History

/-!
What an agent is told about a session: the working directory, what the disk takes, a snapshot of the
whole tree and the latest commands.
-/

namespace DiskShell.Shell

structure Briefing where
  cwd : String
  usage : Option Usage
  snapshot : List SnapshotItem
  history : List HistoryEntry
  deriving DecidableEq, Repr

namespace Briefing

def ofDisk (d : Disk σ) (cwd : String) (h : History) (n : Nat) : Briefing :=
  ⟨Path.canonical "" cwd, d.usage? "/" "/", d.snapshot "/" d.config.snapshot, h.recent n⟩

def toJson (b : Briefing) : Json :=
  .record [("cwd", .ofString b.cwd), ("usage", .ofOption Usage.toJson b.usage),
    ("snapshot", .ofList SnapshotItem.toJson b.snapshot),
    ("history", .ofList HistoryEntry.toJson b.history)]

def ofJson? (j : Json) : Option Briefing := do
  let fs ← j.fields? ["cwd", "usage", "snapshot", "history"]
  return ⟨← fs.required? "cwd" Json.text?, ← fs.optional? "usage" Usage.ofJson?,
    ← fs.required? "snapshot" (Json.list? SnapshotItem.ofJson?),
    ← fs.required? "history" (Json.list? HistoryEntry.ofJson?)⟩

/-! ## Prompt -/

def usageLine (u : Usage) : String :=
  "Filesystem: " ++ toString u.fileCount ++ " files, " ++ toString u.directoryCount ++
    " directories, " ++ toString u.usedBytes ++ " bytes\n"

def historyLines (e : HistoryEntry) : String :=
  e.cwd ++ "$ " ++ e.input ++ "\n" ++ String.join (e.output.map fun line => "  " ++ line ++ "\n")

def prompt (b : Briefing) : String :=
  "Working directory: " ++ b.cwd ++ "\n" ++
    (match b.usage with
      | some u => usageLine u
      | none => "") ++
    "\nFiles:\n" ++
    (if b.snapshot.isEmpty then "(empty)\n" else Snapshot.render b.snapshot) ++
    (if b.history.isEmpty then ""
      else "\nRecent commands:\n" ++ String.join (b.history.map historyLines))

end Briefing

end DiskShell.Shell
