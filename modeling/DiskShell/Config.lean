import DiskShell.Error
import DiskShell.Json.Parser

/-!
Settings of a disk and of a shell on it. A document may give any part of them; the rest keeps its
default.
-/

namespace DiskShell

/-- No node lies more names below the root. -/
def depthLimit : Nat := 128

/-- No listing of a subtree goes further down. -/
def snapshotDepthLimit : Nat := 10

structure Limits where
  maxItems : Nat
  maxPreview : Nat
  maxDepth : Nat
  deriving DecidableEq, Repr

namespace Limits

def default : Limits := ⟨200, 120, snapshotDepthLimit⟩

def depthBound (l : Limits) : Nat := min l.maxDepth snapshotDepthLimit

def toJson (l : Limits) : Json :=
  .record [("max_items", .ofNat l.maxItems), ("max_preview", .ofNat l.maxPreview),
    ("max_depth", .ofNat l.maxDepth)]

def ofJson? (j : Json) : Option Limits := do
  let fs ← j.fields? ["max_items", "max_preview", "max_depth"]
  return ⟨← fs.orDefault? "max_items" Json.natural? default.maxItems,
    ← fs.orDefault? "max_preview" Json.natural? default.maxPreview,
    ← fs.orDefault? "max_depth" Json.natural? default.maxDepth⟩

end Limits

structure DiskConfig where
  storageKey : String
  seedDirectories : List String
  snapshot : Limits
  deriving DecidableEq, Repr

/-- The answer to a text that holds no settings. What exactly is wrong with it is not told. -/
def invalidConfig : DiskError := .storage "invalid config: *"

def configOfText (read : Json → Option α) (s : String) : Except DiskError α :=
  match (Json.parse? none s).bind read with
  | some c => .ok c
  | none => .error invalidConfig

namespace DiskConfig

def default : DiskConfig := ⟨"sandbox.vfs.tree", ["/sandbox"], .default⟩

def toJson (c : DiskConfig) : Json :=
  .record [("storage_key", .ofString c.storageKey),
    ("seed_directories", .ofStrings c.seedDirectories), ("snapshot", c.snapshot.toJson)]

def ofJson? (j : Json) : Option DiskConfig := do
  let fs ← j.fields? ["storage_key", "seed_directories", "snapshot"]
  return ⟨← fs.orDefault? "storage_key" Json.text? default.storageKey,
    ← fs.orDefault? "seed_directories" Json.strings? default.seedDirectories,
    ← fs.orDefault? "snapshot" Limits.ofJson? default.snapshot⟩

def ofText : String → Except DiskError DiskConfig := configOfText ofJson?

end DiskConfig

structure SessionConfig where
  historyCapacity : Nat
  agentHistory : Nat
  home : String
  deriving DecidableEq, Repr

namespace SessionConfig

def default : SessionConfig := ⟨50, 10, "/sandbox"⟩

def toJson (c : SessionConfig) : Json :=
  .record [("history_capacity", .ofNat c.historyCapacity),
    ("agent_history", .ofNat c.agentHistory), ("home", .ofString c.home)]

def ofJson? (j : Json) : Option SessionConfig := do
  let fs ← j.fields? ["history_capacity", "agent_history", "home"]
  return ⟨← fs.orDefault? "history_capacity" Json.natural? default.historyCapacity,
    ← fs.orDefault? "agent_history" Json.natural? default.agentHistory,
    ← fs.orDefault? "home" Json.text? default.home⟩

def ofText : String → Except DiskError SessionConfig := configOfText ofJson?

end SessionConfig

end DiskShell
