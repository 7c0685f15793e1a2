import DiskShell.Config
import DiskShell.Listing

/-!
Snapshots: the nodes below a directory, level by level, up to a number of items and a depth. Files
come with their size and the beginning of their content.
-/

namespace DiskShell

structure SnapshotItem where
  path : String
  kind : Kind
  size : Option Nat
  preview : Option String
  deriving DecidableEq, Repr

namespace SnapshotItem

/-- The first characters of a content; an empty preview is left out. -/
def previewOf (maxPreview : Nat) (content : String) : Option String :=
  match content.toList.take maxPreview with
  | [] => none
  | cs => some (String.ofList cs)

def ofNode (maxPreview : Nat) (path : String) : Node → SnapshotItem
  | .file content => ⟨path, .file, some content.utf8ByteSize, previewOf maxPreview content⟩
  | .directory _ => ⟨path, .directory, none, none⟩

/-- A size or preview that is missing is not written. -/
def toJson (e : SnapshotItem) : Json :=
  .record ([("path", .ofString e.path), ("type", e.kind.toJson)] ++
    (e.size.map fun n => ("size", Json.ofNat n)).toList ++
    (e.preview.map fun s => ("preview", Json.ofString s)).toList)

def ofJson? (j : Json) : Option SnapshotItem := do
  let fs ← j.fields? ["path", "type", "size", "preview"]
  return ⟨← fs.required? "path" Json.text?, ← fs.required? "type" Kind.ofJson?,
    ← fs.optional? "size" Json.natural?, ← fs.optional? "preview" Json.text?⟩

/-- A line feed in a preview is shown as a backslash and the letter n. -/
def onOneLine (s : String) : String :=
  String.ofList (s.toList.flatMap fun c => if c = '\n' then ['\\', 'n'] else [c])

def render (e : SnapshotItem) : String :=
  match e.kind with
  | .directory => "[dir]  " ++ e.path ++ "/\n"
  | .file =>
    "[file] " ++ e.path ++ " (" ++ toString (e.size.getD 0) ++ " bytes)" ++
      (match e.preview with
        | some s => ": " ++ onOneLine s
        | none => "") ++ "\n"

end SnapshotItem

namespace Snapshot

/-- A directory whose entries are still to be listed, the text that their paths begin with, and
their distance from the root of the snapshot. -/
structure Pending where
  base : String
  directory : Directory
  depth : Nat

def Pending.entries (maxPreview : Nat) (p : Pending) : List SnapshotItem :=
  p.directory.map fun e => .ofNode maxPreview (p.base ++ e.1) e.2

/-- The subdirectories, to be listed after all that is pending already. -/
def Pending.below (p : Pending) : List Pending :=
  p.directory.filterMap fun e => e.2.directory?.map fun d => ⟨p.base ++ e.1 ++ "/", d, p.depth + 1⟩

theorem Pending.map_directory_below (p : Pending) :
    p.below.map Pending.directory = Directory.subdirectories p.directory := by
  simp [below, Directory.subdirectories, List.map_filterMap, Function.comp_def]

/-- Lists the pending directories in turn until `room` entries are listed. -/
def walk (maxPreview maxDepth room : Nat) : List Pending → List SnapshotItem
  | [] => []
  | p :: queue =>
    if maxDepth < p.depth then walk maxPreview maxDepth room queue
    else if room < p.directory.length then (p.entries maxPreview).take room
    else p.entries maxPreview ++
      walk maxPreview maxDepth (room - p.directory.length) (queue ++ p.below)
termination_by queue => Directory.countAll (queue.map Pending.directory)
decreasing_by
  · rw [List.map_cons, Directory.countAll]
    omega
  · have h := Directory.countAll_subdirectories_le p.directory
    rw [List.map_append, p.map_directory_below, Directory.countAll_append, List.map_cons,
      Directory.countAll]
    omega

/-- What the paths of the entries of a directory begin with. -/
def pathStem (names : List String) : String :=
  if names.isEmpty then "/" else Path.render names ++ "/"

/-- A file is listed as itself, whatever the depth. -/
def ofTree (t : Tree) (names : List String) (limits : Limits) : List SnapshotItem :=
  if limits.maxItems = 0 then []
  else match t.node? names with
    | none => []
    | some (.directory d) =>
      walk limits.maxPreview limits.depthBound limits.maxItems [⟨pathStem names, d, 1⟩]
    | some n => [.ofNode limits.maxPreview (Path.render names) n]

def render (entries : List SnapshotItem) : String :=
  String.join (entries.map SnapshotItem.render)

end Snapshot

end DiskShell
