import DiskShell.Document
import DiskShell.Edit
import DiskShell.Snapshot
import DiskShell.Store
import DiskShell.Usage

/-!
Disks. A disk is a tree with a store behind it. Every change that succeeds writes the whole tree to
the store; whether the store takes it makes no difference to the disk. Paths are read against a
working directory that the caller names.
-/

namespace DiskShell

structure Disk (σ : Type) where
  tree : Tree
  store : σ
  config : DiskConfig

inductive Change where
  | write (path content cwd : String)
  | touch (path cwd : String)
  | makeDirectory (path cwd : String)
  | remove (path cwd : String)
  | removeDirectory (path cwd : String)
  | move (source target cwd : String)
  | copy (source target cwd : String)
  | reset
  deriving DecidableEq, Repr

namespace Disk

/-- The tree that a store answers for; without a readable one, the configured directories. -/
def restore (config : DiskConfig) (loaded : Except StoreError (Option String)) : Tree :=
  match loaded with
  | .ok (some text) =>
    match Tree.decode text with
    | .ok t => t
    | .error _ => Tree.ofPaths config.seedDirectories
  | _ => Tree.ofPaths config.seedDirectories

variable {σ : Type} [Store σ]

def load (store : σ) (config : DiskConfig) : Disk σ :=
  ⟨restore config (Store.load store config.storageKey), store, config⟩

def writeBack (d : Disk σ) : Disk σ :=
  { d with store := (Store.save d.store d.config.storageKey d.tree.encode).1 }

/-! ## Changes -/

/-- Keeps an edited tree; a change that succeeded is written to the store. -/
def commit (d : Disk σ) (edited : Edited) : Disk σ × Except DiskError Unit :=
  let d := { d with tree := edited.1 }
  match edited.2 with
  | .ok () => (d.writeBack, .ok ())
  | .error e => (d, .error e)

def reset (d : Disk σ) : Disk σ :=
  writeBack { d with tree := Tree.ofPaths d.config.seedDirectories }

def write (d : Disk σ) (path content cwd : String) : Disk σ × Except DiskError Unit :=
  d.commit (d.tree.write (Path.resolve path cwd) content)

/-- Leaves a node that exists alone. -/
def touch (d : Disk σ) (path cwd : String) : Disk σ × Except DiskError Unit :=
  if d.tree.exists? (Path.resolve path cwd) then (d, .ok ()) else d.write path "" cwd

def makeDirectory (d : Disk σ) (path cwd : String) : Disk σ × Except DiskError Unit :=
  d.commit (d.tree.makeDirectory (Path.resolve path cwd))

def remove (d : Disk σ) (path cwd : String) : Disk σ × Except DiskError Unit :=
  d.commit (d.tree.remove (Path.resolve path cwd) false)

def removeDirectory (d : Disk σ) (path cwd : String) : Disk σ × Except DiskError Unit :=
  d.commit (d.tree.remove (Path.resolve path cwd) true)

def move (d : Disk σ) (source target cwd : String) : Disk σ × Except DiskError Unit :=
  d.commit (d.tree.move (Path.resolve source cwd) (Path.resolve target cwd))

def copy (d : Disk σ) (source target cwd : String) : Disk σ × Except DiskError Unit :=
  d.commit (d.tree.copy (Path.resolve source cwd) (Path.resolve target cwd))

def apply (d : Disk σ) : Change → Disk σ × Except DiskError Unit
  | .write path content cwd => d.write path content cwd
  | .touch path cwd => d.touch path cwd
  | .makeDirectory path cwd => d.makeDirectory path cwd
  | .remove path cwd => d.remove path cwd
  | .removeDirectory path cwd => d.removeDirectory path cwd
  | .move source target cwd => d.move source target cwd
  | .copy source target cwd => d.copy source target cwd
  | .reset => (d.reset, .ok ())

/-! ## Queries -/

omit [Store σ]

def node? (d : Disk σ) (path cwd : String) : Option Node :=
  d.tree.node? (Path.resolve path cwd)

def exists? (d : Disk σ) (path cwd : String) : Bool := (d.node? path cwd).isSome

def isDirectory (d : Disk σ) (path cwd : String) : Bool := (d.node? path cwd).any Node.isDirectory

def isFile (d : Disk σ) (path cwd : String) : Bool := (d.node? path cwd).any Node.isFile

def read? (d : Disk σ) (path cwd : String) : Option String :=
  (d.node? path cwd).bind Node.content?

def list (d : Disk σ) (path cwd : String) : List ListEntry :=
  d.tree.list (Path.resolve path cwd)

def usage? (d : Disk σ) (path cwd : String) : Option Usage :=
  (d.node? path cwd).map Usage.ofNode

def snapshot (d : Disk σ) (path : String) (limits : Limits) : List SnapshotItem :=
  Snapshot.ofTree d.tree (Path.resolve path "/") limits

end Disk

end DiskShell
