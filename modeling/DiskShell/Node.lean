import DiskShell.Json.Fields

/-!
Files and directories. A directory is a list of named nodes in the order in which the names came.
A name belongs to the directory that holds the node, so a node can be moved without touching it.
Names in a directory may repeat; every operation takes the first node of a name.
-/

namespace DiskShell

inductive Node where
  | file (content : String)
  | directory (entries : List (String × Node))
  deriving Repr

abbrev Directory := List (String × Node)

/-! ## Equality -/

namespace Node

mutual

def decEq : (a b : Node) → Decidable (a = b)
  | .file c, .file d =>
    if h : c = d then .isTrue (h ▸ rfl) else .isFalse fun e => h (Node.file.inj e)
  | .directory d, .directory e =>
    match decEqEntries d e with
    | .isTrue h => .isTrue (h ▸ rfl)
    | .isFalse h => .isFalse fun e => h (Node.directory.inj e)
  | .file _, .directory _ => .isFalse nofun
  | .directory _, .file _ => .isFalse nofun

def decEqEntries : (d e : List (String × Node)) → Decidable (d = e)
  | [], [] => .isTrue rfl
  | [], _ :: _ => .isFalse nofun
  | _ :: _, [] => .isFalse nofun
  | (m, a) :: d, (n, b) :: e =>
    if h : m = n then
      match decEq a b, decEqEntries d e with
      | .isTrue p, .isTrue q => .isTrue (by rw [h, p, q])
      | .isFalse p, _ => .isFalse fun e => p (by injection e with e _; injection e)
      | _, .isFalse q => .isFalse fun e => q (by injection e)
    else .isFalse fun e => h (by injection e with e _; injection e)

end

instance : DecidableEq Node := decEq

/-! ## Parts -/

def isFile : Node → Bool
  | file _ => true
  | directory _ => false

def isDirectory : Node → Bool
  | file _ => false
  | directory _ => true

def content? : Node → Option String
  | file c => some c
  | directory _ => none

def directory? : Node → Option Directory
  | file _ => none
  | directory d => some d

/-- Bytes of a file, entries of a directory. -/
def size : Node → Nat
  | file c => c.utf8ByteSize
  | directory d => d.length

end Node

/-! ## Entries by name -/

namespace Directory

def names (d : Directory) : List String := d.map Prod.fst

def child? (d : Directory) (name : String) : Option Node := List.lookup name d

def contains (d : Directory) (name : String) : Bool := d.any fun e => e.1 == name

/-- Replaces the node of a name where it stands, or adds the name at the end. -/
def insert : Directory → String → Node → Directory
  | [], name, n => [(name, n)]
  | (m, x) :: rest, name, n =>
    if m = name then (name, n) :: rest else (m, x) :: insert rest name n

/-- Takes the node of a name out. -/
def remove? : Directory → String → Option (Node × Directory)
  | [], _ => none
  | (m, x) :: rest, name =>
    if m = name then some (x, rest)
    else (remove? rest name).map fun r => (r.1, (m, x) :: r.2)

/-- The place of a name: the node there, and the directory with another entry in its place. -/
structure Slot where
  found : Node
  put : String × Node → Directory

/-- The first place with the name. -/
def slot? : Directory → String → Option Slot
  | [], _ => none
  | (m, x) :: rest, name =>
    if m = name then some ⟨x, fun e => e :: rest⟩
    else (slot? rest name).map fun s => ⟨s.found, fun e => (m, x) :: s.put e⟩

/-- Gives the node of a name another name, also one that is in use. -/
def rename? (d : Directory) (name new : String) : Option Directory :=
  (d.slot? name).map fun s => s.put (new, s.found)

def nodes (d : Directory) : List Node := d.map Prod.snd

def subdirectories (d : Directory) : List Directory :=
  d.filterMap fun e => e.2.directory?

end Directory

/-! ## Counting nodes -/

namespace Node

mutual

/-- The nodes of a subtree, its root included. -/
def count : Node → Nat
  | .file _ => 1
  | .directory d => 1 + countEntries d

def countEntries : List (String × Node) → Nat
  | [] => 0
  | (_, n) :: rest => n.count + countEntries rest

end

def countAll : List Node → Nat
  | [] => 0
  | n :: rest => n.count + countAll rest

theorem countAll_append (ns ms : List Node) : countAll (ns ++ ms) = countAll ns + countAll ms := by
  induction ns with
  | nil => simp [countAll]
  | cons n rest ih =>
    simp only [List.cons_append, countAll, ih]
    omega

theorem countAll_nodes (d : Directory) : countAll d.nodes = countEntries d := by
  induction d with
  | nil => rfl
  | cons e rest ih => simpa [Directory.nodes, countAll, countEntries] using ih

end Node

namespace Directory

/-- The nodes of several directories, the directories included. -/
def countAll : List Directory → Nat
  | [] => 0
  | d :: rest => 1 + Node.countEntries d + countAll rest

theorem countAll_append (ds es : List Directory) :
    countAll (ds ++ es) = countAll ds + countAll es := by
  induction ds with
  | nil => simp [countAll]
  | cons d rest ih =>
    simp only [List.cons_append, countAll, ih]
    omega

theorem countAll_subdirectories_le (d : Directory) :
    countAll d.subdirectories ≤ Node.countEntries d := by
  induction d with
  | nil => exact Nat.le_refl _
  | cons e rest ih =>
    obtain ⟨name, n⟩ := e
    cases n with
    | file c =>
      have h : subdirectories ((name, .file c) :: rest) = subdirectories rest := rfl
      simp only [h, Node.countEntries, Node.count]
      omega
    | directory d =>
      have h : subdirectories ((name, .directory d) :: rest) = d :: subdirectories rest := rfl
      simp only [h, countAll, Node.countEntries, Node.count]
      omega

end Directory

end DiskShell
