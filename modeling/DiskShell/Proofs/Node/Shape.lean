import DiskShell.Config
import DiskShell.Proofs.Node.Directory
import DiskShell.Proofs.Path
import DiskShell.Tree

/-!
The shape of nodes: which names occur below a node, and how many levels there are. The operations on
a directory keep names usable and distinct, and they raise the levels no further than by what is
put in. A tree is well formed if it is tidy and has no more levels than a path may have names.
-/

namespace DiskShell

/-! ## Names -/

mutual

/-- Every name below the node can be a step of a path, and no two siblings share one. -/
def Node.Tidy : Node → Prop
  | .file _ => True
  | .directory d => (d.map Prod.fst).Nodup ∧ Directory.TidyEntries d

def Directory.TidyEntries : List (String × Node) → Prop
  | [] => True
  | (name, n) :: rest => Path.IsName name ∧ n.Tidy ∧ Directory.TidyEntries rest

end

/-! ## Levels -/

mutual

/-- The number of steps from a node down to the lowest node below it. -/
def Node.levels : Node → Nat
  | .file _ => 0
  | .directory d => Directory.levels d

def Directory.levels : List (String × Node) → Nat
  | [] => 0
  | (_, n) :: rest => max (n.levels + 1) (Directory.levels rest)

end

/-- A directory that holds something. -/
def Node.isFull : Node → Bool
  | .file _ => false
  | .directory d => !d.isEmpty

namespace Directory

def Tidy (d : Directory) : Prop := (Node.directory d).Tidy

theorem tidyEntries_iff (d : Directory) :
    TidyEntries d ↔ ∀ e ∈ d, Path.IsName e.1 ∧ e.2.Tidy := by
  induction d with
  | nil => simp [TidyEntries]
  | cons e rest ih => simp [TidyEntries, ih, and_assoc]

theorem tidy_iff (d : Directory) :
    d.Tidy ↔ d.names.Nodup ∧ ∀ e ∈ d, Path.IsName e.1 ∧ e.2.Tidy := by
  rw [Tidy, Node.Tidy, tidyEntries_iff]
  rfl

theorem levels_le_iff (d : Directory) (k : Nat) :
    levels d ≤ k ↔ ∀ e ∈ d, e.2.levels + 1 ≤ k := by
  induction d with
  | nil => simp [levels]
  | cons e rest ih =>
    simp only [levels, List.forall_mem_cons, ← ih]
    omega

theorem levels_of_mem {d : Directory} {e : String × Node} (h : e ∈ d) :
    e.2.levels + 1 ≤ levels d :=
  (levels_le_iff d (levels d)).mp (Nat.le_refl _) e h

/-! ## What the operations keep -/

theorem tidy_nil : Tidy [] := ⟨List.nodup_nil, trivial⟩

theorem Tidy.child {d : Directory} {name : String} {n : Node} (hd : d.Tidy)
    (h : d.child? name = some n) : Path.IsName name ∧ n.Tidy :=
  ((tidy_iff d).mp hd).2 _ (mem_of_child? h)

theorem Tidy.insert {d : Directory} {name : String} {n : Node} (hd : d.Tidy)
    (hname : Path.IsName name) (hn : n.Tidy) : (d.insert name n).Tidy := by
  obtain ⟨hnodup, hentries⟩ := (tidy_iff d).mp hd
  refine (tidy_iff _).mpr ⟨nodup_names_insert hnodup name n, ?_⟩
  intro e he
  rcases mem_insert he with rfl | he
  · exact ⟨hname, hn⟩
  · exact hentries e he

theorem Tidy.remove {d d' : Directory} {name : String} {n : Node} (hd : d.Tidy)
    (h : d.remove? name = some (n, d')) : n.Tidy ∧ d'.Tidy := by
  rw [remove?_eq] at h
  obtain ⟨x, hx, heq⟩ := Option.map_eq_some_iff.mp h
  cases heq
  obtain ⟨hnodup, hentries⟩ := (tidy_iff d).mp hd
  have hsub : (d.eraseP fun e => e.1 == name).Sublist d := List.eraseP_sublist
  refine ⟨(hd.child hx).2, (tidy_iff _).mpr ⟨hnodup.sublist (hsub.map Prod.fst), ?_⟩⟩
  intro e he
  exact hentries e (hsub.subset he)

theorem levels_insert_le (d : Directory) (name : String) (n : Node) :
    levels (d.insert name n) ≤ max (levels d) (n.levels + 1) := by
  rw [levels_le_iff]
  intro e he
  rcases mem_insert he with rfl | he
  · exact Nat.le_max_right ..
  · have hle := levels_of_mem he
    omega

theorem levels_remove_le {d d' : Directory} {name : String} {n : Node}
    (h : d.remove? name = some (n, d')) : levels d' ≤ levels d := by
  rw [remove?_eq] at h
  obtain ⟨x, -, heq⟩ := Option.map_eq_some_iff.mp h
  cases heq
  rw [levels_le_iff]
  intro e he
  exact levels_of_mem (List.eraseP_sublist.subset he)

end Directory

/-- A tree that paths can reach everywhere: usable names, each once in its directory, and no node
more names below the root than the limit. -/
structure Tree.WellFormed (t : Tree) : Prop where
  tidy : Directory.Tidy t
  shallow : Directory.levels t ≤ depthLimit

end DiskShell
