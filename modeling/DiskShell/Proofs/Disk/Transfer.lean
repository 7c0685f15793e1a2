import DiskShell.Proofs.Disk.Effect
import DiskShell.Proofs.Shell.Changes

/-!
What moving and copying do to a disk: which complaint they answer with, and what every path shows
after they have succeeded (`move_relocates`, `copy_is_deep`). A copy and what it was made from have
nothing in common: changes whose paths lie in the one leave the other alone
(`node?_applyAll_of_apart`).
-/

namespace DiskShell

/-! ## Where a change works -/

/-- The paths that a change is given. A reset works on the whole tree. -/
def Change.paths : Change → List (List String)
  | .write path _ cwd => [Path.resolve path cwd]
  | .touch path cwd => [Path.resolve path cwd]
  | .makeDirectory path cwd => [Path.resolve path cwd]
  | .remove path cwd => [Path.resolve path cwd]
  | .removeDirectory path cwd => [Path.resolve path cwd]
  | .move source target cwd => [Path.resolve source cwd, Path.resolve target cwd]
  | .copy source target cwd => [Path.resolve source cwd, Path.resolve target cwd]
  | .reset => [[]]

/-- **A change works on its paths only**: beside them every node stays as it is. -/
theorem Change.agreeBeside_edit (config : DiskConfig) (t : Tree) (c : Change) :
    t.AgreeBeside c.paths (c.edit config t).1 := by
  cases c with
  | write path content cwd => exact Tree.agreeBeside_write t _ content
  | touch path cwd =>
    simp only [edit]
    split
    · exact .refl _ t
    · exact Tree.agreeBeside_write t _ ""
  | makeDirectory path cwd => exact Tree.agreeBeside_makeDirectory t _
  | remove path cwd => exact Tree.agreeBeside_remove t _ false
  | removeDirectory path cwd => exact Tree.agreeBeside_remove t _ true
  | move source target cwd => exact Tree.agreeBeside_move t _ _
  | copy source target cwd => exact Tree.agreeBeside_copy t _ _
  | reset =>
    intro q hq
    exact absurd List.nil_prefix (hq [] (List.mem_singleton_self _)).2

namespace Disk

variable {σ : Type} [Store σ]

theorem node?_apply_of_apart (d : Disk σ) {c : Change} {inside q : List String}
    (hc : ∀ p ∈ c.paths, inside <+: p) (hq : Path.Apart q inside) :
    (d.apply c).1.tree.node? q = d.tree.node? q := by
  rw [apply_eq]
  exact c.agreeBeside_edit d.config d.tree q fun p hp => hq.mono List.prefix_rfl (hc p hp)

/-- What is done in one place is not seen in another. -/
theorem node?_applyAll_of_apart (d : Disk σ) {changes : List Change} {inside q : List String}
    (hchanges : ∀ c ∈ changes, ∀ p ∈ c.paths, inside <+: p) (hq : Path.Apart q inside) :
    (d.applyAll changes).tree.node? q = d.tree.node? q := by
  refine Shell.applyAll_induction (P := fun e => e.tree.node? q = d.tree.node? q) rfl
    fun e c hc he => ?_
  exact (node?_apply_of_apart e (hchanges c hc) hq).trans he

/-! ## Copies -/

/-- **A copy is deep, and of the tree before it.** It answers with the first complaint in this
order. When it has succeeded, its path leads everywhere that the path of the original led before,
also where the copy lies in the original; it is listed last, and nothing else has changed. If
neither path leads through the other, changes that keep to the one are not seen in the other. -/
theorem copy_is_deep (d : Disk σ) (source target cwd : String) :
    let t := d.tree
    let a := Path.resolve source cwd
    let b := Path.resolve target cwd
    let copied := d.copy source target cwd
    copied.2 = verdict [(t.node? a = none, .notFound),
        (b = [] ∨ t.node? b ≠ none, .alreadyExists),
        (t.node? b.dropLast = none, .notFound),
        ((t.node? b.dropLast).any Node.isFile, .notADirectory),
        ((t.node? a).any fun n => 128 < b.length + n.levels, .tooDeep)] ∧
      (copied.2 = .ok () → t.Copied a b copied.1.tree ∧
        (Path.Apart a b → ∀ changes : List Change, ∀ rest,
          ((∀ c ∈ changes, ∀ p ∈ c.paths, a <+: p) →
            (copied.1.applyAll changes).tree.node? (b ++ rest) =
              copied.1.tree.node? (b ++ rest)) ∧
          ((∀ c ∈ changes, ∀ p ∈ c.paths, b <+: p) →
            (copied.1.applyAll changes).tree.node? (a ++ rest) =
              copied.1.tree.node? (a ++ rest)))) := by
  intro t a b copied
  have hanswer := Tree.snd_copy t a b
  refine ⟨(snd_commit d _).trans hanswer, fun hok => ?_⟩
  refine ⟨Tree.copied_of_copy (eq_of_commit_eq_ok hok), fun hapart changes rest => ⟨?_, ?_⟩⟩
  · intro hchanges
    have hbelow := hapart.symm.mono (List.prefix_append b rest) List.prefix_rfl
    exact node?_applyAll_of_apart copied.1 hchanges hbelow
  · intro hchanges
    have hbelow := hapart.mono (List.prefix_append a rest) List.prefix_rfl
    exact node?_applyAll_of_apart copied.1 hchanges hbelow

/-- A copy of a directory next to it; then the one is changed, or the other. -/
theorem copy_survives_changes :
    let d : Disk Memory :=
      ⟨[("a", .directory [("f", .file "x")])], Memory.empty, DiskConfig.default⟩
    let copied := d.copy "a" "/b" "/"
    let inOriginal : List Change :=
      [.write "/a/f" "y" "/", .makeDirectory "/a/c" "/", .move "a/f" "a/c/f" "/"]
    let inCopy : List Change := [.remove "f" "/b", .removeDirectory "b" "/"]
    copied.2 = .ok () ∧ copied.1.tree.face? [] = some (.directory ["a", "b"]) ∧
      Path.Apart ["a"] ["b"] ∧ (∀ c ∈ inOriginal, ∀ p ∈ c.paths, ["a"] <+: p) ∧
      (∀ c ∈ inCopy, ∀ p ∈ c.paths, ["b"] <+: p) ∧
      copied.1.tree.node? ["b", "f"] = some (.file "x") ∧
      (copied.1.applyAll inOriginal).tree.node? ["b", "f"] = some (.file "x") ∧
      (copied.1.applyAll inCopy).tree.node? ["a", "f"] = copied.1.tree.node? ["a", "f"] := by
  intro d copied inOriginal inCopy
  obtain ⟨hanswer, heffect⟩ := copy_is_deep d "a" "/b" "/"
  have hok : copied.2 = .ok () := hanswer.trans rfl
  obtain ⟨hcopied, hindependent⟩ := heffect hok
  have hapart : Path.Apart ["a"] ["b"] := by
    unfold Path.Apart
    decide
  have horiginal : ∀ c ∈ inOriginal, ∀ p ∈ c.paths, ["a"] <+: p := by decide +kernel
  have hcopy : ∀ c ∈ inCopy, ∀ p ∈ c.paths, ["b"] <+: p := by decide +kernel
  have hface := hcopied.face?_eq [] (by decide)
  have harrived := hcopied.arrived ["f"]
  exact ⟨hok, hface, hapart, horiginal, hcopy, harrived,
    ((hindependent hapart inOriginal ["f"]).1 horiginal).trans harrived,
    (hindependent hapart inCopy ["f"]).2 hcopy⟩

/-! ## Moves -/

open Shell in
/-- **A move takes a subtree to another place and does nothing else**, at every point of every run.
It answers with the first complaint in this order. When it has succeeded, the new path leads
everywhere that the old one led before, and the old one leads nowhere; the node is listed last in
its new directory, and apart from it every directory keeps its names in their order. -/
theorem move_relocates (store : σ) (config : DiskConfig) (inputs : List Input)
    (source target cwd : String) :
    let d := (respondAll (load store config) inputs).1
    let t := d.tree
    let a := Path.resolve source cwd
    let b := Path.resolve target cwd
    let moved := d.move source target cwd
    moved.2 = verdict [(t.node? a = none, .notFound),
        (b = [] ∨ t.node? b ≠ none, .alreadyExists),
        (t.node? b.dropLast = none, .notFound),
        ((t.node? b.dropLast).any Node.isFile, .notADirectory),
        ((t.node? a).any fun n => 128 < b.length + n.levels, .tooDeep),
        (a = [], .notPermitted),
        ((t.node? a).any Node.isDirectory ∧ a <+: b,
          .invalidPath "cannot move a directory into itself")] ∧
      (moved.2 = .ok () → t.Moved a b moved.1.tree) := by
  intro d t a b moved
  have hd : d.tree.WellFormed := wellFormed_respondAll store config inputs
  have hanswer := Tree.snd_move t a b
  refine ⟨(snd_commit d _).trans hanswer, fun hok => ?_⟩
  exact Tree.moved_of_move hd.tidy (eq_of_commit_eq_ok hok)

/-- A directory with a file in it gets another name, and comes after its brothers. -/
theorem directory_renamed :
    let d := (Shell.respondAll (load Memory.empty DiskConfig.default)
      [.request (.change (.makeDirectory "/b/c" "/")), .request (.change (.touch "/a" "/")),
        .request (.change (.write "/b/c/f" "x" "/"))]).1
    let moved := d.move "./b" "h" "/"
    moved.2 = .ok () ∧ moved.1.tree.node? ["h", "c", "f"] = some (.file "x") ∧
      moved.1.tree.node? ["b", "c"] = none ∧
      moved.1.tree.face? [] = some (.directory ["sandbox", "a", "h"]) := by
  have hall := move_relocates Memory.empty DiskConfig.default
    [.request (.change (.makeDirectory "/b/c" "/")), .request (.change (.touch "/a" "/")),
      .request (.change (.write "/b/c/f" "x" "/"))] "./b" "h" "/"
  dsimp only at hall ⊢
  generalize hd : (Shell.respondAll (load Memory.empty DiskConfig.default)
    [.request (.change (.makeDirectory "/b/c" "/")), .request (.change (.touch "/a" "/")),
      .request (.change (.write "/b/c/f" "x" "/"))]).1 = d at hall ⊢
  have htree : d.tree = [("sandbox", .directory []),
      ("b", .directory [("c", .directory [("f", .file "x")])]), ("a", .file "")] := by
    rw [← hd]
    rfl
  have hsource : Path.resolve "./b" "/" = ["b"] := rfl
  have htarget : Path.resolve "h" "/" = ["h"] := rfl
  rw [hsource, htarget, htree] at hall
  obtain ⟨hanswer, heffect⟩ := hall
  have hok : (d.move "./b" "h" "/").2 = .ok () := by
    rw [hanswer]
    rfl
  have hmoved := heffect hok
  refine ⟨hok, ?_, hmoved.left ["c"], ?_⟩
  · exact hmoved.arrived ["c", "f"]
  · exact hmoved.face?_eq [] (by decide) (by decide)

end Disk

end DiskShell
