import DiskShell.Proofs.Disk.Transfer
import DiskShell.Proofs.Tree.Presence

/-!
What removing does to a disk: which complaint it answers with, and what every path shows after it
has succeeded (`removal_takes_one_leaf`). However often something is removed, a path is lost only if
it has itself been named (`exists_removal_of_lost`), so nothing goes with the directory that holds
it.
-/

namespace DiskShell

namespace Change

def isRemoval : Change → Bool
  | remove _ _ => true
  | removeDirectory _ _ => true
  | _ => false

/-- A change that adds loses no path, and one that removes loses no path but its own. -/
theorem isSome_node?_edit {c : Change} {q : List String}
    (hc : c.onlyAdds = true ∨ c.isRemoval = true ∧ c.paths ≠ [q]) (config : DiskConfig) {t : Tree}
    (hq : (t.node? q).isSome = true) : (Tree.node? (c.edit config t).1 q).isSome = true := by
  cases c with
  | write path content cwd => exact Tree.isSome_node?_write _ content hq
  | touch path cwd =>
    simp only [edit]
    split
    · exact hq
    · exact Tree.isSome_node?_write _ "" hq
  | makeDirectory path cwd => exact Tree.isSome_node?_makeDirectory _ hq
  | copy source target cwd => exact Tree.isSome_node?_copy _ _ hq
  | remove path cwd =>
    obtain ⟨-, hpath⟩ := hc.resolve_left Bool.false_ne_true
    exact Tree.isSome_node?_remove (fun he => hpath (by rw [he]; rfl)) false hq
  | removeDirectory path cwd =>
    obtain ⟨-, hpath⟩ := hc.resolve_left Bool.false_ne_true
    exact Tree.isSome_node?_remove (fun he => hpath (by rw [he]; rfl)) true hq
  | move source target cwd => simp [onlyAdds, isRemoval] at hc
  | reset => simp [onlyAdds, isRemoval] at hc

end Change

namespace Disk

variable {σ : Type} [Store σ]

/-- **What is lost has been named.** If changes that add or remove have left nothing at a path that
led somewhere, then one of them was to remove that very path. -/
theorem exists_removal_of_lost (d : Disk σ) {changes : List Change}
    (hchanges : ∀ c ∈ changes, c.onlyAdds = true ∨ c.isRemoval = true) {q : List String}
    (hq : d.tree.node? q ≠ none) (hlost : (d.applyAll changes).tree.node? q = none) :
    ∃ c ∈ changes, c.isRemoval = true ∧ c.paths = [q] := by
  by_contra hnone
  have hstep : ∀ (e : Disk σ) c, c ∈ changes → (e.tree.node? q).isSome = true →
      ((e.apply c).1.tree.node? q).isSome = true := by
    intro e c hc he
    rw [apply_eq]
    refine Change.isSome_node?_edit ((hchanges c hc).imp_right fun hremoval => ⟨hremoval, ?_⟩)
      e.config he
    exact fun hpath => hnone ⟨c, hc, hremoval, hpath⟩
  have hkept := Shell.applyAll_induction (P := fun e => (e.tree.node? q).isSome = true)
    (Option.isSome_iff_ne_none.mpr hq) hstep
  rw [hlost] at hkept
  cases hkept

/-- A directory that holds something is not removed, and nothing else happens. -/
theorem commit_remove_of_isFull {d : Disk σ} {names : List String}
    (h : (d.tree.node? names).any Node.isFull = true) (directoryOnly : Bool) :
    (d.commit (d.tree.remove names directoryOnly)).1 = d := by
  obtain ⟨e, he⟩ : ∃ e, (d.tree.remove names directoryOnly).2 = .error e := by
    rw [Tree.snd_remove]
    refine exists_error_of_mem (e := .notEmpty) ?_
    simp [Tree.removalComplaints, h]
  have hsame := Tree.atomic_remove d.tree names directoryOnly e he
  rw [commit_eq, he, hsame]
  rfl

open Shell in
/-- **A removal takes one leaf away and does nothing else**, at every point of every run. It answers
with the first complaint in this order; a node that has been found is found again to be taken out.
When it has succeeded there is nothing at the path or below it, every other path has kept its kind
and its content, and the brothers have kept their order. A directory that holds something stays, and
so does all it holds: changes that add or remove lose no path that has not been named. -/
theorem removal_takes_one_leaf (store : σ) (config : DiskConfig) (inputs : List Input)
    (path cwd : String) :
    let d := (respondAll (load store config) inputs).1
    let t := d.tree
    let p := Path.resolve path cwd
    let removed := d.remove path cwd
    let removedDirectory := d.removeDirectory path cwd
    removed.2 = verdict [(p = [], .notPermitted), (t.node? p = none, .notFound),
        ((t.node? p).any Node.isFull, .notEmpty)] ∧
      removedDirectory.2 = verdict [(p = [], .notPermitted), (t.node? p = none, .notFound),
        ((t.node? p).any Node.isFile, .notADirectory),
        ((t.node? p).any Node.isFull, .notEmpty)] ∧
      (removed.2 = .ok () → t.Removed p removed.1.tree) ∧
      (removedDirectory.2 = .ok () → t.Removed p removedDirectory.1.tree) ∧
      (p ≠ [] → t.node? p ≠ none → (t.editParent p Tree.removeFrom).2 = .ok ()) ∧
      ((t.node? p).any Node.isFull = true → removed.1 = d ∧ removedDirectory.1 = d) ∧
      ∀ changes : List Change, (∀ c ∈ changes, c.onlyAdds = true ∨ c.isRemoval = true) →
        ∀ q, t.node? q ≠ none → (d.applyAll changes).tree.node? q = none →
          ∃ c ∈ changes, c.isRemoval = true ∧ c.paths = [q] := by
  intro d t p removed removedDirectory
  have hd : d.tree.WellFormed := wellFormed_respondAll store config inputs
  have hanswer (directoryOnly : Bool) := (snd_commit d _).trans (Tree.snd_remove t p directoryOnly)
  refine ⟨(hanswer false).trans ?_, hanswer true, fun hok => ?_, fun hok => ?_,
    Tree.snd_editParent_removeFrom, fun h => ⟨commit_remove_of_isFull h false,
      commit_remove_of_isFull h true⟩,
    fun changes hchanges q => exists_removal_of_lost d hchanges⟩
  · simp [Tree.removalComplaints]
  · exact Tree.removed_of_remove hd.tidy (eq_of_commit_eq_ok hok)
  · exact Tree.removed_of_remove hd.tidy (eq_of_commit_eq_ok hok)

/-- An empty directory goes, a full one stays, and its file goes only by its own name. -/
theorem empty_directory_removed :
    let inputs : List Shell.Input := [.request (.change (.makeDirectory "/a" "/")),
      .request (.change (.write "/a/f" "x" "/"))]
    let d := (Shell.respondAll (load Memory.empty DiskConfig.default) inputs).1
    let removed := d.remove "/sandbox" "/"
    let removedDirectory := d.removeDirectory "/sandbox" "/"
    let changes : List Change := [.remove "/a" "/", .touch "/a/g" "/", .remove "f" "/a"]
    removed.2 = .ok () ∧ removed.1.tree.face? [] = some (.directory ["a"]) ∧
      removedDirectory.2 = .ok () ∧ removedDirectory.1.tree.node? ["sandbox"] = none ∧
      (d.tree.editParent ["sandbox"] Tree.removeFrom).2 = .ok () ∧
      (d.tree.node? ["a"]).any Node.isFull = true ∧ (d.removeDirectory "/a" "/").1 = d ∧
      (∀ c ∈ changes, c.onlyAdds = true ∨ c.isRemoval = true) ∧
      (d.applyAll changes).tree.node? ["a", "f"] = none ∧
      ∃ c ∈ changes, c.isRemoval = true ∧ c.paths = [["a", "f"]] := by
  intro inputs d removed removedDirectory changes
  have htree : d.tree = [("sandbox", .directory []), ("a", .directory [("f", .file "x")])] := rfl
  obtain ⟨hanswer, hanswer', heffect, heffect', hfound, -, hlost⟩ :=
    removal_takes_one_leaf Memory.empty DiskConfig.default inputs "/sandbox" "/"
  obtain ⟨-, -, -, -, -, hfull, -⟩ :=
    removal_takes_one_leaf Memory.empty DiskConfig.default inputs "/a" "/"
  have hok : removed.2 = .ok () := hanswer.trans rfl
  have hok' : removedDirectory.2 = .ok () := hanswer'.trans rfl
  have hkinds : ∀ c ∈ changes, c.onlyAdds = true ∨ c.isRemoval = true := by decide
  have hgone : (d.applyAll changes).tree.node? ["a", "f"] = none := rfl
  exact ⟨hok, (heffect hok).face?_eq [] (by decide), hok', (heffect' hok').gone [],
    hfound (by decide) (by rw [htree]; decide), rfl, (hfull rfl).2, hkinds, hgone,
    hlost changes hkinds ["a", "f"] (by rw [htree]; decide) hgone⟩

end Disk

end DiskShell
