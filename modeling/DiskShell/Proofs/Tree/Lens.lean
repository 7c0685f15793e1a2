import DiskShell.Proofs.Tree.Face

/-!
A focus is a lens. The walk that can replace a directory finds the one that the walk that only reads
finds, in every tree, also where siblings share a name. What is put in its place is found there, with
all that lies below it, and every path that does not lead there shows what it showed
(`focus_is_lens`).
-/

namespace DiskShell.Tree

/-- What a focus at a path of a tree does: it finds the directory there; to put that back changes
nothing; and with another directory in its place the focus is that directory, in the same place. -/
structure IsLens (t : Tree) (names : List String) (f : Focus) : Prop where
  directory?_eq : t.directory? names = some f.found
  replace_found : f.replace f.found = t
  focus?_replace : ∀ d, focus? (f.replace d) names = some ⟨d, f.replace⟩
  directory?_replace : ∀ d, directory? (f.replace d) names = some d
  /-- Below the path everything is looked up in the new directory. -/
  node?_below : ∀ d rest, node? (f.replace d) (names ++ rest) = node? d rest
  /-- No other path has another kind of node, another content or other names in its directory. -/
  face?_beside : ∀ d q, ¬ names <+: q → face? (f.replace d) q = t.face? q
  /-- Off the way to the path the nodes are the same, with all that lies below them. -/
  node?_apart : ∀ d q, Path.Apart q names → node? (f.replace d) q = t.node? q

variable {t : Tree} {names : List String} {f : Focus}

/-- To put the directory back that was found changes nothing. -/
theorem replace_found (hf : t.focus? names = some f) : f.replace f.found = t := by
  induction names generalizing t f with
  | nil =>
    cases hf
    rfl
  | cons name rest ih =>
    obtain ⟨d, g, hd, hg, rfl⟩ := focus?_cons_eq_some_iff.mp hf
    show t.insert name (.directory (g.replace g.found)) = t
    rw [ih hg]
    exact Directory.insert_child? hd

/-- Whatever has been put in focus can be replaced in its turn, as if it had not been there. -/
theorem focus?_replace (hf : t.focus? names = some f) (d : Directory) :
    focus? (f.replace d) names = some ⟨d, f.replace⟩ := by
  induction names generalizing t f with
  | nil =>
    cases hf
    rfl
  | cons name rest ih =>
    obtain ⟨x, g, -, hg, rfl⟩ := focus?_cons_eq_some_iff.mp hf
    refine focus?_cons_eq_some_iff.mpr ⟨g.replace d, ⟨d, g.replace⟩, ?_, ih hg, ?_⟩
    · exact Directory.child?_insert_self t name _
    · simp only [Directory.insert_insert]

/-- A focus goes down from place to place, and puts back on the way what it found there. -/
theorem focus?_cons_eq_bind_slot? (t : Tree) (name : String) (rest : List String) :
    t.focus? (name :: rest) = (t.slot? name).bind fun s =>
      s.found.directory?.bind fun d => (focus? d rest).map fun f =>
        ⟨f.found, fun d => s.put (name, .directory (f.replace d))⟩ := by
  rw [focus?, ← Directory.map_found_slot?]
  cases hs : t.slot? name with
  | none => rfl
  | some s =>
    have hput := Directory.put_slot? hs
    cases hfound : s.found with
    | file c => simp [hfound, Node.directory?]
    | directory d => simp [hfound, Node.directory?, hput]

theorem isLens_of_focus? (hf : t.focus? names = some f) : IsLens t names f where
  directory?_eq := directory?_of_focus? hf
  replace_found := replace_found hf
  focus?_replace := focus?_replace hf
  directory?_replace d := directory?_of_focus? (focus?_replace hf d)
  node?_below := node?_replace_append hf
  face?_beside d _ hq := face?_replace hf d hq
  node?_apart d _ hq := node?_replace_of_apart hf d hq

theorem map_found_parentFocus? (t : Tree) (names : List String) :
    (t.parentFocus? names).map (fun p => p.1.found) = t.parent? names := by
  rw [parentFocus?, parent?, Option.map_bind]
  congr 1
  funext split
  rw [Function.comp_apply, Option.map_map, ← map_found_focus?]
  rfl

theorem parent?_append (t : Tree) (parent : List String) (name : String) :
    t.parent? (parent ++ [name]) = t.directory? parent := by
  rw [parent?, Path.parentAndName?_append, Option.bind_some]

/-- **A focus is a lens.** The directory in focus is the one that a look-up finds, and it is in focus
if a look-up finds one; so it is with the directory that is to hold the last name of a path. The way
to it goes from place to place, and back by putting each new directory in its place. To replace it is
to change what is found there and below, and nothing else. A look-up of a node goes from child to
child. -/
theorem focus_is_lens (t : Tree) (names : List String) :
    (t.focus? names).map Focus.found = t.directory? names ∧
      (∀ name, t.focus? (name :: names) = (t.slot? name).bind fun s =>
        s.found.directory?.bind fun d => (focus? d names).map fun f =>
          ⟨f.found, fun d => s.put (name, .directory (f.replace d))⟩) ∧
      (∀ f, t.focus? names = some f → IsLens t names f) ∧
      (t.parentFocus? names).map (fun p => p.1.found) = t.parent? names ∧
      (∀ f name, t.parentFocus? names = some (f, name) →
        names = names.dropLast ++ [name] ∧ IsLens t names.dropLast f ∧
          ∀ d, parent? (f.replace d) names = some d) ∧
      t.node? names = names.foldlM Node.step? (.directory t) := by
  refine ⟨map_found_focus? t names, fun name => focus?_cons_eq_bind_slot? t name names,
    fun f => isLens_of_focus?, map_found_parentFocus? t names, fun f name hf => ?_,
    node?_eq_descend? t names⟩
  obtain ⟨parent, rfl, hparent⟩ := parentFocus?_eq_some_iff.mp hf
  have hlens := isLens_of_focus? hparent
  rw [List.dropLast_concat]
  refine ⟨rfl, hlens, fun d => ?_⟩
  rw [parent?_append]
  exact hlens.directory?_replace d

/-- Of two siblings with one name the first is in focus, and the second stays. -/
theorem focus_on_first_sibling :
    let t : Tree := [("a", .directory []), ("a", .file "x")]
    let d : Directory := [("b", .file "y")]
    ∃ f, t.focus? ["a"] = some f ∧ IsLens t ["a"] f ∧
      f.replace d = [("a", .directory d), ("a", .file "x")] ∧
      t.parentFocus? ["a", "c"] = some (f, "c") ∧ parent? (f.replace d) ["a", "c"] = some d := by
  intro t d
  have hf : t.focus? ["a"] = some ⟨[], fun d => t.insert "a" (.directory d)⟩ := rfl
  have hparent : t.parentFocus? ["a", "c"] =
      some (⟨[], fun d => t.insert "a" (.directory d)⟩, "c") := rfl
  obtain ⟨-, -, hlens, -, -, -⟩ := focus_is_lens t ["a"]
  obtain ⟨-, -, -, -, hparents, -⟩ := focus_is_lens t ["a", "c"]
  exact ⟨_, hf, hlens _ hf, rfl, hparent, (hparents _ _ hparent).2.2 d⟩

end DiskShell.Tree
