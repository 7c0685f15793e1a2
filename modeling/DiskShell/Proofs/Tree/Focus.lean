import DiskShell.Proofs.Node.Shape

/-!
Looking up and replacing directories in a tree. A focus finds what a look-up finds
(`map_found_focus?`). With another directory in its place, everything below it is looked up in that
directory (`directory?_replace_append`).
-/

namespace DiskShell

/-! ## Paths and parents -/

namespace Path

theorem parentAndName?_append (parent : List String) (name : String) :
    parentAndName? (parent ++ [name]) = some (parent, name) := by
  cases parent with
  | nil => rfl
  | cons a rest =>
    have hlast : (rest ++ [name]).getLastD a = name := List.getLastD_concat
    have hinit : ((a :: rest) ++ [name]).dropLast = a :: rest := List.dropLast_concat
    rw [List.cons_append] at hinit ⊢
    rw [parentAndName?, hlast, hinit]

theorem parentAndName?_eq_some_iff {names parent : List String} {name : String} :
    parentAndName? names = some (parent, name) ↔ names = parent ++ [name] := by
  constructor
  · intro h
    rcases List.eq_nil_or_concat names with rfl | ⟨before, last, rfl⟩
    · cases h
    · rw [List.concat_eq_append] at h ⊢
      rw [parentAndName?_append] at h
      cases h
      rfl
  · rintro rfl
    exact parentAndName?_append parent name

end Path

namespace Tree

/-! ## Looking up -/

theorem directory?_cons (t : Tree) (name : String) (rest : List String) :
    t.directory? (name :: rest) =
      ((t.child? name).bind Node.directory?).bind fun d => directory? d rest := by
  simp [directory?, List.foldlM_cons]

theorem directory?_append (t : Tree) (names rest : List String) :
    t.directory? (names ++ rest) = (t.directory? names).bind fun d => directory? d rest := by
  simp [directory?, List.foldlM_append]

theorem node?_append (t : Tree) (parent : List String) (name : String) :
    t.node? (parent ++ [name]) = (t.directory? parent).bind fun d => d.child? name := by
  rw [node?, Path.parentAndName?_append]

/-- The directories are found among the nodes. -/
theorem directory?_eq_bind_node? (t : Tree) (names : List String) :
    t.directory? names = (t.node? names).bind Node.directory? := by
  rcases List.eq_nil_or_concat names with rfl | ⟨parent, name, rfl⟩
  · rfl
  · rw [List.concat_eq_append, node?_append, directory?_append, Option.bind_assoc]
    congr 1
    funext d
    rw [directory?_cons]
    cases (d.child? name).bind Node.directory? <;> rfl

theorem directory?_of_node? {t : Tree} {names : List String} {d : Directory}
    (h : t.node? names = some (.directory d)) : t.directory? names = some d := by
  rw [directory?_eq_bind_node?, h]
  rfl

theorem node?_of_directory? {t : Tree} {names : List String} {d : Directory}
    (h : t.directory? names = some d) : t.node? names = some (.directory d) := by
  rw [directory?_eq_bind_node?] at h
  obtain ⟨n, hn, hdir⟩ := Option.bind_eq_some_iff.mp h
  cases n with
  | file c => cases hdir
  | directory s =>
    cases hdir
    exact hn

/-! ## Focus -/

/-- A step into a focus: into a child that is a directory, and back by inserting it again. -/
theorem focus?_cons_eq_some_iff {t : Tree} {name : String} {rest : List String} {f : Focus} :
    t.focus? (name :: rest) = some f ↔
      ∃ d g, t.child? name = some (.directory d) ∧ focus? d rest = some g ∧
        f = ⟨g.found, fun x => t.insert name (.directory (g.replace x))⟩ := by
  rw [focus?]
  constructor
  · intro h
    split at h
    · next d hd =>
      obtain ⟨g, hg, rfl⟩ := Option.map_eq_some_iff.mp h
      exact ⟨d, g, hd, hg, rfl⟩
    · cases h
  · rintro ⟨d, g, hd, hg, rfl⟩
    rw [hd]
    simp [hg]

theorem map_found_focus? (t : Tree) (names : List String) :
    (t.focus? names).map Focus.found = t.directory? names := by
  induction names generalizing t with
  | nil => rfl
  | cons name rest ih =>
    rw [directory?_cons, focus?]
    cases t.child? name with
    | none => rfl
    | some n =>
      cases n with
      | file c => rfl
      | directory d => simp [Node.directory?, ← ih, Function.comp_def]

theorem directory?_of_focus? {t : Tree} {names : List String} {f : Focus}
    (hf : t.focus? names = some f) : t.directory? names = some f.found := by
  rw [← map_found_focus?, hf]
  rfl

theorem exists_focus?_of_directory? {t : Tree} {names : List String} {d : Directory}
    (h : t.directory? names = some d) : ∃ f, t.focus? names = some f ∧ f.found = d := by
  rw [← map_found_focus?] at h
  exact Option.map_eq_some_iff.mp h

theorem parentFocus?_eq_some_iff {t : Tree} {names : List String} {f : Focus} {name : String} :
    t.parentFocus? names = some (f, name) ↔
      ∃ parent, names = parent ++ [name] ∧ t.focus? parent = some f := by
  constructor
  · intro h
    obtain ⟨⟨parent, last⟩, hsplit, hmap⟩ := Option.bind_eq_some_iff.mp h
    obtain ⟨g, hg, heq⟩ := Option.map_eq_some_iff.mp hmap
    cases heq
    exact ⟨parent, Path.parentAndName?_eq_some_iff.mp hsplit, hg⟩
  · rintro ⟨parent, rfl, hf⟩
    rw [parentFocus?, Path.parentAndName?_append]
    simp [hf]

/-- Below the focus the new directory is looked up. -/
theorem directory?_replace_append {t : Tree} {names : List String} {f : Focus}
    (hf : t.focus? names = some f) (d : Directory) (rest : List String) :
    directory? (f.replace d) (names ++ rest) = directory? d rest := by
  induction names generalizing t f with
  | nil =>
    cases hf
    rfl
  | cons name names ih =>
    obtain ⟨x, g, hx, hg, rfl⟩ := focus?_cons_eq_some_iff.mp hf
    rw [List.cons_append, directory?_cons, Directory.child?_insert_self]
    exact ih hg

/-! ## Names and levels -/

theorem isName_of_directory? {t : Tree} {names : List String} {d : Directory}
    (ht : Directory.Tidy t) (h : t.directory? names = some d) :
    ∀ name ∈ names, Path.IsName name := by
  induction names generalizing t with
  | nil =>
    intro m hm
    cases hm
  | cons name rest ih =>
    rw [directory?_cons] at h
    obtain ⟨x, hx, hrest⟩ := Option.bind_eq_some_iff.mp h
    obtain ⟨n, hn, hdir⟩ := Option.bind_eq_some_iff.mp hx
    obtain ⟨hname, htidy⟩ := ht.child hn
    cases n with
    | file c => cases hdir
    | directory s =>
      cases hdir
      intro m hm
      rcases List.mem_cons.mp hm with rfl | hm
      · exact hname
      · exact ih htidy hrest m hm

theorem tidy_found {t : Tree} {names : List String} {f : Focus} (ht : Directory.Tidy t)
    (hf : t.focus? names = some f) : Directory.Tidy f.found := by
  induction names generalizing t f with
  | nil =>
    cases hf
    exact ht
  | cons name rest ih =>
    obtain ⟨d, g, hd, hg, rfl⟩ := focus?_cons_eq_some_iff.mp hf
    have hfound := ih (ht.child hd).2 hg
    exact hfound

theorem tidy_directory? {t : Tree} {names : List String} {d : Directory}
    (ht : Directory.Tidy t) (h : t.directory? names = some d) : Directory.Tidy d := by
  obtain ⟨f, hf, rfl⟩ := exists_focus?_of_directory? h
  exact tidy_found ht hf

/-- Only names that can be the steps of a path lead to a node. -/
theorem isName_of_node? {t : Tree} {names : List String} {n : Node} (ht : Directory.Tidy t)
    (h : t.node? names = some n) : ∀ name ∈ names, Path.IsName name := by
  rcases List.eq_nil_or_concat names with rfl | ⟨parent, last, rfl⟩
  · intro m hm
    cases hm
  · rw [List.concat_eq_append] at h ⊢
    rw [node?_append] at h
    obtain ⟨d, hd, hchild⟩ := Option.bind_eq_some_iff.mp h
    intro m hm
    rcases List.mem_append.mp hm with hm | hm
    · exact isName_of_directory? ht hd m hm
    · rw [List.mem_singleton.mp hm]
      exact ((tidy_directory? ht hd).child hchild).1

theorem tidy_replace {t : Tree} {names : List String} {f : Focus} (ht : Directory.Tidy t)
    (hf : t.focus? names = some f) {d : Directory} (hd : d.Tidy) :
    Directory.Tidy (f.replace d) := by
  induction names generalizing t f with
  | nil =>
    cases hf
    exact hd
  | cons name rest ih =>
    obtain ⟨x, g, hx, hg, rfl⟩ := focus?_cons_eq_some_iff.mp hf
    obtain ⟨hname, hx⟩ := ht.child hx
    exact ht.insert hname (ih hx hg)

/-- A directory that is found has as many levels above it as there are names on the way. -/
theorem levels_found_le {t : Tree} {names : List String} {f : Focus}
    (hf : t.focus? names = some f) :
    names.length + Directory.levels f.found ≤ Directory.levels t := by
  induction names generalizing t f with
  | nil =>
    cases hf
    simp
  | cons name rest ih =>
    obtain ⟨d, g, hd, hg, rfl⟩ := focus?_cons_eq_some_iff.mp hf
    have hle := ih hg
    have hmem := Directory.levels_of_mem (Directory.mem_of_child? hd)
    simp only [Node.levels] at hmem
    simp only [List.length_cons]
    omega

theorem levels_replace_le {t : Tree} {names : List String} {f : Focus}
    (hf : t.focus? names = some f) (d : Directory) :
    Directory.levels (f.replace d) ≤
      max (Directory.levels t) (names.length + Directory.levels d) := by
  induction names generalizing t f with
  | nil =>
    cases hf
    simp only [id, List.length_nil]
    omega
  | cons name rest ih =>
    obtain ⟨x, g, hx, hg, rfl⟩ := focus?_cons_eq_some_iff.mp hf
    have hle := ih hg
    have hmem := Directory.levels_of_mem (Directory.mem_of_child? hx)
    have hinsert := Directory.levels_insert_le t name (.directory (g.replace d))
    simp only [Node.levels] at hmem hinsert
    simp only [List.length_cons]
    omega

end Tree

end DiskShell
