import DiskShell.Proofs.Tree.Focus

/-!
Trees seen path by path. Names lead to a node one step at a time (`node?_eq_descend?`), so what lies
below a path depends on the node there alone. A node shows its content or the names in it: its face.
With another directory in focus every path that does not lead through the focus shows the face that
it showed (`face?_replace`); and where that directory differs in one entry only, so do the trees
(`differsAt_replace`).
-/

namespace DiskShell

/-! ## Paths that part -/

namespace Path

/-- Neither path leads through the other. -/
def Apart (p q : List String) : Prop := ¬ p <+: q ∧ ¬ q <+: p

variable {p p' q q' : List String}

theorem Apart.symm (h : Apart p q) : Apart q p := ⟨h.2, h.1⟩

/-- Paths that part never meet again. -/
theorem Apart.mono (h : Apart p q) (hp : p <+: p') (hq : q <+: q') : Apart p' q' := by
  have hcommon : ∀ {r : List String}, p <+: r → ¬ q <+: r := fun hpr hqr =>
    (List.prefix_or_prefix_of_prefix hpr hqr).elim h.1 h.2
  exact ⟨fun hle => hcommon (hp.trans hle) hq, fun hle => hcommon hp (hq.trans hle)⟩

theorem not_concat_prefix (parent : List String) (name : String) :
    ¬ parent ++ [name] <+: parent := by
  intro h
  have hle := h.length_le
  rw [List.length_append, List.length_singleton] at hle
  omega

theorem lastName_append (parent : List String) (name : String) :
    lastName (parent ++ [name]) = name := by
  simp [lastName]

end Path

/-! ## One step at a time -/

namespace Node

def step? (n : Node) (name : String) : Option Node := n.directory?.bind fun d => d.child? name

/-- Where names lead from a node. -/
def descend? (n : Node) (names : List String) : Option Node := names.foldlM step? n

theorem descend?_append (n : Node) (names rest : List String) :
    n.descend? (names ++ rest) = (n.descend? names).bind fun m => m.descend? rest :=
  List.foldlM_append

/-- Nothing lies below a file. -/
theorem descend?_file (content : String) {names : List String} (h : names ≠ []) :
    (file content).descend? names = none := by
  cases names with
  | nil => exact absurd rfl h
  | cons name rest => rfl

end Node

namespace Tree

variable {t t' : Tree} {name : String} {names p q : List String}

theorem directory?_eq_descend? (t : Tree) (names : List String) :
    t.directory? names = ((Node.directory t).descend? names).bind Node.directory? := by
  induction names generalizing t with
  | nil => rfl
  | cons name rest ih =>
    rw [directory?_cons, Node.descend?, List.foldlM_cons]
    show _ = ((t.child? name).bind _).bind _
    cases t.child? name with
    | none => rfl
    | some n =>
      cases n with
      | file c => cases rest <;> rfl
      | directory d => exact ih d

/-- **A look-up goes one step at a time**, from the root. -/
theorem node?_eq_descend? (t : Tree) (names : List String) :
    t.node? names = (Node.directory t).descend? names := by
  rcases List.eq_nil_or_concat names with rfl | ⟨parent, name, rfl⟩
  · rfl
  · rw [List.concat_eq_append, node?_append, directory?_eq_descend?, Node.descend?_append,
      Option.bind_assoc]
    congr 1
    funext n
    simp [Node.descend?, Node.step?]

theorem node?_cons (t : Tree) (name : String) (rest : List String) :
    t.node? (name :: rest) = (t.child? name).bind fun n => n.descend? rest := by
  rw [node?_eq_descend?, Node.descend?, List.foldlM_cons]
  rfl

theorem node?_append_eq_bind (t : Tree) (names rest : List String) :
    t.node? (names ++ rest) = (t.node? names).bind fun n => n.descend? rest := by
  simp only [node?_eq_descend?, Node.descend?_append]

/-- Where the same node stands, the same lies below. -/
theorem node?_append_congr (h : t'.node? p = t.node? q) (rest : List String) :
    t'.node? (p ++ rest) = t.node? (q ++ rest) := by
  rw [node?_append_eq_bind, node?_append_eq_bind, h]

theorem node?_append_of_none (h : t.node? p = none) (rest : List String) :
    t.node? (p ++ rest) = none := by
  rw [node?_append_eq_bind, h, Option.bind_none]

theorem node?_append_of_file {content : String} (h : t.node? p = some (.file content))
    {rest : List String} (hrest : rest ≠ []) : t.node? (p ++ rest) = none := by
  rw [node?_append_eq_bind, h, Option.bind_some, Node.descend?_file content hrest]

/-- Nothing lies below a file or an empty directory. -/
theorem node?_append_of_leaf {n : Node} (h : t.node? p = some n) (hleaf : n.isFull = false)
    {rest : List String} (hrest : rest ≠ []) : t.node? (p ++ rest) = none := by
  cases n with
  | file c => exact node?_append_of_file h hrest
  | directory d =>
    have hd : d = [] := by simpa [Node.isFull] using hleaf
    subst hd
    cases rest with
    | nil => exact absurd rfl hrest
    | cons m rest =>
      rw [node?_append_eq_bind, h]
      rfl

theorem node?_append_of_directory? {d : Directory} (h : t.directory? p = some d)
    (rest : List String) : t.node? (p ++ rest) = node? d rest := by
  rw [node?_append_eq_bind, node?_of_directory? h, Option.bind_some, node?_eq_descend?]

theorem node?_cons_of_child? {d : Directory} (h : t.child? name = some (.directory d))
    (rest : List String) : t.node? (name :: rest) = node? d rest := by
  rw [node?_cons, h, Option.bind_some, node?_eq_descend?]

theorem node?_insert_cons (t : Tree) (name : String) (d : Directory) (rest : List String) :
    node? (t.insert name (.directory d)) (name :: rest) = node? d rest :=
  node?_cons_of_child? (Directory.child?_insert_self t name _) rest

/-- Only the children under the first name count. -/
theorem node?_cons_congr (h : Directory.child? t' name = t.child? name) (rest : List String) :
    t'.node? (name :: rest) = t.node? (name :: rest) := by
  rw [node?_cons, node?_cons, h]

end Tree

/-! ## Faces -/

/-- What a node shows of itself: a file its content, a directory the names in it. -/
inductive Face where
  | file (content : String)
  | directory (names : List String)
  deriving DecidableEq, Repr

/-- The same file, or a directory with other names in it. -/
def Face.relist (change : List String → List String) : Face → Face
  | file content => file content
  | directory names => directory (change names)

def Face.isDirectory : Face → Bool
  | file _ => false
  | directory _ => true

theorem Face.isDirectory_relist (change : List String → List String) (face : Face) :
    (face.relist change).isDirectory = face.isDirectory := by
  cases face <;> rfl

theorem Face.relist_id : relist id = id := by
  funext face
  cases face <;> rfl

theorem Face.relist_comp (f g : List String → List String) :
    relist g ∘ relist f = relist (g ∘ f) := by
  funext face
  cases face <;> rfl

def Node.face : Node → Face
  | file content => .file content
  | directory d => .directory (Directory.names d)

/-- The face of the node at a path. -/
def Tree.face? (t : Tree) (names : List String) : Option Face := (t.node? names).map Node.face

namespace Tree

variable {t t' : Tree} {name : String} {names parent q : List String} {f : Focus} {d : Directory}

theorem face?_of_node? {n : Node} (h : t.node? names = some n) : t.face? names = some n.face := by
  rw [face?, h]
  rfl

theorem face?_of_directory? (h : t.directory? names = some d) :
    t.face? names = some (.directory (Directory.names d)) :=
  face?_of_node? (node?_of_directory? h)

theorem isSome_directory?_eq (t : Tree) (names : List String) :
    (t.directory? names).isSome = (t.face? names).any Face.isDirectory := by
  rw [directory?_eq_bind_node?, face?]
  cases t.node? names with
  | none => rfl
  | some n => cases n <;> rfl

/-! ## Another directory in focus -/

theorem node?_replace_append (hf : t.focus? names = some f) (d : Directory) (rest : List String) :
    node? (f.replace d) (names ++ rest) = node? d rest := by
  have hd : directory? (f.replace d) names = some d := by
    have h := directory?_replace_append hf d []
    rwa [List.append_nil] at h
  exact node?_append_of_directory? hd rest

/-- Beside the way to the focus nothing changes; on the way the directories keep their names. -/
theorem node?_replace_cases (hf : t.focus? names = some f) (d : Directory) (hq : ¬ names <+: q) :
    node? (f.replace d) q = t.node? q ∨
      q <+: names ∧ ∃ s s' : Directory, t.node? q = some (.directory s) ∧
        node? (f.replace d) q = some (.directory s') ∧ s'.names = s.names := by
  -- on the way to the focus, as long as `q` goes the same way
  induction names generalizing t f q with
  | nil => exact absurd List.nil_prefix hq
  | cons name rest ih =>
    obtain ⟨x, g, hx, hg, rfl⟩ := focus?_cons_eq_some_iff.mp hf
    cases q with
    | nil =>
      have hmem : name ∈ t.names := List.mem_map_of_mem (Directory.mem_of_child? hx)
      exact Or.inr ⟨List.nil_prefix, t, _, rfl, rfl, Directory.names_insert_of_mem hmem _⟩
    | cons m q =>
      by_cases hm : m = name
      · subst hm
        have hrest : ¬ rest <+: q := fun h => hq (List.cons_prefix_cons.mpr ⟨rfl, h⟩)
        rw [node?_insert_cons, node?_cons_of_child? hx]
        refine (ih hg hrest).imp_right fun ⟨hle, hnodes⟩ => ⟨?_, hnodes⟩
        exact List.cons_prefix_cons.mpr ⟨rfl, hle⟩
      · exact Or.inl (node?_cons_congr (Directory.child?_insert_of_ne hm t _) q)

theorem node?_replace_of_apart (hf : t.focus? names = some f) (d : Directory)
    (hq : Path.Apart q names) : node? (f.replace d) q = t.node? q :=
  (node?_replace_cases hf d hq.2).resolve_right fun h => hq.1 h.1

theorem face?_replace (hf : t.focus? names = some f) (d : Directory) (hq : ¬ names <+: q) :
    face? (f.replace d) q = t.face? q := by
  rcases node?_replace_cases hf d hq with hsame | ⟨-, s, s', hs, hs', hnames⟩
  · rw [face?, hsame, face?]
  · rw [face?_of_node? hs, face?_of_node? hs', Node.face, Node.face, hnames]

/-! ## One entry changed -/

/-- The trees differ in one entry: in what lies at a path and below it, and in how the names are
listed in the directory that holds its last name. -/
structure DiffersAt (names : List String) (change : List String → List String) (t t' : Tree) :
    Prop where
  node?_eq : ∀ q, Path.Apart q names → t'.node? q = t.node? q
  face?_eq : ∀ q, ¬ names <+: q →
    t'.face? q = (t.face? q).map (Face.relist (if q = names.dropLast then change else id))

/-- Where one entry is changed there is a directory as before, but at the entry and below it. -/
theorem DiffersAt.isSome_directory?_eq {change : List String → List String}
    (h : DiffersAt names change t t') (hq : ¬ names <+: q) :
    (t'.directory? q).isSome = (t.directory? q).isSome := by
  rw [Tree.isSome_directory?_eq, Tree.isSome_directory?_eq, h.face?_eq q hq, Option.any_map]
  simp only [Face.isDirectory_relist]

/-- Below a directory that has changed under one name, the other names lead where they led. -/
theorem node?_replace_other (hf : t.focus? parent = some f)
    (hd : ∀ m, m ≠ name → d.child? m = Directory.child? f.found m) {rest : List String}
    (hne : rest ≠ []) (hrest : ¬ [name] <+: rest) :
    node? (f.replace d) (parent ++ rest) = t.node? (parent ++ rest) := by
  rw [node?_replace_append hf, node?_append_of_directory? (directory?_of_focus? hf)]
  cases rest with
  | nil => exact absurd rfl hne
  | cons m rest =>
    have hm : m ≠ name := by
      rintro rfl
      exact hrest ⟨rest, rfl⟩
    exact node?_cons_congr (hd m hm) rest

/-- Directories that differ under one name make trees that differ in one entry. -/
theorem differsAt_replace (hf : t.focus? parent = some f) {change : List String → List String}
    (hd : ∀ m, m ≠ name → d.child? m = Directory.child? f.found m)
    (hnames : d.names = change (Directory.names f.found)) :
    DiffersAt (parent ++ [name]) change t (f.replace d) := by
  have happend (rest : List String) : parent ++ [name] <+: parent ++ rest ↔ [name] <+: rest :=
    List.prefix_append_right_inj parent
  constructor
  case node?_eq =>
    intro q hq
    by_cases hparent : parent <+: q
    · obtain ⟨rest, rfl⟩ := hparent
      refine node?_replace_other hf hd ?_ (mt (happend rest).mpr hq.2)
      rintro rfl
      exact hq.1 ⟨[name], by simp⟩
    · refine node?_replace_of_apart hf d ⟨fun hle => ?_, hparent⟩
      exact hq.1 (hle.trans (List.prefix_append parent [name]))
  case face?_eq =>
    intro q hq
    rw [List.dropLast_concat]
    by_cases hq' : q = parent
    · subst hq'
      have hnew := node?_replace_append hf d []
      rw [List.append_nil] at hnew
      rw [if_pos rfl, face?_of_directory? (directory?_of_focus? hf), face?_of_node? hnew]
      exact congrArg (fun names => some (Face.directory names)) hnames
    · rw [if_neg hq', Face.relist_id, Option.map_id, id_eq]
      by_cases hparent : parent <+: q
      · obtain ⟨rest, rfl⟩ := hparent
        have hne : rest ≠ [] := by simpa using hq'
        rw [face?, node?_replace_other hf hd hne (mt (happend rest).mpr hq), face?]
      · exact face?_replace hf d hparent

theorem differsAt_insert (hf : t.focus? parent = some f) (name : String) (n : Node) :
    DiffersAt (parent ++ [name]) (Directory.enlist · [name]) t
      (f.replace (f.found.insert name n)) :=
  differsAt_replace hf (fun _ hm => Directory.child?_insert_of_ne hm f.found n)
    (Directory.names_insert f.found name n)

theorem differsAt_insert_new (hf : t.focus? parent = some f)
    (hfree : Directory.child? f.found name = none) (n : Node) :
    DiffersAt (parent ++ [name]) (· ++ [name]) t (f.replace (f.found.insert name n)) := by
  refine differsAt_replace hf (fun m hm => Directory.child?_insert_of_ne hm f.found n) ?_
  rw [Directory.insert_of_not_mem (Directory.not_mem_names_iff.mpr hfree), Directory.names,
    List.map_append]
  rfl

theorem differsAt_remove (hf : t.focus? parent = some f) {n : Node}
    (hd : Directory.remove? f.found name = some (n, d)) :
    DiffersAt (parent ++ [name]) (·.erase name) t (f.replace d) := by
  rw [Directory.remove?_eq] at hd
  obtain ⟨x, -, heq⟩ := Option.map_eq_some_iff.mp hd
  cases heq
  refine differsAt_replace hf (fun m hm => Directory.child?_eraseP_of_ne hm f.found) ?_
  exact Directory.names_eraseP f.found name

end Tree

end DiskShell
