import DiskShell.Proofs.Tree.Growth
import Mathlib.Data.List.Infix

/-!
What an edit that succeeds has done, said of every path: which paths lead to something else now, and
how the names are listed in the directories on the way (`Written`, `DirectoriesMade`, `Copied`,
`Removed`, `Moved`). Away from the paths it is given an edit does nothing, whether it succeeds or
fails (`AgreeBeside`).
-/

namespace DiskShell.Tree

variable {t t' : Tree} {name : String} {names parent p q source target : List String}
  {content : String} {n : Node} {d : Directory}

/-! ## Files -/

/-- The file has been written: every other path shows what it showed, and the directory lists the
file where it stood, or last if it is new. -/
structure Written (names : List String) (content : String) (t t' : Tree) : Prop where
  node?_eq : t'.node? names = some (.file content)
  listed : ∃ d, t.directory? names.dropLast = some d ∧ t'.face? names.dropLast =
    some (.directory (Directory.enlist d.names [Path.lastName names]))
  face?_eq : ∀ q, q ≠ names → t'.face? q = (t.face? q).map (Face.relist
    (if q = names.dropLast then (Directory.enlist · [Path.lastName names]) else id))

/-- Below a path where a file has come in the place of a file or of nothing there is nothing. -/
theorem face?_append_of_no_directory (hnew : t'.node? p = some (.file content))
    (hold : t.directory? p = none) {rest : List String} (hrest : rest ≠ []) :
    t'.face? (p ++ rest) = none ∧ t.face? (p ++ rest) = none := by
  have hbelow : t.node? (p ++ rest) = none := by
    rw [directory?_eq_bind_node?] at hold
    cases hnode : t.node? p with
    | none => exact node?_append_of_none hnode rest
    | some n =>
      cases n with
      | file c => exact node?_append_of_file hnode hrest
      | directory d =>
        rw [hnode] at hold
        cases hold
  rw [face?, face?, node?_append_of_file hnew hrest, hbelow]
  exact ⟨rfl, rfl⟩

theorem written_of_write (h : t.write names content = (t', .ok ())) :
    Written names content t t' := by
  obtain ⟨-, parent, name, f, rfl, hf, hfree, rfl⟩ := exists_focus_of_write h
  have hfound := directory?_of_focus? hf
  have hnew := node?_replace_insert hf f.found name (.file content)
  have hdiff := differsAt_insert hf name (.file content)
  constructor
  case node?_eq => exact hnew
  case listed =>
    refine ⟨f.found, by rw [List.dropLast_concat, hfound], ?_⟩
    have hlisted := hdiff.face?_eq parent (Path.not_concat_prefix parent name)
    rw [face?_of_directory? hfound, List.dropLast_concat, if_pos rfl] at hlisted
    rw [List.dropLast_concat, Path.lastName_append]
    exact hlisted
  case face?_eq =>
    intro q hq
    by_cases hbelow : parent ++ [name] <+: q
    · obtain ⟨rest, rfl⟩ := hbelow
      have hdir : t.directory? (parent ++ [name]) = none := by
        rw [directory?_eq_bind_node?, node?_append, hfound]
        exact hfree
      have hrest : rest ≠ [] := by
        rintro rfl
        exact hq (List.append_nil _)
      obtain ⟨hnone, hnone'⟩ := face?_append_of_no_directory hnew hdir hrest
      rw [hnone, hnone', Option.map_none]
    · rw [Path.lastName_append]
      exact hdiff.face?_eq q hbelow

/-! ## New directories -/

/-- The names in the directory at a path; where there is none, there are none. -/
def namesAt (t : Tree) (names : List String) : List String :=
  ((t.directory? names).map Directory.names).getD []

/-- The directory in which a walk that makes what is missing goes on below a name. -/
def entered (t : Tree) (name : String) : Directory :=
  ((t.child? name).bind Node.directory?).getD []

/-- One step of the walk, unless a file is in the way. -/
theorem addPath_cons_entered (h : ∀ c, t.child? name ≠ some (.file c)) (rest : List String) :
    t.addPath (name :: rest) =
      (t.insert name (.directory (addPath (t.entered name) rest).1),
        (addPath (t.entered name) rest).2) := by
  rw [addPath_cons, entered]
  cases hchild : t.child? name with
  | none => rfl
  | some n =>
    cases n with
    | file c => exact absurd hchild (h c)
    | directory d => rfl

theorem namesAt_entered (t : Tree) (name : String) (rest : List String) :
    namesAt (t.entered name) rest = t.namesAt (name :: rest) := by
  rw [namesAt, namesAt, directory?_cons, entered]
  cases (t.child? name).bind Node.directory? with
  | none => cases rest <;> rfl
  | some d => rfl

theorem node?_entered (h : ∀ c, t.child? name ≠ some (.file c)) {rest : List String}
    (hrest : rest ≠ []) : node? (t.entered name) rest = t.node? (name :: rest) := by
  rw [entered]
  cases hchild : t.child? name with
  | none =>
    rw [node?_cons, hchild]
    cases rest with
    | nil => exact absurd rfl hrest
    | cons m rest => exact node?_cons [] m rest
  | some n =>
    cases n with
    | file c => exact absurd hchild (h c)
    | directory d => exact (node?_cons_of_child? hchild rest).symm

/-- Only the way to the directory is worked on. -/
theorem node?_addPath (t : Tree) (hq : ¬ q <+: names) :
    node? (t.addPath names).1 q = t.node? q := by
  induction names generalizing t q with
  | nil => rfl
  | cons name rest ih =>
    by_cases hfile : ∃ c, t.child? name = some (.file c)
    · obtain ⟨c, hc⟩ := hfile
      rw [addPath_cons, hc]
    · have hwalk : ∀ c, t.child? name ≠ some (.file c) := fun c hc => hfile ⟨c, hc⟩
      rw [addPath_cons_entered hwalk]
      cases q with
      | nil => exact absurd List.nil_prefix hq
      | cons m q =>
        by_cases hm : m = name
        · subst hm
          have hrest : ¬ q <+: rest := fun h => hq (List.cons_prefix_cons.mpr ⟨rfl, h⟩)
          have hne : q ≠ [] := by
            rintro rfl
            exact hrest List.nil_prefix
          rw [node?_insert_cons, ih _ hrest, node?_entered hwalk hne]
        · exact node?_cons_congr (Directory.child?_insert_of_ne hm t _) q

/-- A walk that has come through has met no file. -/
theorem addPath_cons_eq_ok {rest : List String} (h : t.addPath (name :: rest) = (t', .ok ())) :
    ∃ d, addPath (t.entered name) rest = (d, .ok ()) ∧ t' = t.insert name (.directory d) := by
  have hwalk : ∀ c, t.child? name ≠ some (.file c) := by
    intro c hc
    rw [addPath_cons, hc] at h
    cases h
  rw [addPath_cons_entered hwalk] at h
  cases hrest : addPath (t.entered name) rest with
  | mk d result =>
    rw [hrest] at h
    cases h
    exact ⟨d, rfl, rfl⟩

/-- On the way there are directories now, each with the next name, at the end if it is new. -/
theorem face?_addPath (h : t.addPath (q ++ p) = (t', .ok ())) :
    t'.face? q = some (.directory (Directory.enlist (t.namesAt q) (p.take 1))) := by
  -- the walk below a name is a walk of its own, in the directory it enters
  induction q generalizing t t' with
  | nil =>
    rw [face?_of_directory? (d := t') rfl]
    have hroot : t.namesAt [] = Directory.names t := rfl
    cases p with
    | nil =>
      cases h
      simp [hroot, Directory.enlist]
    | cons name rest =>
      obtain ⟨d, -, rfl⟩ := addPath_cons_eq_ok h
      rw [hroot, Directory.names_insert]
      rfl
  | cons name q ih =>
    obtain ⟨d, hd, rfl⟩ := addPath_cons_eq_ok h
    rw [face?, node?_insert_cons, ← namesAt_entered]
    exact ih hd

/-- The directories that lead to a path are there. Those that were missing have been added, each at
the end of the one above it and with nothing in it but the next; nothing else has changed. -/
structure DirectoriesMade (names : List String) (t t' : Tree) : Prop where
  reached : ∀ q, q <+: names → (t'.directory? q).isSome = true
  created : ∀ q rest, names = q ++ rest → t.node? q = none →
    t'.face? q = some (.directory (rest.take 1))
  extended : ∀ q rest d, names = q ++ rest → t.directory? q = some d →
    t'.face? q = some (.directory (Directory.enlist d.names (rest.take 1)))
  node?_eq : ∀ q, ¬ q <+: names → t'.node? q = t.node? q

theorem directoriesMade_of_makeDirectory (h : t.makeDirectory names = (t', .ok ())) :
    DirectoriesMade names t t' := by
  obtain ⟨-, h⟩ := after_eq_ok_iff.mp h
  have hface : ∀ q rest, names = q ++ rest → t'.face? q =
      some (.directory (Directory.enlist (t.namesAt q) (rest.take 1))) := by
    rintro q rest rfl
    exact face?_addPath h
  constructor
  case reached =>
    rintro q ⟨rest, hrest⟩
    rw [isSome_directory?_eq, hface q rest hrest.symm]
    rfl
  case created =>
    intro q rest hq hnone
    have hnames : t.namesAt q = [] := by
      rw [namesAt, directory?_eq_bind_node?, hnone]
      rfl
    rw [hface q rest hq, hnames]
    simp [Directory.enlist]
  case extended =>
    intro q rest d hq hd
    have hnames : t.namesAt q = Directory.names d := by
      rw [namesAt, hd]
      rfl
    rw [hface q rest hq, hnames]
  case node?_eq =>
    intro q hq
    have hsame := node?_addPath t hq
    rwa [h] at hsame

/-! ## Copies -/

/-- The subtree at `source` stands at `target` as well, last in its directory; nothing else has
changed. -/
structure Copied (source target : List String) (t t' : Tree) : Prop where
  arrived : ∀ rest, t'.node? (target ++ rest) = t.node? (source ++ rest)
  last : ∃ d, t.directory? target.dropLast = some d ∧
    t'.face? target.dropLast = some (.directory (Directory.names d ++ [Path.lastName target]))
  face?_eq : ∀ q, ¬ target <+: q → t'.face? q = (t.face? q).map
    (Face.relist (if q = target.dropLast then (· ++ [Path.lastName target]) else id))

/-- A node that has been placed where nothing was is found there, and is listed last. -/
theorem differsAt_place (h : t.place names n = (t', .ok ())) (hfree : t.node? names = none) :
    t'.node? names = some n ∧ DiffersAt names (· ++ [Path.lastName names]) t t' := by
  obtain ⟨parent, name, f, d, rfl, hf, hd, rfl⟩ := editsParent_of_editParent h
  cases hd
  rw [node?_append, directory?_of_focus? hf, Option.bind_some] at hfree
  rw [Path.lastName_append]
  exact ⟨node?_replace_insert hf f.found name n, differsAt_insert_new hf hfree n⟩

theorem copied_of_copy (h : t.copy source target = (t', .ok ())) : Copied source target t t' := by
  obtain ⟨htrans, h⟩ := after_eq_ok_iff.mp h
  obtain ⟨n, hn⟩ := exists_transferable htrans
  rw [hn.found] at h
  obtain ⟨hnew, hdiff⟩ := differsAt_place h (node?_of_ensureTransferable htrans)
  refine ⟨node?_append_congr (hnew.trans hn.found.symm), ?_, hdiff.face?_eq⟩
  obtain ⟨parent, name, d, rfl, hd⟩ := hn.parent
  refine ⟨d, by rw [List.dropLast_concat, hd], ?_⟩
  have hlisted := hdiff.face?_eq parent (Path.not_concat_prefix parent name)
  rw [face?_of_directory? hd, List.dropLast_concat, if_pos rfl] at hlisted
  rw [List.dropLast_concat]
  exact hlisted

/-! ## Removals -/

/-- A leaf has been taken away: a file, or a directory with nothing in it. Nothing is left at its
path, and apart from it every directory keeps its names in their order. -/
structure Removed (names : List String) (t t' : Tree) : Prop where
  leaf : ∃ n, t.node? names = some n ∧ n.isFull = false
  gone : ∀ rest, t'.node? (names ++ rest) = none
  node?_eq : ∀ q, Path.Apart q names → t'.node? q = t.node? q
  face?_eq : ∀ q, ¬ names <+: q → t'.face? q = (t.face? q).map
    (Face.relist (if q = names.dropLast then (·.erase (Path.lastName names)) else id))

/-- Where no name stands twice, nothing is left at the path of an entry that is taken out. -/
theorem node?_replace_removed (ht : Directory.Tidy t) {f : Focus} (hf : t.focus? parent = some f)
    (hd : Directory.remove? f.found name = some (n, d)) :
    node? (f.replace d) (parent ++ [name]) = none := by
  obtain ⟨hnodup, -⟩ := (Directory.tidy_iff _).mp (tidy_found ht hf)
  rw [Directory.remove?_eq] at hd
  obtain ⟨x, -, heq⟩ := Option.map_eq_some_iff.mp hd
  cases heq
  rw [node?_replace_append hf, node?_cons, Directory.child?_eraseP_self hnodup, Option.bind_none]

theorem exists_leaf_of_ensureRemovable {directoryOnly : Bool}
    (h : t.ensureRemovable names directoryOnly = .ok ()) :
    ∃ n, t.node? names = some n ∧ n.isFull = false := by
  unfold ensureRemovable at h
  cases hnode : t.node? names with
  | none =>
    rw [hnode] at h
    cases h
  | some n =>
    rw [hnode] at h
    refine ⟨n, rfl, ?_⟩
    cases n with
    | file c => rfl
    | directory d =>
      cases d with
      | nil => rfl
      | cons e rest => cases h

theorem removed_of_remove (ht : Directory.Tidy t) {directoryOnly : Bool}
    (h : t.remove names directoryOnly = (t', .ok ())) : Removed names t t' := by
  obtain ⟨hcheck, parent, name, f, n, d, rfl, hf, hd, rfl⟩ := exists_focus_of_remove h
  have hdiff := differsAt_remove hf hd
  refine ⟨exists_leaf_of_ensureRemovable hcheck,
    node?_append_of_none (node?_replace_removed ht hf hd), hdiff.node?_eq, ?_⟩
  rw [Path.lastName_append]
  exact hdiff.face?_eq

/-! ## Moves -/

/-- The subtree at `source` stands at `target` now, last in its directory, and no longer at
`source`; nothing else has changed. -/
structure Moved (source target : List String) (t t' : Tree) : Prop where
  arrived : ∀ rest, t'.node? (target ++ rest) = t.node? (source ++ rest)
  left : ∀ rest, t'.node? (source ++ rest) = none
  last : ∃ names, t'.face? target.dropLast =
    some (.directory (names ++ [Path.lastName target]))
  face?_eq : ∀ q, ¬ source <+: q → ¬ target <+: q → t'.face? q = (t.face? q).map (Face.relist
    ((if q = target.dropLast then (· ++ [Path.lastName target]) else id) ∘
      (if q = source.dropLast then (·.erase (Path.lastName source)) else id)))

/-- A move that is made leads neither into the source nor above it. -/
theorem apart_of_ensureMovable (htrans : t.ensureTransferable source target = .ok ())
    (hmove : t.ensureMovable source target = .ok ()) : Path.Apart source target := by
  obtain ⟨n, hn⟩ := exists_transferable htrans
  have hfree := node?_of_ensureTransferable htrans
  constructor
  · intro hle
    obtain ⟨-, parent, name, d, rfl, -, hparent⟩ := not_below_source hmove hn
    rcases List.prefix_concat_iff.mp hle with rfl | hle
    · rw [hn.found] at hfree
      cases hfree
    · exact hparent hle
  · rintro ⟨rest, rfl⟩
    have hfound := hn.found
    rw [node?_append_of_none hfree rest] at hfound
    cases hfound

/-- Taking a node out leaves nothing at its path, where no name stands twice. -/
theorem differsAt_takeOut? (ht : Directory.Tidy t) (h : t.takeOut? source = some (n, t')) :
    t'.node? source = none ∧ DiffersAt source (·.erase (Path.lastName source)) t t' := by
  obtain ⟨parent, name, f, d, rfl, hf, hd, rfl⟩ := takeOut?_eq_some_iff.mp h
  rw [Path.lastName_append]
  exact ⟨node?_replace_removed ht hf hd, differsAt_remove hf hd⟩

theorem moved_of_move (ht : Directory.Tidy t) (h : t.move source target = (t', .ok ())) :
    Moved source target t t' := by
  obtain ⟨htrans, h⟩ := after_eq_ok_iff.mp h
  obtain ⟨hmove, h⟩ := after_eq_ok_iff.mp h
  obtain ⟨n, hn⟩ := exists_transferable htrans
  obtain ⟨hne, parent, name, d, htarget, hd, hparent⟩ := not_below_source hmove hn
  obtain ⟨t₁, ht₁⟩ := exists_takeOut? hne hn.found
  rw [ht₁] at h
  obtain ⟨hgone, hout⟩ := differsAt_takeOut? ht ht₁
  -- the two paths part, so neither half of the move disturbs what the other half does
  have hapart := apart_of_ensureMovable htrans hmove
  have hfree : t₁.node? target = none := by
    rw [hout.node?_eq target hapart.symm]
    exact node?_of_ensureTransferable htrans
  obtain ⟨hnew, hin⟩ := differsAt_place h hfree
  have hleft : t'.node? source = none := (hin.node?_eq source hapart).trans hgone
  have hface (q : List String) (hsource : ¬ source <+: q) (htarget : ¬ target <+: q) :=
    (hin.face?_eq q htarget).trans (congrArg _ (hout.face?_eq q hsource))
  simp only [Option.map_map, Face.relist_comp] at hface
  refine ⟨node?_append_congr (hnew.trans hn.found.symm), node?_append_of_none hleft, ?_, hface⟩
  subst htarget
  have hlast := hface parent hparent (Path.not_concat_prefix parent name)
  rw [face?_of_directory? hd] at hlast
  simp only [List.dropLast_concat, if_true] at hlast ⊢
  exact ⟨_, hlast⟩

/-! ## Elsewhere -/

/-- The trees have the same node at every path that parts from all of these. -/
def AgreeBeside (paths : List (List String)) (t t' : Tree) : Prop :=
  ∀ q, (∀ p ∈ paths, Path.Apart q p) → t'.node? q = t.node? q

theorem AgreeBeside.refl (paths : List (List String)) (t : Tree) : t.AgreeBeside paths t :=
  fun _ _ => rfl

theorem DiffersAt.agreeBeside {paths : List (List String)} {change : List String → List String}
    (h : DiffersAt names change t t') (hpath : names ∈ paths) : t.AgreeBeside paths t' :=
  fun q hq => h.node?_eq q (hq names hpath)

theorem agreeBeside_write (t : Tree) (names : List String) (content : String) :
    t.AgreeBeside [names] (t.write names content).1 := by
  refine (atomic_write t names content).keeps (P := t.AgreeBeside [names]) (.refl _ t)
    fun t' h => ?_
  obtain ⟨-, parent, name, f, rfl, hf, -, rfl⟩ := exists_focus_of_write h
  exact (differsAt_insert hf name _).agreeBeside (List.mem_singleton_self _)

theorem agreeBeside_makeDirectory (t : Tree) (names : List String) :
    t.AgreeBeside [names] (t.makeDirectory names).1 := by
  refine (atomic_makeDirectory t names).keeps (P := t.AgreeBeside [names]) (.refl _ t)
    fun t' h q hq => ?_
  exact (directoriesMade_of_makeDirectory h).node?_eq q (hq names (List.mem_singleton_self _)).1

theorem agreeBeside_remove (t : Tree) (names : List String) (directoryOnly : Bool) :
    t.AgreeBeside [names] (t.remove names directoryOnly).1 := by
  refine (atomic_remove t names directoryOnly).keeps (P := t.AgreeBeside [names]) (.refl _ t)
    fun t' h => ?_
  obtain ⟨-, parent, name, f, n, d, rfl, hf, hd, rfl⟩ := exists_focus_of_remove h
  exact (differsAt_remove hf hd).agreeBeside (List.mem_singleton_self _)

theorem agreeBeside_place {paths : List (List String)} (hpath : names ∈ paths)
    (h : t.place names n = (t', .ok ())) : t.AgreeBeside paths t' := by
  obtain ⟨parent, name, f, d, rfl, hf, hd, rfl⟩ := editsParent_of_editParent h
  cases hd
  exact (differsAt_insert hf name n).agreeBeside hpath

theorem agreeBeside_copy (t : Tree) (source target : List String) :
    t.AgreeBeside [source, target] (t.copy source target).1 := by
  refine (atomic_copy t source target).keeps (P := t.AgreeBeside [source, target]) (.refl _ t)
    fun t' h => ?_
  obtain ⟨htrans, h⟩ := after_eq_ok_iff.mp h
  obtain ⟨n, hn⟩ := exists_transferable htrans
  rw [hn.found] at h
  exact agreeBeside_place (by simp) h

theorem agreeBeside_move (t : Tree) (source target : List String) :
    t.AgreeBeside [source, target] (t.move source target).1 := by
  refine (atomic_move t source target).keeps (P := t.AgreeBeside [source, target]) (.refl _ t)
    fun t' h => ?_
  obtain ⟨-, h⟩ := after_eq_ok_iff.mp h
  obtain ⟨-, h⟩ := after_eq_ok_iff.mp h
  cases hout : t.takeOut? source with
  | none =>
    rw [hout] at h
    cases h
  | some out =>
    obtain ⟨n, t₁⟩ := out
    rw [hout] at h
    obtain ⟨parent, name, f, d, rfl, hf, hd, rfl⟩ := takeOut?_eq_some_iff.mp hout
    have hout : t.AgreeBeside [parent ++ [name], target] (f.replace d) :=
      (differsAt_remove hf hd).agreeBeside (List.mem_cons_self ..)
    have hin : AgreeBeside [parent ++ [name], target] (f.replace d) t' :=
      agreeBeside_place (by simp) h
    exact fun q hq => (hin q hq).trans (hout q hq)

end DiskShell.Tree
