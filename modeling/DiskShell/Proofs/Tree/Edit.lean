import DiskShell.Edit
import DiskShell.Proofs.Node.Height
import DiskShell.Proofs.Tree.Face

/-!
What the edits of a tree come to. An edit that succeeds has put another directory in the place of
the one that holds the last name; an edit that fails has left the tree as it was (`Atomic`), also
where it works in several steps: nothing can fail once a directory has been added to a path
(`addPath_of_missing`) or once a node has been taken out to be moved (`place_takeOut?`).
-/

namespace DiskShell.Tree

/-! ## Checks -/

theorem after_eq_ok_iff {t t' : Tree} {check : Except DiskError Unit} {edit : Edited} :
    t.after check edit = (t', .ok ()) ↔ check = .ok () ∧ edit = (t', .ok ()) := by
  cases check with
  | error e => simp [after]
  | ok u => simp [after]

theorem length_le_of_ensureDepth {depth : Nat} (h : ensureDepth depth = .ok ()) :
    depth ≤ depthLimit := by
  unfold ensureDepth at h
  split at h
  · cases h
  · next hle => exact Nat.not_lt.mp hle

theorem exists_parent_of_ensureParent {t : Tree} {names : List String}
    (h : t.ensureParent names = .ok ()) :
    ∃ parent name d, names = parent ++ [name] ∧ t.directory? parent = some d := by
  unfold ensureParent at h
  split at h
  · cases h
  next parent name hsplit =>
  split at h
  · next d hd =>
    exact ⟨parent, name, d, Path.parentAndName?_eq_some_iff.mp hsplit, directory?_of_node? hd⟩
  · cases h
  · cases h

/-- What the checks before a transfer have established of the node and the target. -/
structure Transferable (t : Tree) (source target : List String) (n : Node) : Prop where
  found : t.node? source = some n
  parent : ∃ parent name d, target = parent ++ [name] ∧ t.directory? parent = some d
  shallow : target.length + n.levels ≤ depthLimit

theorem exists_transferable {t : Tree} {source target : List String}
    (h : t.ensureTransferable source target = .ok ()) : ∃ n, t.Transferable source target n := by
  unfold ensureTransferable at h
  split at h
  · cases h
  next n hn =>
  split at h
  · cases h
  cases hp : t.ensureParent target with
  | error e =>
    rw [hp] at h
    cases h
  | ok u =>
    rw [hp] at h
    have hdepth := length_le_of_ensureDepth h
    rw [Node.height_eq_levels] at hdepth
    exact ⟨n, hn, exists_parent_of_ensureParent hp, hdepth⟩

/-! ## Edits of one directory -/

/-- The edit is one replacement: of the directory that holds the last name. -/
def EditsParent (t : Tree) (names : List String)
    (edit : Directory → String → Except DiskError Directory) (t' : Tree) : Prop :=
  ∃ parent name f d, names = parent ++ [name] ∧ t.focus? parent = some f ∧
    edit f.found name = .ok d ∧ t' = f.replace d

theorem editsParent_of_editParent {t t' : Tree} {names : List String}
    {edit : Directory → String → Except DiskError Directory}
    (h : t.editParent names edit = (t', .ok ())) : t.EditsParent names edit t' := by
  unfold editParent at h
  split at h
  · cases h
  next f name hf =>
  obtain ⟨parent, hnames, hfocus⟩ := parentFocus?_eq_some_iff.mp hf
  split at h
  · next d hd =>
    cases h
    exact ⟨parent, name, f, d, hnames, hfocus, hd, rfl⟩
  · cases h

theorem editParent_of_directory? {t : Tree} {parent : List String} {d : Directory}
    (h : t.directory? parent = some d) (name : String)
    (edit : Directory → String → Except DiskError Directory) :
    ∃ f, t.focus? parent = some f ∧ f.found = d ∧
      t.editParent (parent ++ [name]) edit =
        match edit d name with
        | .ok d' => (f.replace d', .ok ())
        | .error e => (t, .error e) := by
  obtain ⟨f, hf, rfl⟩ := exists_focus?_of_directory? h
  refine ⟨f, hf, rfl, ?_⟩
  have hp : t.parentFocus? (parent ++ [name]) = some (f, name) :=
    parentFocus?_eq_some_iff.mpr ⟨parent, rfl, hf⟩
  cases hedit : edit f.found name <;> simp only [editParent, hp, hedit]

/-- A write that succeeds has put the file into a directory, and not over a directory. -/
theorem exists_focus_of_write {t t' : Tree} {names : List String} {content : String}
    (h : t.write names content = (t', .ok ())) :
    names.length ≤ depthLimit ∧ ∃ parent name f, names = parent ++ [name] ∧
      t.focus? parent = some f ∧ (Directory.child? f.found name).bind Node.directory? = none ∧
      t' = f.replace (f.found.insert name (.file content)) := by
  unfold write at h
  split at h
  · cases h
  obtain ⟨hdepth, h⟩ := after_eq_ok_iff.mp h
  obtain ⟨-, h⟩ := after_eq_ok_iff.mp h
  obtain ⟨parent, name, f, d, hnames, hf, hd, rfl⟩ := editsParent_of_editParent h
  refine ⟨length_le_of_ensureDepth hdepth, parent, name, f, hnames, hf, ?_⟩
  unfold writeIn at hd
  cases hchild : Directory.child? f.found name with
  | none =>
    rw [hchild] at hd
    cases hd
    exact ⟨rfl, rfl⟩
  | some n =>
    rw [hchild] at hd
    cases n with
    | file c =>
      cases hd
      exact ⟨rfl, rfl⟩
    | directory d => cases hd

/-- A removal that succeeds has taken one entry out of a directory. -/
theorem exists_focus_of_remove {t t' : Tree} {names : List String} {directoryOnly : Bool}
    (h : t.remove names directoryOnly = (t', .ok ())) :
    t.ensureRemovable names directoryOnly = .ok () ∧ ∃ parent name f n d,
      names = parent ++ [name] ∧ t.focus? parent = some f ∧
      Directory.remove? f.found name = some (n, d) ∧ t' = f.replace d := by
  unfold remove at h
  split at h
  · cases h
  obtain ⟨hcheck, h⟩ := after_eq_ok_iff.mp h
  obtain ⟨parent, name, f, d, hnames, hf, hd, rfl⟩ := editsParent_of_editParent h
  refine ⟨hcheck, parent, name, f, ?_⟩
  unfold removeFrom at hd
  split at hd
  · next n d' hremove =>
    cases hd
    exact ⟨n, d, hnames, hf, hremove, rfl⟩
  · cases hd

/-! ## Failure leaves the tree -/

/-- If the edit has failed, then the tree is as it was. -/
def Atomic (t : Tree) (edited : Edited) : Prop :=
  ∀ e, edited.2 = .error e → edited.1 = t

/-- A failed edit has kept the tree, so it is enough to look at the edits that succeed. -/
theorem Atomic.keeps {P : Tree → Prop} {t : Tree} {edited : Edited} (hatomic : t.Atomic edited)
    (ht : P t) (hok : ∀ t', edited = (t', .ok ()) → P t') : P edited.1 := by
  obtain ⟨t', result⟩ := edited
  cases result with
  | ok u => exact hok t' rfl
  | error e =>
    have hsame : t' = t := hatomic e rfl
    rw [hsame]
    exact ht

theorem atomic_after {t : Tree} {check : Except DiskError Unit} {edit : Edited}
    (h : check = .ok () → t.Atomic edit) : t.Atomic (t.after check edit) := by
  cases check with
  | error e => exact fun _ _ => rfl
  | ok u => exact h rfl

theorem atomic_editParent (t : Tree) (names : List String)
    (edit : Directory → String → Except DiskError Directory) :
    t.Atomic (t.editParent names edit) := by
  intro e h
  unfold editParent at h ⊢
  split
  · rfl
  · next f name hf =>
    split
    · next d hd => simp [hf, hd] at h
    · rfl

theorem atomic_write (t : Tree) (names : List String) (content : String) :
    t.Atomic (t.write names content) := by
  unfold write
  split
  · exact fun _ _ => rfl
  · exact atomic_after fun _ => atomic_after fun _ => atomic_editParent t names _

theorem atomic_remove (t : Tree) (names : List String) (directoryOnly : Bool) :
    t.Atomic (t.remove names directoryOnly) := by
  unfold remove
  split
  · exact fun _ _ => rfl
  · exact atomic_after fun _ => atomic_editParent t names _

theorem atomic_copy (t : Tree) (source target : List String) :
    t.Atomic (t.copy source target) := by
  unfold copy
  refine atomic_after fun _ => ?_
  split
  · exact fun _ _ => rfl
  · exact atomic_editParent t target _

/-! ### New directories -/

/-- One step of the walk: a file stops it, and a missing directory is walked as an empty one. -/
theorem addPath_cons (t : Tree) (name : String) (rest : List String) :
    t.addPath (name :: rest) =
      match t.child? name with
      | some (.file _) => (t, .error .notADirectory)
      | some (.directory d) => (t.insert name (.directory (addPath d rest).1), (addPath d rest).2)
      | none => (t.insert name (.directory (addPath [] rest).1), (addPath [] rest).2) := by
  rw [addPath]
  cases hchild : t.child? name with
  | none =>
    have hcontains : Directory.contains t name = false := by
      rw [Directory.contains_eq_isSome, hchild]
      rfl
    simp only [hcontains, Bool.false_eq_true, ↓reduceIte, Directory.child?_insert_self,
      Directory.insert_insert]
  | some n =>
    have hcontains : Directory.contains t name = true := by
      rw [Directory.contains_eq_isSome, hchild]
      rfl
    cases n <;> simp only [hcontains, ↓reduceIte, hchild]

/-- In an empty directory no file can be in the way. -/
theorem addPath_nil (names : List String) : (addPath [] names).2 = .ok () := by
  induction names with
  | nil => rfl
  | cons name rest ih =>
    rw [addPath_cons]
    exact ih

/-- Below the first directory that is missing no file can be in the way. -/
theorem addPath_of_missing {t : Tree} {parent : List String} {name : String} {d : Directory}
    (rest : List String) (hd : t.directory? parent = some d) (hname : d.child? name = none) :
    (t.addPath (parent ++ name :: rest)).2 = .ok () := by
  induction parent generalizing t with
  | nil =>
    cases hd
    rw [List.nil_append, addPath_cons, hname]
    exact addPath_nil rest
  | cons m parent ih =>
    rw [directory?_cons] at hd
    obtain ⟨x, hx, hd⟩ := Option.bind_eq_some_iff.mp hd
    obtain ⟨n, hn, hdir⟩ := Option.bind_eq_some_iff.mp hx
    cases n with
    | file c => cases hdir
    | directory s =>
      cases hdir
      rw [List.cons_append, addPath_cons, hn]
      exact ih hd

theorem atomic_addPath (t : Tree) (names : List String) : t.Atomic (t.addPath names) := by
  induction names generalizing t with
  | nil => exact fun _ _ => rfl
  | cons name rest ih =>
    intro e h
    rw [addPath_cons] at h ⊢
    cases hchild : t.child? name with
    | none =>
      rw [hchild, addPath_nil] at h
      cases h
    | some n =>
      cases n with
      | file c => rfl
      | directory d =>
        rw [hchild] at h
        simp only [ih d e h, Directory.insert_child? hchild]

theorem atomic_makeDirectory (t : Tree) (names : List String) :
    t.Atomic (t.makeDirectory names) :=
  atomic_after fun _ => atomic_addPath t names

/-! ### Moves -/

theorem takeOut?_eq_some_iff {t t' : Tree} {source : List String} {n : Node} :
    t.takeOut? source = some (n, t') ↔
      ∃ parent name f d, source = parent ++ [name] ∧ t.focus? parent = some f ∧
        Directory.remove? f.found name = some (n, d) ∧ t' = f.replace d := by
  constructor
  · intro h
    obtain ⟨⟨f, name⟩, hf, h⟩ := Option.bind_eq_some_iff.mp h
    obtain ⟨⟨m, d⟩, hd, h⟩ := Option.bind_eq_some_iff.mp h
    cases h
    obtain ⟨parent, hnames, hfocus⟩ := parentFocus?_eq_some_iff.mp hf
    exact ⟨parent, name, f, d, hnames, hfocus, hd, rfl⟩
  · rintro ⟨parent, name, f, d, rfl, hf, hd, rfl⟩
    have hp : t.parentFocus? (parent ++ [name]) = some (f, name) :=
      parentFocus?_eq_some_iff.mpr ⟨parent, rfl, hf⟩
    simp [takeOut?, hp, hd]

/-- A node that is found below the root can be taken out. -/
theorem exists_takeOut? {t : Tree} {source : List String} {n : Node} (hne : source ≠ [])
    (h : t.node? source = some n) : ∃ t', t.takeOut? source = some (n, t') := by
  rcases List.eq_nil_or_concat source with rfl | ⟨parent, name, rfl⟩
  · exact absurd rfl hne
  · rw [List.concat_eq_append] at h ⊢
    rw [node?_append] at h
    obtain ⟨d, hd, hchild⟩ := Option.bind_eq_some_iff.mp h
    obtain ⟨f, hf, rfl⟩ := exists_focus?_of_directory? hd
    have hremove := Directory.remove?_eq f.found name
    rw [hchild, Option.map_some] at hremove
    exact ⟨_, takeOut?_eq_some_iff.mpr ⟨parent, name, f, _, rfl, hf, hremove, rfl⟩⟩

/-- Taking a node out leaves every directory that is not in or below it. -/
theorem isSome_directory?_takeOut? {t t' : Tree} {source names : List String} {n : Node}
    (h : t.takeOut? source = some (n, t')) (hnames : ¬ source <+: names) :
    (t'.directory? names).isSome = (t.directory? names).isSome := by
  obtain ⟨parent, name, f, d, rfl, hf, hd, rfl⟩ := takeOut?_eq_some_iff.mp h
  exact (differsAt_remove hf hd).isSome_directory?_eq hnames

theorem not_below_source {t : Tree} {source target : List String} {n : Node}
    (hmove : t.ensureMovable source target = .ok ()) (htrans : t.Transferable source target n) :
    source ≠ [] ∧ ∃ parent name d, target = parent ++ [name] ∧ t.directory? parent = some d ∧
      ¬ source <+: parent := by
  unfold ensureMovable at hmove
  split at hmove
  · cases hmove
  next hempty =>
  split at hmove
  · cases hmove
  next hinside =>
  obtain ⟨parent, name, d, htarget, hd⟩ := htrans.parent
  refine ⟨by simpa using hempty, parent, name, d, htarget, hd, ?_⟩
  intro hprefix
  rw [htrans.found] at hinside
  cases n with
  | file c =>
    obtain ⟨rest, rfl⟩ := hprefix
    rw [directory?_append, directory?_eq_bind_node?, htrans.found] at hd
    cases hd
  | directory s =>
    apply hinside
    have hle : source <+: target := by
      rw [htarget]
      exact hprefix.trans (List.prefix_append parent [name])
    simpa [Node.isDirectory, Path.liesIn] using hle

/-- **Once the node is taken out, a move cannot fail.** -/
theorem place_takeOut? {t : Tree} {source target : List String}
    (htrans : t.ensureTransferable source target = .ok ())
    (hmove : t.ensureMovable source target = .ok ()) :
    ∃ n t', t.takeOut? source = some (n, t') ∧ (t'.place target n).2 = .ok () := by
  obtain ⟨n, hn⟩ := exists_transferable htrans
  obtain ⟨hne, parent, name, d, htarget, hd, hparent⟩ := not_below_source hmove hn
  obtain ⟨t', ht'⟩ := exists_takeOut? hne hn.found
  have hsome : (t'.directory? parent).isSome = true := by
    rw [isSome_directory?_takeOut? ht' hparent, hd]
    rfl
  obtain ⟨d', hd'⟩ := Option.isSome_iff_exists.mp hsome
  obtain ⟨f, -, -, hplace⟩ :=
    editParent_of_directory? hd' name fun d name => .ok (d.insert name n)
  refine ⟨n, t', ht', ?_⟩
  rw [place, htarget, hplace]

theorem atomic_move (t : Tree) (source target : List String) :
    t.Atomic (t.move source target) := by
  refine atomic_after fun htrans => atomic_after fun hmove => ?_
  obtain ⟨n, t', ht', hplace⟩ := place_takeOut? htrans hmove
  intro e h
  rw [ht', hplace] at h
  cases h

end DiskShell.Tree
