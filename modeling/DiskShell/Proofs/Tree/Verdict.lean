import DiskShell.Proofs.Tree.Edit
import Mathlib.Data.List.Infix

/-!
What an edit answers. An edit looks for a number of things that may be wrong, in a fixed order, and
answers with the first that is (`verdict`); when it has found none, it succeeds. The complaints are
said of the tree as it is before the edit, so nothing that is done on the way can be wrong.
-/

namespace DiskShell

/-- Something that may be wrong, and the error for it. -/
abbrev Complaint := Bool × DiskError

/-- The error of the first complaint that is justified; success if none is. -/
def verdict (complaints : List Complaint) : Except DiskError Unit :=
  match complaints.find? Prod.fst with
  | some c => .error c.2
  | none => .ok ()

@[simp]
theorem verdict_nil : verdict [] = .ok () := rfl

@[simp]
theorem verdict_cons (justified : Bool) (e : DiskError) (rest : List Complaint) :
    verdict ((justified, e) :: rest) = if justified then .error e else verdict rest := by
  cases justified <;> rfl

theorem verdict_of_holds {p : Prop} [Decidable p] (h : p) (e : DiskError)
    (rest : List Complaint) : verdict ((p, e) :: rest) = .error e := by
  rw [verdict_cons, decide_eq_true h, if_pos rfl]

theorem verdict_of_not {p : Prop} [Decidable p] (h : ¬ p) (e : DiskError)
    (rest : List Complaint) : verdict ((p, e) :: rest) = verdict rest := by
  rw [verdict_cons, decide_eq_false h, if_neg Bool.false_ne_true]

theorem verdict_append (first second : List Complaint) :
    verdict (first ++ second) = verdict first >>= fun _ => verdict second := by
  induction first with
  | nil => rfl
  | cons c rest ih =>
    obtain ⟨justified, e⟩ := c
    cases justified with
    | true => rfl
    | false => simpa using ih

theorem exists_error_of_mem {complaints : List Complaint} {e : DiskError}
    (h : (true, e) ∈ complaints) : ∃ e, verdict complaints = .error e := by
  unfold verdict
  cases hfirst : complaints.find? Prod.fst with
  | some c => exact ⟨c.2, rfl⟩
  | none => exact absurd rfl (List.find?_eq_none.mp hfirst _ h)

def DiskError.tooDeep : DiskError := .invalidPath "nested deeper than 128 levels"

namespace Tree

variable {t : Tree} {names : List String}

/-! ## Checks -/

theorem snd_after {first second : List Complaint} {edit : Edited}
    (h : verdict first = .ok () → edit.2 = verdict second) :
    (t.after (verdict first) edit).2 = verdict (first ++ second) := by
  rw [verdict_append]
  cases hfirst : verdict first with
  | error e => rfl
  | ok u => exact h hfirst

/-- After the last check nothing is left to be wrong. -/
theorem snd_after_last {complaints : List Complaint} {edit : Edited}
    (h : verdict complaints = .ok () → edit.2 = .ok ()) :
    (t.after (verdict complaints) edit).2 = verdict complaints := by
  have hlast := @snd_after t complaints [] edit h
  rwa [List.append_nil] at hlast

theorem ensureDepth_eq (depth : Nat) : ensureDepth depth = verdict [(128 < depth, .tooDeep)] := by
  have htext : s!"nested deeper than {depthLimit} levels" = "nested deeper than 128 levels" := by
    decide
  rw [ensureDepth, htext]
  show (if 128 < depth then _ else _) = _
  by_cases h : 128 < depth
  · rw [if_pos h, verdict_of_holds h, DiskError.tooDeep]
  · rw [if_neg h, verdict_of_not h, verdict_nil]

/-- What may be wrong with the directory that is to hold the last name. -/
def parentComplaints (t : Tree) (names : List String) : List Complaint :=
  [(t.node? names.dropLast = none, .notFound),
    ((t.node? names.dropLast).any Node.isFile, .notADirectory)]

theorem ensureParent_eq (h : names ≠ []) :
    t.ensureParent names = verdict (t.parentComplaints names) := by
  rcases List.eq_nil_or_concat names with rfl | ⟨parent, name, rfl⟩
  · exact absurd rfl h
  · rw [List.concat_eq_append, ensureParent, Path.parentAndName?_append, parentComplaints,
      List.dropLast_concat]
    dsimp only
    cases t.node? parent with
    | none => rfl
    | some n => cases n <;> rfl

theorem exists_directory_of_parentComplaints (h : verdict (t.parentComplaints names) = .ok ()) :
    ∃ d, t.directory? names.dropLast = some d := by
  rw [directory?_eq_bind_node?]
  unfold parentComplaints at h
  cases hnode : t.node? names.dropLast with
  | none => simp [hnode] at h
  | some n =>
    cases n with
    | file c => simp [hnode, Node.isFile] at h
    | directory d => exact ⟨d, rfl⟩

/-! ## Edits of one directory -/

/-- An edit that has found its directory answers what the change of this directory answers. -/
theorem snd_editParent (hne : names ≠ []) {d : Directory}
    (hd : t.directory? names.dropLast = some d)
    (edit : Directory → String → Except DiskError Directory) :
    (t.editParent names edit).2 = (edit d (Path.lastName names)).map fun _ => () := by
  rcases List.eq_nil_or_concat names with rfl | ⟨parent, name, rfl⟩
  · exact absurd rfl hne
  · rw [List.concat_eq_append, List.dropLast_concat] at hd
    obtain ⟨f, -, -, heq⟩ := editParent_of_directory? hd name edit
    rw [List.concat_eq_append, heq, Path.lastName_append]
    cases edit d name <;> rfl

theorem node?_eq_child? (hne : names ≠ []) {d : Directory}
    (hd : t.directory? names.dropLast = some d) :
    t.node? names = d.child? (Path.lastName names) := by
  rcases List.eq_nil_or_concat names with rfl | ⟨parent, name, rfl⟩
  · exact absurd rfl hne
  · rw [List.concat_eq_append, List.dropLast_concat] at hd
    rw [List.concat_eq_append, node?_append, hd, Option.bind_some, Path.lastName_append]

/-- **What a write answers.** -/
theorem snd_write (t : Tree) (names : List String) (content : String) :
    (t.write names content).2 = verdict [(names = [], .isADirectory),
      (128 < names.length, .tooDeep),
      (t.node? names.dropLast = none, .notFound),
      ((t.node? names.dropLast).any Node.isFile, .notADirectory),
      ((t.node? names).any Node.isDirectory, .isADirectory)] := by
  by_cases hne : names = []
  · subst hne
    rfl
  · have hempty : names.isEmpty = false := by simpa using hne
    rw [write, hempty, if_neg Bool.false_ne_true, ensureDepth_eq, ensureParent_eq hne,
      verdict_of_not hne]
    refine snd_after fun _ => snd_after fun hparent => ?_
    obtain ⟨d, hd⟩ := exists_directory_of_parentComplaints hparent
    rw [snd_editParent hne hd, node?_eq_child? hne hd, writeIn]
    cases d.child? (Path.lastName names) with
    | none => rfl
    | some n => cases n <;> rfl

/-! ## New directories -/

/-- Whether the node at the path or one on the way to it is a file. -/
def isBlocked (t : Tree) (names : List String) : Bool :=
  names.inits.any fun q => (t.node? q).any Node.isFile

theorem isBlocked_cons (t : Tree) (name : String) (rest : List String) :
    t.isBlocked (name :: rest) =
      match t.child? name with
      | none => false
      | some (.file _) => true
      | some (.directory d) => isBlocked d rest := by
  have hroot : (t.node? []).any Node.isFile = false := rfl
  rw [isBlocked, List.inits_cons, List.any_cons, List.any_map, hroot, Bool.false_or]
  cases hchild : t.child? name with
  | none =>
    simp [Function.comp_def, node?_cons, hchild]
  | some n =>
    cases n with
    | file c =>
      have hfile : t.node? [name] = some (.file c) := by
        rw [node?_cons, hchild]
        rfl
      exact List.any_eq_true.mpr ⟨[], by simp, by simp [hfile, Node.isFile]⟩
    | directory d => simp [Function.comp_def, node?_cons_of_child? hchild, isBlocked]

/-- **What the walk answers**: it is stopped by a file on the way, and by nothing else. -/
theorem snd_addPath (t : Tree) (names : List String) :
    (t.addPath names).2 = verdict [(t.isBlocked names, .notADirectory)] := by
  induction names generalizing t with
  | nil => rfl
  | cons name rest ih =>
    rw [addPath_cons, isBlocked_cons]
    cases t.child? name with
    | none => exact addPath_nil rest
    | some n =>
      cases n with
      | file c => rfl
      | directory d => exact ih d

/-- **What making a directory answers.** -/
theorem snd_makeDirectory (t : Tree) (names : List String) :
    (t.makeDirectory names).2 =
      verdict [(128 < names.length, .tooDeep), (t.isBlocked names, .notADirectory)] := by
  rw [makeDirectory, ensureDepth_eq]
  exact snd_after fun _ => snd_addPath t names

/-! ## Removal -/

/-- What may be wrong with the node that is to be removed. -/
def removalComplaints (t : Tree) (names : List String) (directoryOnly : Bool) : List Complaint :=
  [(t.node? names = none, .notFound),
    (directoryOnly && (t.node? names).any Node.isFile, .notADirectory),
    ((t.node? names).any Node.isFull, .notEmpty)]

theorem ensureRemovable_eq (t : Tree) (names : List String) (directoryOnly : Bool) :
    t.ensureRemovable names directoryOnly = verdict (t.removalComplaints names directoryOnly) := by
  unfold ensureRemovable removalComplaints
  cases t.node? names with
  | none => rfl
  | some n =>
    cases n with
    | file c => cases directoryOnly <;> rfl
    | directory d =>
      have hkind : (directoryOnly && (some (Node.directory d)).any Node.isFile) = false :=
        Bool.and_false directoryOnly
      rw [verdict_of_not (Option.some_ne_none _), hkind]
      cases d <;> rfl

/-- **A node that has been found is found again** by the walk that takes it out. -/
theorem snd_editParent_removeFrom (hne : names ≠ []) (h : t.node? names ≠ none) :
    (t.editParent names removeFrom).2 = .ok () := by
  obtain ⟨n, hn⟩ := Option.ne_none_iff_exists'.mp h
  rcases List.eq_nil_or_concat names with rfl | ⟨parent, name, rfl⟩
  · exact absurd rfl hne
  · rw [List.concat_eq_append] at hn ⊢
    rw [node?_append] at hn
    obtain ⟨d, hd, hchild⟩ := Option.bind_eq_some_iff.mp hn
    obtain ⟨f, -, -, heq⟩ := editParent_of_directory? hd name removeFrom
    have hremove := Directory.remove?_eq d name
    rw [hchild, Option.map_some] at hremove
    rw [heq, removeFrom, hremove]

/-- **What a removal answers.** -/
theorem snd_remove (t : Tree) (names : List String) (directoryOnly : Bool) :
    (t.remove names directoryOnly).2 =
      verdict ((names = [], .notPermitted) :: t.removalComplaints names directoryOnly) := by
  by_cases hne : names = []
  · subst hne
    rfl
  · have hempty : names.isEmpty = false := by simpa using hne
    rw [remove, hempty, if_neg Bool.false_ne_true, ensureRemovable_eq, verdict_of_not hne]
    refine snd_after_last fun hok => snd_editParent_removeFrom hne fun hnone => ?_
    rw [removalComplaints, verdict_of_holds hnone] at hok
    cases hok

/-! ## Transfer -/

/-- What may be wrong with a transfer, whether the node is to be moved or copied. -/
def transferComplaints (t : Tree) (source target : List String) : List Complaint :=
  [(t.node? source = none, .notFound),
    (target = [] ∨ t.node? target ≠ none, .alreadyExists),
    (t.node? target.dropLast = none, .notFound),
    ((t.node? target.dropLast).any Node.isFile, .notADirectory),
    ((t.node? source).any fun n => 128 < target.length + n.levels, .tooDeep)]

/-- What else may be wrong when the node is to be moved. -/
def moveComplaints (t : Tree) (source target : List String) : List Complaint :=
  [(source = [], .notPermitted),
    ((t.node? source).any Node.isDirectory ∧ source <+: target,
      .invalidPath "cannot move a directory into itself")]

theorem ensureTransferable_eq (t : Tree) (source target : List String) :
    t.ensureTransferable source target = verdict (t.transferComplaints source target) := by
  unfold ensureTransferable transferComplaints
  cases hn : t.node? source with
  | none => rfl
  | some n =>
    have htaken : (target.isEmpty || t.exists? target) =
        decide (target = [] ∨ t.node? target ≠ none) := by
      rw [Bool.decide_or]
      cases target <;> cases hnode : t.node? _ <;> simp [exists?, hnode]
    dsimp only
    rw [htaken, verdict_of_not (Option.some_ne_none n)]
    by_cases h : target = [] ∨ t.node? target ≠ none
    · rw [verdict_of_holds h, decide_eq_true h, if_pos rfl]
    · have hne : target ≠ [] := fun he => h (Or.inl he)
      rw [verdict_of_not h, decide_eq_false h, if_neg Bool.false_ne_true,
        ensureParent_eq hne, ensureDepth_eq, Node.height_eq_levels]
      exact (verdict_append _ _).symm

/-- **What a copy answers.** -/
theorem snd_copy (t : Tree) (source target : List String) :
    (t.copy source target).2 = verdict (t.transferComplaints source target) := by
  rw [copy, ensureTransferable_eq]
  refine snd_after_last fun hok => ?_
  rw [← ensureTransferable_eq] at hok
  obtain ⟨n, hn⟩ := exists_transferable hok
  obtain ⟨parent, name, d, rfl, hd⟩ := hn.parent
  obtain ⟨f, -, -, heq⟩ := editParent_of_directory? hd name fun d name => .ok (d.insert name n)
  rw [hn.found]
  dsimp only
  rw [place, heq]

theorem ensureMovable_eq (t : Tree) (source target : List String) :
    t.ensureMovable source target = verdict (t.moveComplaints source target) := by
  unfold ensureMovable moveComplaints
  by_cases hroot : source = []
  · rw [verdict_of_holds hroot, hroot]
    rfl
  · have hempty : source.isEmpty = false := by simpa using hroot
    have hinside : ((t.node? source).any Node.isDirectory && Path.liesIn target source) =
        decide ((t.node? source).any Node.isDirectory ∧ source <+: target) := by
      rw [Bool.eq_iff_iff]
      simp [Path.liesIn]
    rw [verdict_of_not hroot, hempty, if_neg Bool.false_ne_true, hinside, verdict_cons, verdict_nil]

/-- **What a move answers.** -/
theorem snd_move (t : Tree) (source target : List String) :
    (t.move source target).2 =
      verdict (t.transferComplaints source target ++ t.moveComplaints source target) := by
  rw [move, ensureTransferable_eq, ensureMovable_eq]
  refine snd_after fun htrans => snd_after_last fun hmove => ?_
  rw [← ensureTransferable_eq] at htrans
  rw [← ensureMovable_eq] at hmove
  obtain ⟨n, t', ht', hok⟩ := place_takeOut? htrans hmove
  rw [ht']
  exact hok

end Tree

end DiskShell
