import DiskShell.Proofs.Tree.Effect
import DiskShell.Proofs.Tree.Verdict
import DiskShell.Proofs.Tree.WellFormed

/-!
Making many directories. Each path is made or refused whatever was made before it (`canMake_iff`), so
what is there in the end depends on the paths that were given and not on their order: the directories
on the paths that can be made have been added, each at the end of the one above it, and nothing else
has changed (`directoriesAdded_makeAll`).
-/

namespace DiskShell.Tree

/-! ## Names listed after others -/

/-- The names are the old ones and, after them, the missing ones with a property, each once. -/
def ListedAfter (old : List String) (added : String → Prop) (names : List String) : Prop :=
  ∃ new, names = old ++ new ∧ new.Nodup ∧ ∀ m, m ∈ new ↔ m ∉ old ∧ added m

variable {old names names' : List String} {added added' : String → Prop}

theorem ListedAfter.congr (h : ListedAfter old added names) (hadded : ∀ m, added m ↔ added' m) :
    ListedAfter old added' names := by
  obtain rfl : added = added' := funext fun m => propext (hadded m)
  exact h

theorem listedAfter_self (h : ∀ m, ¬ added m) : ListedAfter old added old :=
  ⟨[], (List.append_nil old).symm, List.nodup_nil, fun m => by simp [h m]⟩

theorem listedAfter_enlist {new : List String} (h : new.Nodup) :
    ListedAfter old (· ∈ new) (Directory.enlist old new) :=
  ⟨new.filter (· ∉ old), rfl, h.filter _, fun m => by simp [and_comm]⟩

theorem ListedAfter.trans (h : ListedAfter old added names)
    (h' : ListedAfter names added' names') :
    ListedAfter old (fun m => added m ∨ added' m) names' := by
  obtain ⟨new, rfl, hnodup, hmem⟩ := h
  obtain ⟨new', rfl, hnodup', hmem'⟩ := h'
  refine ⟨new ++ new', List.append_assoc .., List.nodup_append.mpr ⟨hnodup, hnodup', ?_⟩, ?_⟩
  · rintro m hm _ hm' rfl
    exact ((hmem' m).mp hm').1 (List.mem_append_right _ hm)
  · intro m
    rw [List.mem_append, hmem', List.mem_append, hmem]
    by_cases hold : m ∈ old <;> by_cases hadded : added m <;> simp [hold, hadded]

/-- The same names listed after the same ones differ in their order only. -/
theorem ListedAfter.perm (h : ListedAfter old added names) (h' : ListedAfter old added names') :
    ∃ new new', names = old ++ new ∧ names' = old ++ new' ∧ new.Perm new' := by
  obtain ⟨new, hnames, hnodup, hmem⟩ := h
  obtain ⟨new', hnames', hnodup', hmem'⟩ := h'
  refine ⟨new, new', hnames, hnames', (List.perm_ext_iff_of_nodup hnodup hnodup').mpr fun m => ?_⟩
  rw [hmem, hmem']

/-! ## Directories added -/

/-- Directories have been added at the paths with a property: files are as they were, and new names
are listed after the old ones. -/
structure DirectoriesAdded (added : List String → Prop) (t t' : Tree) : Prop where
  content?_eq : ∀ q, (t'.node? q).bind Node.content? = (t.node? q).bind Node.content?
  isSome_iff : ∀ q, (t'.directory? q).isSome = true ↔ (t.directory? q).isSome = true ∨ added q
  listed : ∀ q, ListedAfter (t.namesAt q) (fun m => added (q ++ [m])) (t'.namesAt q)

section DirectoriesAdded

variable {t t' t₁ t₂ : Tree} {added added' : List String → Prop} {names : List String}
  {paths : List (List String)}

theorem DirectoriesAdded.congr (h : DirectoriesAdded added t t') (hadded : ∀ q, added q ↔ added' q) :
    DirectoriesAdded added' t t' := by
  obtain rfl : added = added' := funext fun q => propext (hadded q)
  exact h

theorem directoriesAdded_self (h : ∀ q, ¬ added q) : DirectoriesAdded added t t :=
  ⟨fun _ => rfl, fun q => by simp [h q], fun q => listedAfter_self fun m => h _⟩

theorem DirectoriesAdded.trans (h : DirectoriesAdded added t t₁)
    (h' : DirectoriesAdded added' t₁ t₂) :
    DirectoriesAdded (fun q => added q ∨ added' q) t t₂ := by
  refine ⟨fun q => (h'.content?_eq q).trans (h.content?_eq q), fun q => ?_,
    fun q => (h.listed q).trans (h'.listed q)⟩
  rw [h'.isSome_iff, h.isSome_iff, or_assoc]

/-! ## One path -/

/-- Whether the directories on a path can be made: it is not too deep, and no file is on it. -/
def CanMake (t : Tree) (names : List String) : Prop :=
  names.length ≤ depthLimit ∧ t.isBlocked names = false

theorem snd_makeDirectory_eq_ok_iff : (t.makeDirectory names).2 = .ok () ↔ t.CanMake names := by
  have hdepth : 128 < names.length ↔ ¬ names.length ≤ depthLimit := Nat.not_le.symm
  rw [snd_makeDirectory, CanMake, verdict_cons, verdict_cons, verdict_nil]
  by_cases hdeep : names.length ≤ depthLimit <;> cases t.isBlocked names <;> simp [hdepth, hdeep]

theorem isFile_eq_isSome_content? (n : Option Node) :
    n.any Node.isFile = (n.bind Node.content?).isSome := by
  cases n with
  | none => rfl
  | some n => cases n <;> rfl

theorem isBlocked_eq (t : Tree) (names : List String) :
    t.isBlocked names = names.inits.any fun q => ((t.node? q).bind Node.content?).isSome := by
  rw [isBlocked]
  simp only [isFile_eq_isSome_content?]

/-- On a path that can be made there is no file. -/
theorem content?_of_canMake (h : t.CanMake names) {q : List String} (hq : q <+: names) :
    (t.node? q).bind Node.content? = none := by
  have hblocked := h.2
  rw [isBlocked_eq, List.any_eq_false] at hblocked
  have hq' := hblocked q (List.mem_inits q names |>.mpr hq)
  rwa [Bool.not_eq_true, Option.isSome_eq_false_iff, Option.isNone_iff_eq_none] at hq'

/-- Directories that have been added block no path. -/
theorem DirectoriesAdded.isBlocked_eq (h : DirectoriesAdded added t t') (names : List String) :
    t'.isBlocked names = t.isBlocked names := by
  rw [Tree.isBlocked_eq, Tree.isBlocked_eq]
  simp only [h.content?_eq]

theorem DirectoriesAdded.canMake_iff (h : DirectoriesAdded added t t') (names : List String) :
    t'.CanMake names ↔ t.CanMake names := by
  rw [CanMake, CanMake, h.isBlocked_eq]

theorem namesAt_of_face? (h : t.face? names = some (.directory old)) : t.namesAt names = old := by
  obtain ⟨n, hn, hface⟩ := Option.map_eq_some_iff.mp h
  cases n with
  | file c => cases hface
  | directory d =>
    cases hface
    rw [namesAt, directory?_of_node? hn]
    rfl

/-- **One path**: if it can be made, the directories on it are added, and otherwise nothing is. -/
theorem directoriesAdded_makeDirectory (t : Tree) (names : List String) :
    DirectoriesAdded (fun q => t.CanMake names ∧ q <+: names) t (t.makeDirectory names).1 := by
  by_cases hcan : t.CanMake names
  case neg =>
    have hkept : (t.makeDirectory names).1 = t :=
      (atomic_makeDirectory t names).keeps (P := (· = t)) rfl fun t' h =>
        absurd (snd_makeDirectory_eq_ok_iff.mp (congrArg Prod.snd h)) hcan
    rw [hkept]
    exact directoriesAdded_self fun q hq => hcan hq.1
  obtain ⟨t', h⟩ : ∃ t', t.makeDirectory names = (t', .ok ()) :=
    ⟨_, Prod.ext rfl (snd_makeDirectory_eq_ok_iff.mpr hcan)⟩
  have hmade := directoriesMade_of_makeDirectory h
  have hbeside (q : List String) (hq : ¬ q <+: names) : t'.directory? q = t.directory? q := by
    rw [directory?_eq_bind_node?, directory?_eq_bind_node?, hmade.node?_eq q hq]
  rw [h]
  constructor
  case content?_eq =>
    intro q
    by_cases hq : q <+: names
    · obtain ⟨d, hd⟩ := Option.isSome_iff_exists.mp (hmade.reached q hq)
      rw [content?_of_canMake hcan hq, node?_of_directory? hd]
      rfl
    · rw [hmade.node?_eq q hq]
  case isSome_iff =>
    intro q
    by_cases hq : q <+: names
    · simp [hmade.reached q hq, hcan, hq]
    · simp [hbeside q hq, hq]
  case listed =>
    intro q
    by_cases hq : q <+: names
    · obtain ⟨rest, rfl⟩ := hq
      have hnames := namesAt_of_face? (face?_addPath (after_eq_ok_iff.mp h).2)
      rw [hnames]
      refine (listedAfter_enlist ?_).congr fun m => ?_
      · cases rest <;> simp
      · rw [List.prefix_append_right_inj]
        cases rest <;> simp [hcan]
    · have hsame : t'.namesAt q = t.namesAt q := by rw [namesAt, namesAt, hbeside q hq]
      dsimp only
      rw [hsame]
      exact listedAfter_self fun m hm => hq ((List.prefix_append q [m]).trans hm.2)

/-- **What one path answers** is the same whether another has been made or not. -/
theorem snd_makeDirectory_makeDirectory (t : Tree) (names other : List String) :
    ((t.makeDirectory other).1.makeDirectory names).2 = (t.makeDirectory names).2 := by
  rw [snd_makeDirectory, snd_makeDirectory, (directoriesAdded_makeDirectory t other).isBlocked_eq]

/-- A path that leads to a directory can be made again, and then nothing has to be done. -/
theorem addPath_of_directory? (h : (t.directory? names).isSome = true) :
    t.addPath names = (t, .ok ()) := by
  induction names generalizing t with
  | nil => rfl
  | cons name rest ih =>
    rw [directory?_cons] at h
    rw [addPath_cons]
    cases hchild : t.child? name with
    | none =>
      rw [hchild] at h
      cases h
    | some n =>
      rw [hchild] at h
      cases n with
      | file c => cases h
      | directory d =>
        dsimp only
        rw [ih h, Directory.insert_child? hchild]

theorem makeDirectory_of_directory? (h : (t.directory? names).isSome = true) :
    (t.makeDirectory names).1 = t := by
  rw [makeDirectory, addPath_of_directory? h]
  cases ensureDepth names.length <;> rfl

/-! ## Many paths -/

/-- The tree after making directories on some paths, one after the other; a path that cannot be
made is passed over. -/
def makeAll (t : Tree) (paths : List (List String)) : Tree :=
  paths.foldl (fun t names => (t.makeDirectory names).1) t

/-- **What is there in the end** depends on the paths, not on their order: the directories on those
that can be made have been added. -/
theorem directoriesAdded_makeAll (t : Tree) (paths : List (List String)) :
    DirectoriesAdded (fun q => ∃ p ∈ paths, t.CanMake p ∧ q <+: p) t (t.makeAll paths) := by
  induction paths generalizing t with
  | nil => exact directoriesAdded_self fun q ⟨p, hp, _⟩ => List.not_mem_nil hp
  | cons names rest ih =>
    have hfirst := directoriesAdded_makeDirectory t names
    refine (hfirst.trans (ih (t.makeDirectory names).1)).congr fun q => ?_
    simp only [hfirst.canMake_iff, List.exists_mem_cons_iff]

/-- **A path that has been made is left alone** when it is made again. -/
theorem makeDirectory_makeAll (hmem : names ∈ paths) (h : (t.makeDirectory names).2 = .ok ()) :
    ((t.makeAll paths).makeDirectory names).1 = t.makeAll paths := by
  apply makeDirectory_of_directory?
  rw [(directoriesAdded_makeAll t paths).isSome_iff]
  exact Or.inr ⟨names, hmem, snd_makeDirectory_eq_ok_iff.mp h, List.prefix_rfl⟩

/-- The kind of a node and its content: whether there is a directory, and what a file contains. -/
theorem map_content?_eq (t : Tree) (q : List String) :
    (t.node? q).map Node.content? = if (t.directory? q).isSome = true then some none
      else ((t.node? q).bind Node.content?).map some := by
  rw [directory?_eq_bind_node?]
  cases t.node? q with
  | none => rfl
  | some n => cases n <;> rfl

/-- The same directories added leave nodes of the same kinds, with the same contents. -/
theorem DirectoriesAdded.map_content?_eq (h₁ : DirectoriesAdded added t t₁)
    (h₂ : DirectoriesAdded added t t₂) (q : List String) :
    (t₂.node? q).map Node.content? = (t₁.node? q).map Node.content? := by
  have hkind : (t₂.directory? q).isSome = (t₁.directory? q).isSome :=
    Bool.eq_iff_iff.mpr ((h₂.isSome_iff q).trans (h₁.isSome_iff q).symm)
  rw [Tree.map_content?_eq t₂, hkind, h₂.content?_eq, ← h₁.content?_eq, ← Tree.map_content?_eq]

/-! ## Configured directories -/

theorem ofPaths_eq (paths : List String) :
    ofPaths paths = makeAll [] (paths.map fun path => Path.resolve path "/") := by
  rw [ofPaths, makeAll, List.foldl_map]

theorem isSome_directory?_nil_iff (q : List String) :
    (directory? [] q).isSome = true ↔ q = [] := by
  cases q with
  | nil => simp [directory?]
  | cons name rest => simp [directory?_cons, Directory.child?]

theorem content?_nil (q : List String) : (node? [] q).bind Node.content? = none := by
  cases q with
  | nil => rfl
  | cons name rest => rw [node?_cons, Directory.child?, List.lookup_nil]; rfl

theorem canMake_nil_iff (names : List String) : CanMake [] names ↔ names.length ≤ depthLimit := by
  have hblocked : isBlocked [] names = false := by
    rw [isBlocked_eq]
    simp [content?_nil]
  rw [CanMake, hblocked]
  exact and_iff_left rfl

/-- **Configured paths** lead to directories only. -/
theorem isDirectory_of_node?_ofPaths {paths : List String} {n : Node}
    (h : (ofPaths paths).node? names = some n) : n.isDirectory = true := by
  have hadded := directoriesAdded_makeAll [] (paths.map fun path => Path.resolve path "/")
  have hcontent := hadded.content?_eq names
  rw [← ofPaths_eq, h, content?_nil] at hcontent
  cases n with
  | file c => cases hcontent
  | directory d => rfl

/-- **Configured directories** are there with the directories above them, unless they are too deep;
and nothing else is. -/
theorem isSome_node?_ofPaths_iff (paths : List String) (q : List String) :
    ((ofPaths paths).node? q).isSome = true ↔ q = [] ∨ ∃ path ∈ paths,
      (Path.resolve path "/").length ≤ depthLimit ∧ q <+: Path.resolve path "/" := by
  have hdirectory : ((ofPaths paths).node? q).isSome = ((ofPaths paths).directory? q).isSome := by
    rw [directory?_eq_bind_node?]
    cases hnode : (ofPaths paths).node? q with
    | none => rfl
    | some n =>
      have hkind := isDirectory_of_node?_ofPaths hnode
      cases n with
      | file c => cases hkind
      | directory d => rfl
  rw [hdirectory, ofPaths_eq, (directoriesAdded_makeAll _ _).isSome_iff, isSome_directory?_nil_iff]
  simp [canMake_nil_iff]

end DirectoriesAdded

end DiskShell.Tree
