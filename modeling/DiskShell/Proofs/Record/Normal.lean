import DiskShell.Proofs.Record

/-!
Records and the trees that they stand for. To write the tree of a record again gives the record in
normal form (`normalize`). The records in normal form are those in which every directory names its
children as paths do, each once, and every child bears the name that it is found under
(`record_survives_iff`).
-/

namespace DiskShell.Record

/-- The record that is written for the tree of a record. -/
def normalize (r : Record) : Record := ofNode r.name r.toNode

/-- A record is a part of itself, and so are the parts of its children. -/
inductive Part : Record → Record → Prop
  | self (r : Record) : Part r r
  | child {r s : Record} {name key : String} {children : List (String × Record)}
    (hmem : (key, s) ∈ children) (h : Part r s) : Part r (.directory name children)

/-- The keys are the names of distinct children. -/
structure Keyed (children : List (String × Record)) : Prop where
  distinct : (children.map Prod.fst).Nodup
  usable : ∀ c ∈ children, Path.IsName c.1
  own : ∀ c ∈ children, c.2.name = c.1

/-- Every directory in the record is keyed. -/
def IsNormal (r : Record) : Prop :=
  ∀ name children, Part (.directory name children) r → Keyed children

theorem isNormal_file (name content : String) : IsNormal (.file name content) := by
  intro m children h
  cases h

theorem isNormal_directory_iff {name : String} {children : List (String × Record)} :
    IsNormal (.directory name children) ↔ Keyed children ∧ ∀ c ∈ children, c.2.IsNormal := by
  constructor
  · intro h
    refine ⟨h name children (.self _), fun c hc m below hpart => ?_⟩
    exact h m below (.child hc hpart)
  · rintro ⟨hkeyed, hbelow⟩ m below hpart
    cases hpart with
    | self => exact hkeyed
    | child hmem h => exact hbelow _ hmem m below h

/-! ## What is written is normal -/

theorem name_ofNode (name : String) (n : Node) : (ofNode name n).name = name := by
  cases n <;> rfl

theorem keyed_ofEntries {d : Directory} (h : d.Tidy) : Keyed (ofEntries d) := by
  obtain ⟨hnodup, hentries⟩ := h
  refine ⟨?_, isName_of_mem_ofEntries hentries, fun c hc => ?_⟩
  · rw [keys_ofEntries]
    exact hnodup
  · rw [ofEntries_eq_map] at hc
    obtain ⟨e, -, rfl⟩ := List.mem_map.mp hc
    exact name_ofNode e.1 e.2

mutual

theorem isNormal_ofNode : ∀ (n : Node) (name : String), n.Tidy → (ofNode name n).IsNormal
  | .file content, name, _ => isNormal_file name content
  | .directory d, _, h =>
    isNormal_directory_iff.mpr ⟨keyed_ofEntries h, isNormal_ofEntries d h.2⟩

theorem isNormal_ofEntries : ∀ d : Directory, Directory.TidyEntries d →
    ∀ c ∈ ofEntries d, c.2.IsNormal
  | [], _, c, hc => by cases hc
  | (name, n) :: rest, ⟨_, hn, hrest⟩, c, hc => by
    rw [ofEntries] at hc
    rcases List.mem_cons.mp hc with rfl | hc
    · exact isNormal_ofNode n name hn
    · exact isNormal_ofEntries rest hrest c hc

end

theorem isNormal_normalize (r : Record) : r.normalize.IsNormal :=
  isNormal_ofNode r.toNode r.name (tidy_toNode r)

/-! ## What is normal is written again -/

mutual

theorem normalize_of_isNormal : ∀ r : Record, r.IsNormal → r.normalize = r
  | .file _ _, _ => rfl
  | .directory name children, h => by
    obtain ⟨hkeyed, hbelow⟩ := isNormal_directory_iff.mp h
    have hbuilt : insertAll [] children = children.map fun c => (c.1, c.2.toNode) :=
      insertAll_of_distinct (d := []) hkeyed.distinct hkeyed.usable
    rw [normalize, toNode, hbuilt, ofNode, ofEntries_toNodes children hkeyed.own hbelow]
    rfl

theorem ofEntries_toNodes : ∀ children : List (String × Record),
    (∀ c ∈ children, c.2.name = c.1) → (∀ c ∈ children, c.2.IsNormal) →
      ofEntries (children.map fun c => (c.1, c.2.toNode)) = children
  | [], _, _ => rfl
  | (key, r) :: rest, hown, hbelow => by
    have hname : r.name = key := hown (key, r) (List.mem_cons_self ..)
    have hr : ofNode r.name r.toNode = r :=
      normalize_of_isNormal r (hbelow (key, r) (List.mem_cons_self ..))
    have hrest := ofEntries_toNodes rest (fun c hc => hown c (List.mem_cons_of_mem _ hc))
      (fun c hc => hbelow c (List.mem_cons_of_mem _ hc))
    rw [List.map_cons, ofEntries, hrest, ← hname, hr]

end

theorem normalize_eq_self_iff (r : Record) : r.normalize = r ↔ r.IsNormal := by
  constructor
  · intro h
    rw [← h]
    exact isNormal_normalize r
  · exact normalize_of_isNormal r

/-- **Records survive as documents, and as trees if they are normal.** Every record is read back
from its document. To write the tree of a record again changes nothing the second time, and the
first time it changes nothing just if in every directory of the record the keys are distinct names
and each child bears its key as its name. -/
theorem record_survives_iff (r : Record) :
    ofJson? r.toJson = some r ∧
      r.normalize.normalize = r.normalize ∧
      (r.normalize = r ↔ ∀ name children, Part (.directory name children) r →
        (children.map Prod.fst).Nodup ∧
          ∀ c ∈ children, (c.1 ≠ "" ∧ c.1 ≠ "." ∧ c.1 ≠ ".." ∧ '/' ∉ c.1.toList) ∧
            c.2.name = c.1) := by
  refine ⟨ofJson?_toJson r, normalize_of_isNormal _ (isNormal_normalize r), ?_⟩
  rw [normalize_eq_self_iff]
  constructor
  · intro h name children hpart
    have hkeyed := h name children hpart
    exact ⟨hkeyed.distinct, fun c hc => ⟨hkeyed.usable c hc, hkeyed.own c hc⟩⟩
  · intro h name children hpart
    obtain ⟨hdistinct, hchildren⟩ := h name children hpart
    exact ⟨hdistinct, fun c hc => (hchildren c hc).1, fun c hc => (hchildren c hc).2⟩

/-- A key is no name, a child bears another name than its key, and a key comes twice. -/
example :
    normalize (.directory "d" [("a", .file "a" "x"), ("..", .file ".." "y"),
      ("c", .file "b" "z"), ("a", .directory "a" [])]) =
      .directory "d" [("a", .directory "a" []), ("c", .file "c" "z")] := by rfl

end DiskShell.Record
