import DiskShell.Proofs.Json.Members
import DiskShell.Proofs.Record

/-!
What is read of a document. An object holds a node if its type is a file or a directory
(`ofJson?_eq_none_iff`). The children of a directory are the items that can be children (`child?`):
each key stands where it comes first, with the node that comes with it last.
-/

namespace DiskShell.Record

/-- The node that a document holds. -/
def nodeOf? (j : Json) : Option Node := (ofJson? j).map toNode

/-- The items of the list `children`. Anything else under that key counts as an empty list. -/
def childItems (members : Json.Members) : List Json :=
  match Json.field? "children" members with
  | some (.array items) => items
  | _ => []

/-- The child that an item is: an array of a name and of a document that holds a node. What comes
after the two is not looked at. -/
def child? : Json → Option (String × Node)
  | .array (.text (some key) :: j :: _) =>
    if Path.isName key then (nodeOf? j).map fun n => (key, n) else none
  | _ => none

/-! ## Children -/

theorem lastChildren_eq (members : Json.Members) :
    lastChildren members = pairsOf (childItems members) := by
  induction members with
  | nil => rfl
  | cons m rest ih =>
    obtain ⟨key, j⟩ := m
    rw [lastChildren, Json.any_eq_isSome, childItems, Json.field?_cons]
    rw [childItems] at ih
    cases h : Json.field? "children" rest with
    | some later =>
      rw [h] at ih
      simpa using ih
    | none =>
      rw [h] at ih
      by_cases hkey : key = some "children"
      · simp only [hkey, Option.isSome_none, Bool.false_eq_true, not_false_eq_true, and_self,
          ↓reduceIte, Option.none_or]
        cases j <;> rfl
      · simpa [hkey] using ih

theorem pair?_eq_some_iff {item : Json} {p : String × Record} :
    pair? item = some p ↔
      ∃ j more, item = .array (.ofString p.1 :: j :: more) ∧ ofJson? j = some p.2 := by
  obtain ⟨key, r⟩ := p
  constructor
  · intro h
    rw [pair?.eq_def] at h
    split at h
    · next k j more =>
      obtain ⟨r', hr, heq⟩ := Option.map_eq_some_iff.mp h
      cases heq
      exact ⟨j, more, rfl, hr⟩
    · cases h
  · rintro ⟨j, more, rfl, hr⟩
    rw [Json.ofString, pair?, hr]
    rfl

/-- Which items are children. -/
theorem child?_eq_some_iff {item : Json} {key : String} {n : Node} :
    child? item = some (key, n) ↔ Path.IsName key ∧
      ∃ j more, item = .array (.ofString key :: j :: more) ∧ nodeOf? j = some n := by
  rw [← Path.isName_iff]
  constructor
  · intro h
    unfold child? at h
    split at h
    · next k j more =>
      split at h
      · next hk =>
        obtain ⟨m, hm, heq⟩ := Option.map_eq_some_iff.mp h
        cases heq
        exact ⟨hk, j, more, rfl, hm⟩
      · cases h
    · cases h
  · rintro ⟨hk, j, more, rfl, hn⟩
    rw [Json.ofString, child?, if_pos hk, hn]
    rfl

theorem child?_eq (item : Json) :
    child? item = (pair? item).bind fun p =>
      if Path.isName p.1 then some (p.1, p.2.toNode) else none := by
  refine Option.ext fun e => ?_
  obtain ⟨key, n⟩ := e
  rw [child?_eq_some_iff, Option.bind_eq_some_iff, ← Path.isName_iff]
  constructor
  · rintro ⟨hk, j, more, rfl, hn⟩
    obtain ⟨r, hr, rfl⟩ := Option.map_eq_some_iff.mp hn
    exact ⟨(key, r), pair?_eq_some_iff.mpr ⟨j, more, rfl, hr⟩, if_pos hk⟩
  · rintro ⟨p, hp, hk⟩
    split at hk
    · next hname =>
      cases hk
      obtain ⟨j, more, rfl, hr⟩ := pair?_eq_some_iff.mp hp
      exact ⟨hname, j, more, rfl, by rw [nodeOf?, hr]; rfl⟩
    · cases hk

theorem insertAll_pairsOf (d : Directory) (items : List Json) :
    insertAll d (pairsOf items) = d.insertEach (items.filterMap child?) := by
  induction items generalizing d with
  | nil => rfl
  | cons item rest ih =>
    rw [pairsOf, List.filterMap_cons, child?_eq]
    cases pair? item with
    | none => exact ih d
    | some p =>
      obtain ⟨key, r⟩ := p
      rw [insertAll, ih]
      by_cases hk : Path.isName key = true
      · simp only [hk, ↓reduceIte, Option.bind_some]
        rfl
      · simp only [hk, Option.bind_some]
        rfl

/-! ## Objects -/

section

variable {members : Json.Members}

theorem ofJson?_of_file (h : Json.field? "type" members = some (.ofString "file")) :
    ofJson? (.object members) =
      some (.file (textOrEmpty "name" members) (textOrEmpty "content" members)) := by
  rw [ofJson?, h]
  rfl

theorem ofJson?_of_directory (h : Json.field? "type" members = some (.ofString "directory")) :
    ofJson? (.object members) =
      some (.directory (textOrEmpty "name" members) (pairsOf (childItems members))) := by
  rw [ofJson?, h, ← lastChildren_eq]
  rfl

theorem ofJson?_eq_none_iff {j : Json} :
    ofJson? j = none ↔ ¬ ∃ members, j = .object members ∧
      (Json.field? "type" members = some (.ofString "file") ∨
        Json.field? "type" members = some (.ofString "directory")) := by
  constructor
  · rintro h ⟨members, rfl, htype | htype⟩
    · rw [ofJson?_of_file htype] at h
      cases h
    · rw [ofJson?_of_directory htype] at h
      cases h
  · intro h
    cases j with
    | object members =>
      have htext (kind : String) :
          (Json.field? "type" members).bind Json.text? = some kind →
            Json.field? "type" members = some (.ofString kind) := by
        intro hk
        obtain ⟨j, hj, hs⟩ := Option.bind_eq_some_iff.mp hk
        rw [hj, Json.text?_eq_some_iff.mp hs]
      rw [ofJson?]
      split
      · next hfile => exact absurd ⟨members, rfl, Or.inl (htext _ hfile)⟩ h
      · next hdir => exact absurd ⟨members, rfl, Or.inr (htext _ hdir)⟩ h
      · rfl
    | _ => rfl

theorem nodeOf?_of_file (h : Json.field? "type" members = some (.ofString "file")) :
    nodeOf? (.object members) = some (.file (textOrEmpty "content" members)) := by
  rw [nodeOf?, ofJson?_of_file h]
  rfl

theorem nodeOf?_of_directory (h : Json.field? "type" members = some (.ofString "directory")) :
    nodeOf? (.object members) =
      some (.directory (Directory.insertEach [] ((childItems members).filterMap child?))) := by
  rw [nodeOf?, ofJson?_of_directory h, Option.map_some, toNode, insertAll_pairsOf]

theorem nodeOf?_of_neither {j : Json}
    (h : ¬ ∃ members, j = .object members ∧
      (Json.field? "type" members = some (.ofString "file") ∨
        Json.field? "type" members = some (.ofString "directory"))) : nodeOf? j = none := by
  rw [nodeOf?, ofJson?_eq_none_iff.mpr h]
  rfl

/-- The node of an object depends on its type and, for a file, on its content, for a directory, on
the children. -/
theorem nodeOf?_congr {members' : Json.Members}
    (htype : Json.field? "type" members' = Json.field? "type" members)
    (hfile : Json.field? "type" members = some (.ofString "file") →
      textOrEmpty "content" members' = textOrEmpty "content" members)
    (hdir : Json.field? "type" members = some (.ofString "directory") →
      (childItems members').filterMap child? = (childItems members).filterMap child?) :
    nodeOf? (.object members') = nodeOf? (.object members) := by
  by_cases hf : Json.field? "type" members = some (.ofString "file")
  · rw [nodeOf?_of_file (htype.trans hf), nodeOf?_of_file hf, hfile hf]
  · by_cases hd : Json.field? "type" members = some (.ofString "directory")
    · rw [nodeOf?_of_directory (htype.trans hd), nodeOf?_of_directory hd, hdir hd]
    · have hnone {m : Json.Members}
          (hm : Json.field? "type" m = Json.field? "type" members) :
          nodeOf? (.object m) = none := by
        refine nodeOf?_of_neither ?_
        rintro ⟨m', heq, hkind⟩
        cases heq
        rw [hm] at hkind
        exact hkind.elim hf hd
      rw [hnone htype, hnone rfl]

end

/-! ## Directories -/

theorem exists_child?_iff {items : List Json} {key : String} :
    (∃ item ∈ items, ∃ n, child? item = some (key, n)) ↔ Path.IsName key ∧
      ∃ j more, .array (.ofString key :: j :: more) ∈ items ∧ (ofJson? j).isSome := by
  constructor
  · rintro ⟨item, hmem, n, hn⟩
    obtain ⟨hname, j, more, rfl, hj⟩ := child?_eq_some_iff.mp hn
    have hread : (ofJson? j).isSome = true := by
      rw [← Option.isSome_map, ← nodeOf?, hj]
      rfl
    exact ⟨hname, j, more, hmem, hread⟩
  · rintro ⟨hname, j, more, hmem, hread⟩
    obtain ⟨r, hr⟩ := Option.isSome_iff_exists.mp hread
    have hnode : nodeOf? j = some r.toNode := by
      rw [nodeOf?, hr]
      rfl
    exact ⟨_, hmem, r.toNode, child?_eq_some_iff.mpr ⟨hname, j, more, rfl, hnode⟩⟩

theorem names_insertEach_children (items : List Json) :
    Directory.names (Directory.insertEach [] (items.filterMap child?)) =
      ((items.filterMap child?).map Prod.fst).eraseDups := by
  have hnew : ((items.filterMap child?).map Prod.fst).filter (· ∉ Directory.names []) =
      (items.filterMap child?).map Prod.fst :=
    List.filter_eq_self.mpr fun name _ => by simp [Directory.names]
  rw [Directory.names_insertEach, hnew]
  rfl

theorem mem_names_insertEach_children {items : List Json} {key : String} :
    key ∈ Directory.names (Directory.insertEach [] (items.filterMap child?)) ↔
      ∃ item ∈ items, ∃ n, child? item = some (key, n) := by
  rw [names_insertEach_children, List.mem_eraseDups]
  simp only [List.mem_map, List.mem_filterMap, Prod.exists, exists_and_right, exists_eq_right]
  constructor
  · rintro ⟨n, item, hmem, hn⟩
    exact ⟨item, hmem, n, hn⟩
  · rintro ⟨item, hmem, n, hn⟩
    exact ⟨n, item, hmem, hn⟩

/-- The last item with a key is the child of that name. -/
theorem mem_insertEach_children {items : List Json} {key : String} {n : Node} :
    (key, n) ∈ Directory.insertEach [] (items.filterMap child?) ↔
      ∃ before item after, items = before ++ item :: after ∧ child? item = some (key, n) ∧
        ∀ other ∈ after, ∀ m, child? other ≠ some (key, m) := by
  have hnodup : (Directory.insertEach [] (items.filterMap child?)).names.Nodup :=
    Directory.nodup_names_insertEach (d := []) List.nodup_nil _
  rw [← Directory.child?_eq_some_iff_mem hnodup, Directory.child?_insertEach, Directory.child?,
    List.lookup_nil, Option.or_none, List.lookup_eq_some_iff]
  constructor
  · rintro ⟨late, early, hsplit, hlate⟩
    have hes : items.filterMap child? = early.reverse ++ (key, n) :: late.reverse := by
      rw [← List.reverse_inj, hsplit]
      simp
    obtain ⟨before, rest, rfl, -, hrest⟩ := List.filterMap_eq_append_iff.mp hes
    obtain ⟨skipped, item, after, rfl, -, hitem, hafter⟩ := List.filterMap_eq_cons_iff.mp hrest
    refine ⟨before ++ skipped, item, after, by simp, hitem, fun other hmem m hm => ?_⟩
    have hin : (key, m) ∈ late := by
      rw [← List.mem_reverse, ← hafter]
      exact List.mem_filterMap.mpr ⟨other, hmem, hm⟩
    simpa using hlate _ hin
  · rintro ⟨before, item, after, rfl, hitem, hafter⟩
    refine ⟨(after.filterMap child?).reverse, (before.filterMap child?).reverse, ?_, ?_⟩
    · rw [List.filterMap_append, List.filterMap_cons, hitem]
      simp
    · rintro ⟨name, m⟩ hm
      obtain ⟨other, hmem, hother⟩ := List.mem_filterMap.mp (List.mem_reverse.mp hm)
      have hne : key ≠ name := by
        rintro rfl
        exact hafter other hmem m hother
      simpa using hne

end DiskShell.Record
