import Mathlib.Logic.Relation
import DiskShell.Proofs.Record.Children

/-!
Defects of a document. Beside the record of a node a document may have other things in it, at every
level (`Defect`). None of them changes the node (`nodeOf?_defect`), so every mixture of defects is
repaired where the defects are (`decoding_repairs_in_place`).
-/

namespace DiskShell.Record

/-- An object with these items as its children, if no later member has that key. -/
def withChildren (before after : Json.Members) (items : List Json) : Json :=
  .object (before ++ (some "children", .array items) :: after)

/-- What a document may have beside the record of a node, at every level: the second document has
one thing more, or another thing in its place. -/
inductive Defect : Json → Json → Prop
  /-- A member that no record has, or a name: the name of a child is its key. -/
  | member {before after key j} (hkey : key ∉ [some "type", some "content", some "children"]) :
    Defect (.object (before ++ after)) (.object (before ++ (key, j) :: after))
  /-- A content that is no text. -/
  | content {before after j} (hmissing : some "content" ∉ (before ++ after).map Prod.fst)
    (hj : j.text? = none) :
    Defect (.object (before ++ after)) (.object (before ++ (some "content", j) :: after))
  /-- Children that are no list. -/
  | children {before after j} (hmissing : some "children" ∉ (before ++ after).map Prod.fst)
    (hj : ∀ items, j ≠ .array items) :
    Defect (.object (before ++ after)) (.object (before ++ (some "children", j) :: after))
  /-- A content in a directory. -/
  | contentOfDirectory {before after j}
    (htype : Json.field? "type" (before ++ after) = some (.ofString "directory")) :
    Defect (.object (before ++ after)) (.object (before ++ (some "content", j) :: after))
  /-- Children in a file. -/
  | childrenOfFile {before after j}
    (htype : Json.field? "type" (before ++ after) = some (.ofString "file")) :
    Defect (.object (before ++ after)) (.object (before ++ (some "children", j) :: after))
  /-- An item that is no child: of another shape, with a key that is no name, or without a node. -/
  | item {before after items item rest} (hitem : child? item = none) :
    Defect (withChildren before after (items ++ rest))
      (withChildren before after (items ++ item :: rest))
  /-- Other things after the key and the node of a child. -/
  | surplus {before after items key j more more' rest} :
    Defect (withChildren before after (items ++ .array (key :: j :: more) :: rest))
      (withChildren before after (items ++ .array (key :: j :: more') :: rest))
  /-- A defect in the document of a child. -/
  | inside {before after items key j j' more rest} (h : Defect j j') :
    Defect (withChildren before after (items ++ .array (key :: j :: more) :: rest))
      (withChildren before after (items ++ .array (key :: j' :: more) :: rest))

section

variable {before after : Json.Members}

/-- A member under a key that the node does not depend on. -/
theorem nodeOf?_insert {key : Option String} (htype : key ≠ some "type") (j : Json)
    (hfile : Json.field? "type" (before ++ after) = some (.ofString "file") →
      textOrEmpty "content" (before ++ (key, j) :: after) =
        textOrEmpty "content" (before ++ after))
    (hdir : Json.field? "type" (before ++ after) = some (.ofString "directory") →
      childItems (before ++ (key, j) :: after) = childItems (before ++ after)) :
    nodeOf? (.object (before ++ (key, j) :: after)) = nodeOf? (.object (before ++ after)) :=
  nodeOf?_congr (Json.field?_insert_of_ne htype j before after) hfile fun h => by rw [hdir h]

theorem textOrEmpty_insert {name : String} {key : Option String} (h : key ≠ some name) (j : Json) :
    textOrEmpty name (before ++ (key, j) :: after) = textOrEmpty name (before ++ after) := by
  rw [textOrEmpty, textOrEmpty, Json.field?_insert_of_ne h]

theorem childItems_insert {key : Option String} (h : key ≠ some "children") (j : Json) :
    childItems (before ++ (key, j) :: after) = childItems (before ++ after) := by
  rw [childItems, childItems, Json.field?_insert_of_ne h]

theorem childItems_withChildren (items : List Json) :
    childItems (before ++ (some "children", .array items) :: after) =
      if Json.field? "children" after = none then items else childItems after := by
  rw [childItems, childItems, Json.field?_append, Json.field?_cons]
  cases h : Json.field? "children" after with
  | none => rfl
  | some later => simp

/-- Other items with the same children among them. -/
theorem nodeOf?_withChildren {items items' : List Json}
    (h : items'.filterMap child? = items.filterMap child?) :
    nodeOf? (withChildren before after items') = nodeOf? (withChildren before after items) := by
  have hother (name : String) (hne : some "children" ≠ some name) :
      Json.field? name (before ++ (some "children", .array items') :: after) =
        Json.field? name (before ++ (some "children", .array items) :: after) := by
    rw [Json.field?_insert_of_ne hne, Json.field?_insert_of_ne hne]
  refine nodeOf?_congr (hother "type" (by decide)) (fun _ => ?_) (fun _ => ?_)
  · rw [textOrEmpty, textOrEmpty, hother "content" (by decide)]
  · rw [childItems_withChildren, childItems_withChildren]
    split
    · exact h
    · rfl

theorem child?_congr {key j j' : Json} {more more' : List Json} (h : nodeOf? j' = nodeOf? j) :
    child? (.array (key :: j' :: more')) = child? (.array (key :: j :: more)) := by
  cases key with
  | text s =>
    cases s with
    | none => rfl
    | some name => rw [child?, child?, h]
  | _ => rfl

theorem nodeOf?_replace_child {key j j' : Json} {items rest more more' : List Json}
    (h : nodeOf? j' = nodeOf? j) :
    nodeOf? (withChildren before after (items ++ .array (key :: j' :: more') :: rest)) =
      nodeOf? (withChildren before after (items ++ .array (key :: j :: more) :: rest)) := by
  refine nodeOf?_withChildren ?_
  rw [List.filterMap_append, List.filterMap_append, List.filterMap_cons, List.filterMap_cons,
    child?_congr h]

end

/-- **A defect leaves the node as it is.** -/
theorem nodeOf?_defect {j j' : Json} (h : Defect j j') : nodeOf? j' = nodeOf? j := by
  induction h with
  | member hkey =>
    simp only [List.mem_cons, List.not_mem_nil, or_false, not_or] at hkey
    obtain ⟨htype, hcontent, hchildren⟩ := hkey
    exact nodeOf?_insert htype _ (fun _ => textOrEmpty_insert hcontent _)
      (fun _ => childItems_insert hchildren _)
  | content hmissing hj =>
    refine nodeOf?_insert (by decide) _ (fun _ => ?_) (fun _ => childItems_insert (by decide) _)
    rw [textOrEmpty, textOrEmpty, Json.field?_insert_self hmissing, Json.field?_eq_none hmissing,
      Option.bind_some, hj]
    rfl
  | @children _ _ j hmissing hj =>
    refine nodeOf?_insert (by decide) _ (fun _ => textOrEmpty_insert (by decide) _) (fun _ => ?_)
    rw [childItems, childItems, Json.field?_insert_self hmissing, Json.field?_eq_none hmissing]
    cases j with
    | array items => exact absurd rfl (hj items)
    | _ => rfl
  | contentOfDirectory htype =>
    refine nodeOf?_insert (by decide) _ (fun hfile => ?_) (fun _ => childItems_insert (by decide) _)
    exact absurd (htype.symm.trans hfile) (by simp [Json.ofString])
  | childrenOfFile htype =>
    refine nodeOf?_insert (by decide) _ (fun _ => textOrEmpty_insert (by decide) _) (fun hdir => ?_)
    exact absurd (htype.symm.trans hdir) (by simp [Json.ofString])
  | item hitem =>
    refine nodeOf?_withChildren ?_
    rw [List.filterMap_append, List.filterMap_append, List.filterMap_cons, hitem]
  | surplus => exact nodeOf?_replace_child rfl
  | inside _ ih => exact nodeOf?_replace_child ih

/-- **Each defect is repaired where it is.** A document holds a record unless it is no object whose
type is a file or a directory. A name or content that is no text is empty. The children of a
directory are named by the keys that can be names and come before a document with a record in it, in
the order in which each key comes first, and each is what the last document with its key holds. No
number of other things in the document, at whatever level, changes its node. -/
theorem decoding_repairs_in_place (j : Json) :
    (ofJson? j = none ↔ ¬ ∃ members, j = .object members ∧
      (Json.field? "type" members = some (.ofString "file") ∨
        Json.field? "type" members = some (.ofString "directory"))) ∧
    (∀ members, j = .object members →
      Json.field? "type" members = some (.ofString "file") →
      ofJson? j = some (.file (textOrEmpty "name" members) (textOrEmpty "content" members))) ∧
    (∀ members, j = .object members →
      Json.field? "type" members = some (.ofString "directory") →
      ∃ r, ∃ d : Directory, ofJson? j = some r ∧ r.name = textOrEmpty "name" members ∧
        r.toNode = .directory d ∧
        (∀ key, key ∈ d.names ↔ Path.IsName key ∧
          ∃ k more, .array (.ofString key :: k :: more) ∈ childItems members ∧
            (ofJson? k).isSome) ∧
        d.names = (((childItems members).filterMap child?).map Prod.fst).eraseDups ∧
        ∀ key n, (key, n) ∈ d ↔
          ∃ before item after, childItems members = before ++ item :: after ∧
            child? item = some (key, n) ∧
            ∀ other ∈ after, ∀ m, child? other ≠ some (key, m)) ∧
    (∀ j', Relation.ReflTransGen Defect j j' → nodeOf? j' = nodeOf? j) := by
  refine ⟨ofJson?_eq_none_iff, ?_, ?_, fun j' h => ?_⟩
  · rintro members rfl htype
    exact ofJson?_of_file htype
  · rintro members rfl htype
    refine ⟨_, _, ofJson?_of_directory htype, rfl, by rw [toNode, insertAll_pairsOf],
      fun key => ?_, names_insertEach_children _, fun key n => mem_insertEach_children⟩
    exact mem_names_insertEach_children.trans exists_child?_iff
  · induction h with
    | refl => rfl
    | tail _ hlast ih => exact (nodeOf?_defect hlast).trans ih

/-- Of these items the first gives the place, the last the content, and the one between nothing. The
content is no text, so it is empty. -/
theorem repaired_at_two_levels :
    let type : Option String × Json := (some "type", .ofString "directory")
    let file : Json.Members := [(some "type", .ofString "file")]
    let spoiled : Json.Members := file ++ [(some "content", .null)]
    let child (members : Json.Members) : Json := .array [.ofString "a", .object members]
    let j := withChildren [type] [] [child [type], child file]
    let j' := withChildren [type] [] [child [type], .null, child spoiled]
    ofJson? (.object spoiled) = some (.file "" "") ∧
      Relation.ReflTransGen Defect j j' ∧ nodeOf? j' = nodeOf? j ∧
      ∃ r, ∃ d : Directory, ofJson? j' = some r ∧ r.name = "" ∧ r.toNode = .directory d ∧ d.names = ["a"] ∧
        ("a", .file "") ∈ d := by
  intro type file spoiled child j j'
  have hspoiled : Defect (.object file) (.object spoiled) :=
    @Defect.content file [] .null (by simp [file]) rfl
  have hnull : Defect j (withChildren [type] [] [child [type], .null, child file]) :=
    @Defect.item [type] [] [child [type]] .null [child file] rfl
  have hinside : Defect (withChildren [type] [] [child [type], .null, child file]) j' :=
    @Defect.inside [type] [] [child [type], .null] (.ofString "a") _ _ [] [] hspoiled
  have hdefects : Relation.ReflTransGen Defect j j' := .tail (.single hnull) hinside
  obtain ⟨-, hfile, -, -⟩ := decoding_repairs_in_place (.object spoiled)
  obtain ⟨-, -, -, hsame⟩ := decoding_repairs_in_place j
  obtain ⟨-, -, hdirectory, -⟩ := decoding_repairs_in_place j'
  obtain ⟨r, d, hr, hname, hd, -, hnames, hmem⟩ := hdirectory _ rfl rfl
  refine ⟨hfile spoiled rfl rfl, hdefects, hsame j' hdefects, r, d, hr, hname, hd,
    hnames.trans ?_, ?_⟩
  · decide
  · exact (hmem "a" (.file "")).mpr ⟨[child [type], .null], child spoiled, [], rfl, rfl, by simp⟩

end DiskShell.Record
