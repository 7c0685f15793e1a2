import Mathlib.Data.List.Nodup
import DiskShell.Json.Fields
import DiskShell.Proofs.Json.Members
import DiskShell.Proofs.Lookup

/-!
Values and records in documents. A plain value is read from the document that is written for it, and
from no other. A record is read from an object by the values under the names of its fields: the order
of the members and members under other keys make no difference (`exists_fields?_of_lists`), while a
field that comes twice makes the object no record (`fields?_of_repeated`).
-/

namespace DiskShell.Json

/-! ## Plain values -/

/-- A number written with digits only that 64 bits hold. -/
def IsWord (j : Json) : Prop := ∃ n < Numeral.wordLimit, j = ofNat n

def IsText (j : Json) : Prop := ∃ s, j = ofString s

def IsTexts (j : Json) : Prop := ∃ ss, j = ofStrings ss

theorem Numeral.natural?_eq_some_iff {m : Numeral} {n : Nat} :
    m.natural? = some n ↔ m = ofNat n := by
  obtain ⟨negative, whole, fraction, exponent⟩ := m
  cases negative <;> cases fraction <;> cases exponent <;> simp [natural?, ofNat]

theorem natural?_eq_some_iff {j : Json} {n : Nat} :
    natural? j = some n ↔ j = ofNat n ∧ n < Numeral.wordLimit := by
  cases j with
  | number m =>
    rw [natural?, Option.filter_eq_some_iff, Numeral.natural?_eq_some_iff, decide_eq_true_iff,
      ofNat, Json.number.injEq]
  | _ => simp [natural?, ofNat]

theorem natural?_ofNat {n : Nat} (h : n < Numeral.wordLimit) : natural? (ofNat n) = some n :=
  natural?_eq_some_iff.mpr ⟨rfl, h⟩

theorem isWord_of_natural? {j : Json} {n : Nat} (h : natural? j = some n) : IsWord j := by
  obtain ⟨rfl, hn⟩ := natural?_eq_some_iff.mp h
  exact ⟨n, hn, rfl⟩

theorem text?_ofString (s : String) : text? (ofString s) = some s := rfl

theorem list?_ofList {α : Type} {write : α → Json} {read : Json → Option α} {xs : List α}
    (h : ∀ x ∈ xs, read (write x) = some x) : list? read (ofList write xs) = some xs := by
  rw [ofList, list?, List.mapM_map]
  induction xs with
  | nil => rfl
  | cons x rest ih =>
    have hx : (read ∘ write) x = some x := h x (List.mem_cons_self ..)
    rw [List.mapM_cons, hx, ih fun y hy => h y (List.mem_cons_of_mem _ hy)]
    rfl

theorem strings?_eq_some_iff {j : Json} {ss : List String} :
    strings? j = some ss ↔ j = ofStrings ss := by
  constructor
  · intro h
    cases j with
    | array items =>
      replace h : items.mapM text? = some ss := h
      rw [ofStrings, ofList, Json.array.injEq]
      induction items generalizing ss with
      | nil =>
        cases h
        rfl
      | cons j rest ih =>
        rw [List.mapM_cons] at h
        obtain ⟨s, hs, h⟩ := Option.bind_eq_some_iff.mp h
        obtain ⟨ss', hss, heq⟩ := Option.bind_eq_some_iff.mp h
        cases heq
        rw [List.map_cons, ← ih hss, text?_eq_some_iff.mp hs]
    | _ => cases h
  · rintro rfl
    exact list?_ofList fun s _ => text?_ofString s

theorem strings?_ofStrings (ss : List String) : strings? (ofStrings ss) = some ss :=
  strings?_eq_some_iff.mpr rfl

theorem isText_of_text? {j : Json} {s : String} (h : text? j = some s) : IsText j :=
  ⟨s, text?_eq_some_iff.mp h⟩

theorem isTexts_of_strings? {j : Json} {ss : List String} (h : strings? j = some ss) : IsTexts j :=
  ⟨ss, strings?_eq_some_iff.mp h⟩

theorem option?_of_read {α : Type} {read : Json → Option α} {j : Json} {a : α} (hj : j ≠ .null)
    (h : read j = some a) : option? read j = some (some a) := by
  unfold option?
  split
  · exact absurd rfl hj
  · rw [h]
    rfl

theorem option?_ofOption {α : Type} {write : α → Json} {read : Json → Option α} {o : Option α}
    (hnull : ∀ a, write a ≠ .null) (h : ∀ a ∈ o, read (write a) = some a) :
    option? read (ofOption write o) = some o := by
  cases o with
  | none => rfl
  | some a => exact option?_of_read (hnull a) (h a rfl)

/-! ## Records -/

/-- The members that are fields of a record with these names. -/
def known (names : List String) (members : Members) : List (String × Json) :=
  members.filterMap fun m => m.1.bind fun key =>
    if names.contains key then some (key, m.2) else none

theorem fields?_object_eq_some_iff {names : List String} {members : Members} {fs : Fields} :
    fields? names (.object members) = some fs ↔
      (∀ m ∈ members, m.1.isSome = true) ∧ ((known names members).map Prod.fst).Nodup ∧
        fs = ⟨known names members, false⟩ := by
  have hnamed : namedFields? names members =
      if members.all (fun m => m.1.isSome) then
        if ((known names members).map Prod.fst).Nodup then some (known names members) else none
      else none := rfl
  have hall : members.all (fun m => m.1.isSome) = true ↔ ∀ m ∈ members, m.1.isSome = true :=
    List.all_eq_true
  rw [fields?, hnamed, ← hall]
  split
  · next hkeys =>
    split
    · next hnodup => simp [hkeys, hnodup, eq_comm]
    · next hnodup => simp [hnodup]
  · next hkeys => simp [hkeys]

/-- Fields as members of an object. -/
def membersOf (fields : List (String × Json)) : Members := fields.map fun f => (some f.1, f.2)

theorem known_membersOf {names : List String} {fields : List (String × Json)}
    (h : ∀ f ∈ fields, f.1 ∈ names) : known names (membersOf fields) = fields := by
  induction fields with
  | nil => rfl
  | cons f rest ih =>
    have hf : names.contains f.1 = true := by simpa using h f (List.mem_cons_self ..)
    have hrest := ih fun g hg => h g (List.mem_cons_of_mem _ hg)
    rw [membersOf, List.map_cons, known, List.filterMap_cons, Option.bind_some, if_pos hf]
    exact congrArg (f :: ·) hrest

theorem known_membersOf_eq_nil {names : List String} {fields : List (String × Json)}
    (h : ∀ f ∈ fields, f.1 ∉ names) : known names (membersOf fields) = [] := by
  refine List.filterMap_eq_nil_iff.mpr fun m hm => ?_
  obtain ⟨f, hf, rfl⟩ := List.mem_map.mp hm
  simp [h f hf]

theorem lookup_known_eq_some_iff {names : List String} {members : Members}
    (hnodup : ((known names members).map Prod.fst).Nodup) {name : String} {j : Json} :
    (known names members).lookup name = some j ↔ name ∈ names ∧ (some name, j) ∈ members := by
  rw [lookup_eq_some_iff_mem hnodup, known, List.mem_filterMap]
  constructor
  · rintro ⟨⟨key, v⟩, hm, h⟩
    obtain ⟨k, rfl, h⟩ := Option.bind_eq_some_iff.mp h
    split at h
    · next hk =>
      cases h
      exact ⟨by simpa using hk, hm⟩
    · cases h
  · rintro ⟨hname, hm⟩
    exact ⟨_, hm, by simp [hname]⟩

/-! ### Fields in any order -/

/-- The object has these members and others under other names, in any order. Names are texts, so no
key is missing. -/
def Lists (names : List String) (fields : List (String × Json)) (members : Members) : Prop :=
  ∃ others : List (String × Json), (∀ f ∈ others, f.1 ∉ names) ∧
    members.Perm (membersOf (fields ++ others))

/-- An object that lists some of the fields of a record, each once, is read by those fields. -/
theorem exists_fields?_of_lists (fields : List (String × Json)) {given : String → Bool}
    {members : Members} (hnodup : (fields.map Prod.fst).Nodup)
    (h : Lists (fields.map Prod.fst) (fields.filter fun f => given f.1) members) :
    ∃ fs, fields? (fields.map Prod.fst) (.object members) = some fs ∧
      ∀ name, fs.found.lookup name = if given name then fields.lookup name else none := by
  obtain ⟨others, hothers, hperm⟩ := h
  have hkeyed : ∀ m ∈ members, m.1.isSome = true := by
    intro m hm
    obtain ⟨f, -, rfl⟩ := List.mem_map.mp (hperm.mem_iff.mp hm)
    rfl
  have hpart : (fields.filter fun f => given f.1).Sublist fields := List.filter_sublist
  have hnames : ∀ f ∈ fields.filter fun f => given f.1, f.1 ∈ fields.map Prod.fst :=
    fun f hf => List.mem_map_of_mem (hpart.subset hf)
  have hknown : (known (fields.map Prod.fst) members).Perm (fields.filter fun f => given f.1) := by
    have hsplit := hperm.filterMap (fun m => m.1.bind fun key =>
      if (fields.map Prod.fst).contains key then some (key, m.2) else none)
    rw [membersOf, List.map_append, List.filterMap_append] at hsplit
    refine hsplit.trans (List.Perm.of_eq ?_)
    show known _ (membersOf _) ++ known _ (membersOf others) = _
    rw [known_membersOf hnames, known_membersOf_eq_nil hothers, List.append_nil]
  have hdistinct : ((known (fields.map Prod.fst) members).map Prod.fst).Nodup :=
    (hknown.map Prod.fst).nodup_iff.mpr (hnodup.sublist (hpart.map Prod.fst))
  refine ⟨_, fields?_object_eq_some_iff.mpr ⟨hkeyed, hdistinct, rfl⟩, fun name => ?_⟩
  exact (lookup_of_perm hknown hdistinct).trans (lookup_filter_fst given fields name)

/-- A field with a default is read as it is given, or as by default. -/
theorem Fields.orDefault?_eq {α : Type} {fs : Fields} {fields : List (String × Json)}
    {given : String → Bool} {name : String} {read : Json → Option α} {a : α}
    (h : fs.found.lookup name = if given name then fields.lookup name else none)
    (hread : given name = true → (fields.lookup name).bind read = some a) (default : α) :
    fs.orDefault? name read default = some (if given name then a else default) := by
  rw [orDefault?, h]
  cases hgiven : given name with
  | false => rfl
  | true =>
    obtain ⟨j, hj, ha⟩ := Option.bind_eq_some_iff.mp (hread hgiven)
    simp only [↓reduceIte, hj, ha]

/-- A value that a field has been read from is of its kind. -/
theorem Fields.kind_of_orDefault? {α : Type} {fs : Fields} {name : String}
    {read : Json → Option α} {default a : α} {kind : Json → Prop} {j : Json}
    (h : fs.orDefault? name read default = some a) (hread : ∀ a, read j = some a → kind j)
    (hj : fs.found.lookup name = some j) : kind j := by
  rw [orDefault?, hj] at h
  exact hread a h

/-! ### Mistakes -/

/-- What makes a document no record with fields of these names and kinds of values. -/
inductive Mistaken (kinds : List (String × (Json → Prop))) : Json → Prop
  /-- A field comes twice. -/
  | repeated {members name} (hname : name ∈ kinds.map Prod.fst)
    (htwice : 1 < (members.map Prod.fst).count (some name)) : Mistaken kinds (.object members)
  /-- A field has a value of another kind. -/
  | member {members name kind j} (hname : (name, kind) ∈ kinds) (hmem : (some name, j) ∈ members)
    (hj : ¬ kind j) : Mistaken kinds (.object members)
  /-- The same in an array that has the values of the fields in order. -/
  | item {items name kind j} (hmem : ((name, kind), j) ∈ kinds.zip items) (hj : ¬ kind j) :
    Mistaken kinds (.array items)
  /-- Neither an object nor an array. -/
  | plain {j} (hobject : ∀ members, j ≠ .object members) (harray : ∀ items, j ≠ .array items) :
    Mistaken kinds j

theorem count_known {names : List String} {name : String} (hname : name ∈ names)
    (members : Members) : ((known names members).map Prod.fst).count name =
      (members.map Prod.fst).count (some name) := by
  rw [known, List.map_filterMap, List.count_filterMap, List.count, List.countP_map]
  refine List.countP_congr fun m _ => ?_
  obtain ⟨key, j⟩ := m
  cases key with
  | none => simp
  | some k =>
    by_cases hk : k ∈ names
    · simp [hk]
    · have hne : k ≠ name := fun he => hk (he ▸ hname)
      simp [hk, hne]

theorem exists_wrong_of_mistaken {kinds : List (String × (Json → Prop))} {j : Json} {fs : Fields}
    (h : Mistaken kinds j) (hnodup : (kinds.map Prod.fst).Nodup)
    (hfs : fields? (kinds.map Prod.fst) j = some fs) :
    ∃ name kind v, (name, kind) ∈ kinds ∧ fs.found.lookup name = some v ∧ ¬ kind v := by
  cases h with
  | repeated hname htwice =>
    obtain ⟨-, hdistinct, -⟩ := fields?_object_eq_some_iff.mp hfs
    have hle := List.nodup_iff_count_le_one.mp hdistinct
    rw [← count_known hname] at htwice
    exact absurd htwice (Nat.not_lt.mpr (hle _))
  | @member members name kind v hname hmem hv =>
    obtain ⟨-, hdistinct, rfl⟩ := fields?_object_eq_some_iff.mp hfs
    refine ⟨name, kind, v, hname, ?_, hv⟩
    exact (lookup_known_eq_some_iff hdistinct).mpr ⟨List.mem_map_of_mem hname, hmem⟩
  | @item items name kind v hmem hv =>
    rw [fields?] at hfs
    split at hfs
    · cases hfs
      refine ⟨name, kind, v, (List.of_mem_zip hmem).1, ?_, hv⟩
      have hzip : (kinds.map Prod.fst).zip items = (kinds.zip items).map fun e => (e.1.1, e.2) := by
        rw [List.zip_map_left]
        rfl
      have hdistinct : (((kinds.map Prod.fst).zip items).map Prod.fst).Nodup := by
        rw [List.zip_eq_zip_take_min, List.map_fst_zip (by simp)]
        exact hnodup.sublist (List.take_sublist ..)
      rw [lookup_eq_some_iff_mem hdistinct, hzip]
      exact List.mem_map_of_mem hmem
    · cases hfs
  | plain hobject harray =>
    cases j with
    | object members => exact absurd rfl (hobject members)
    | array items => exact absurd rfl (harray items)
    | _ => cases hfs

/-- A record whose fields are read from values of their kinds is not read where there is a mistake. -/
theorem eq_none_of_mistaken {α : Type} {kinds : List (String × (Json → Prop))}
    {read : Json → Option α} {j : Json} (h : Mistaken kinds j) (hnodup : (kinds.map Prod.fst).Nodup)
    (hread : ∀ a, read j = some a → ∃ fs, fields? (kinds.map Prod.fst) j = some fs ∧
      ∀ f ∈ kinds, ∀ v, fs.found.lookup f.1 = some v → f.2 v) : read j = none := by
  refine Option.eq_none_iff_forall_ne_some.mpr fun a ha => ?_
  obtain ⟨fs, hfs, hkinds⟩ := hread a ha
  obtain ⟨name, kind, v, hkind, hv, hwrong⟩ := exists_wrong_of_mistaken h hnodup hfs
  exact hwrong (hkinds (name, kind) hkind v hv)

/-! ### Fields in order -/

/-- What is written for a record are its fields in order. -/
theorem fields?_record {names : List String} {fields : List (String × Json)}
    (hnames : ∀ f ∈ fields, f.1 ∈ names) (hnodup : (fields.map Prod.fst).Nodup) :
    fields? names (record fields) = some ⟨fields, false⟩ := by
  have hknown := known_membersOf hnames
  refine fields?_object_eq_some_iff.mpr ⟨fun m hm => ?_, ?_, ?_⟩
  · obtain ⟨f, -, rfl⟩ := List.mem_map.mp hm
    rfl
  · show ((known names (membersOf fields)).map Prod.fst).Nodup
    rw [hknown]
    exact hnodup
  · show _ = Fields.mk (known names (membersOf fields)) false
    rw [hknown]

end DiskShell.Json
