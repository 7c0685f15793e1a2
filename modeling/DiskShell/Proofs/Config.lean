import DiskShell.Config
import DiskShell.Proofs.Json.Assembly
import DiskShell.Proofs.Json.Fields

/-!
Settings given in part. An object may give any of the fields of a record of settings, in any order
and among members that are no fields: those are read as they are given, and the others are as by
default (`ofJson?_part`). A document in which a field comes twice or has a value of another kind
holds no settings (`ofJson?_mistaken`).
-/

namespace DiskShell

open Json (IsWord IsText IsTexts Lists Mistaken)

/-! ## Limits of a snapshot -/

namespace Limits

/-- The members that are written for the limits. -/
def fields (l : Limits) : List (String × Json) :=
  [("max_items", .ofNat l.maxItems), ("max_preview", .ofNat l.maxPreview),
    ("max_depth", .ofNat l.maxDepth)]

/-- The fields, and which values they take. -/
def kinds : List (String × (Json → Prop)) :=
  [("max_items", IsWord), ("max_preview", IsWord), ("max_depth", IsWord)]

/-- A document of limits without a mistake in it. -/
def IsProper (j : Json) : Prop := ¬ Mistaken kinds j

/-- The limits are numbers of 64 bits. -/
def Fits (l : Limits) : Prop :=
  l.maxItems < Json.Numeral.wordLimit ∧ l.maxPreview < Json.Numeral.wordLimit ∧
    l.maxDepth < Json.Numeral.wordLimit

/-- The given limits of `l`, and the others by default. -/
def part (l : Limits) (given : String → Bool) : Limits :=
  ⟨if given "max_items" then l.maxItems else default.maxItems,
    if given "max_preview" then l.maxPreview else default.maxPreview,
    if given "max_depth" then l.maxDepth else default.maxDepth⟩

theorem nodup_kinds : (kinds.map Prod.fst).Nodup := by decide

theorem ofJson?_eq_some_iff {j : Json} {l : Limits} :
    ofJson? j = some l ↔ ∃ fs, j.fields? (kinds.map Prod.fst) = some fs ∧
      fs.orDefault? "max_items" Json.natural? default.maxItems = some l.maxItems ∧
      fs.orDefault? "max_preview" Json.natural? default.maxPreview = some l.maxPreview ∧
      fs.orDefault? "max_depth" Json.natural? default.maxDepth = some l.maxDepth := by
  obtain ⟨items, preview, depth⟩ := l
  simp [ofJson?, kinds, Option.bind_eq_some_iff]

theorem ofJson?_part {l : Limits} (hl : l.Fits) {given : String → Bool} {members : Json.Members}
    (h : Lists (kinds.map Prod.fst) (l.fields.filter fun f => given f.1) members) :
    ofJson? (.object members) = some (l.part given) := by
  obtain ⟨hitems, hpreview, hdepth⟩ := hl
  obtain ⟨fs, hfs, hlookup⟩ := Json.exists_fields?_of_lists l.fields nodup_kinds h
  refine ofJson?_eq_some_iff.mpr ⟨fs, hfs, ?_, ?_, ?_⟩
  · refine Json.Fields.orDefault?_eq (hlookup _) (fun _ => ?_) _
    simp [fields, Json.natural?_ofNat hitems]
  · refine Json.Fields.orDefault?_eq (hlookup _) (fun _ => ?_) _
    simp [fields, lookup_cons_eq, Json.natural?_ofNat hpreview]
  · refine Json.Fields.orDefault?_eq (hlookup _) (fun _ => ?_) _
    simp [fields, lookup_cons_eq, Json.natural?_ofNat hdepth]

theorem ofJson?_mistaken {j : Json} (h : Mistaken kinds j) : ofJson? j = none := by
  refine Json.eq_none_of_mistaken h nodup_kinds fun l hl => ?_
  obtain ⟨fs, hfs, hitems, hpreview, hdepth⟩ := ofJson?_eq_some_iff.mp hl
  refine ⟨fs, hfs, ?_⟩
  simp only [kinds, List.forall_mem_cons]
  refine ⟨fun v hv => ?_, fun v hv => ?_, fun v hv => ?_, List.forall_mem_nil _⟩
  · exact Json.Fields.kind_of_orDefault? hitems (fun _ => Json.isWord_of_natural?) hv
  · exact Json.Fields.kind_of_orDefault? hpreview (fun _ => Json.isWord_of_natural?) hv
  · exact Json.Fields.kind_of_orDefault? hdepth (fun _ => Json.isWord_of_natural?) hv

theorem isProper_of_ofJson? {j : Json} {l : Limits} (h : ofJson? j = some l) : IsProper j := by
  intro hmistaken
  rw [ofJson?_mistaken hmistaken] at h
  cases h

end Limits

/-! ## Settings of a disk -/

namespace DiskConfig

/-- The members that are written for the settings, with a document for the limits. -/
def fields (c : DiskConfig) (limits : Json) : List (String × Json) :=
  [("storage_key", .ofString c.storageKey), ("seed_directories", .ofStrings c.seedDirectories),
    ("snapshot", limits)]

def kinds : List (String × (Json → Prop)) :=
  [("storage_key", IsText), ("seed_directories", IsTexts),
    ("snapshot", Limits.IsProper)]

def Fits (c : DiskConfig) : Prop := c.snapshot.Fits

/-- The given settings of `c`, of the limits those given, and the others by default. -/
def part (c : DiskConfig) (given givenLimits : String → Bool) : DiskConfig :=
  ⟨if given "storage_key" then c.storageKey else default.storageKey,
    if given "seed_directories" then c.seedDirectories else default.seedDirectories,
    if given "snapshot" then c.snapshot.part givenLimits else default.snapshot⟩

theorem nodup_kinds : (kinds.map Prod.fst).Nodup := by decide

theorem ofJson?_eq_some_iff {j : Json} {c : DiskConfig} :
    ofJson? j = some c ↔ ∃ fs, j.fields? (kinds.map Prod.fst) = some fs ∧
      fs.orDefault? "storage_key" Json.text? default.storageKey = some c.storageKey ∧
      fs.orDefault? "seed_directories" Json.strings? default.seedDirectories =
        some c.seedDirectories ∧
      fs.orDefault? "snapshot" Limits.ofJson? default.snapshot = some c.snapshot := by
  obtain ⟨key, seeds, limits⟩ := c
  simp [ofJson?, kinds, Option.bind_eq_some_iff]

theorem ofJson?_part {c : DiskConfig} (hc : c.Fits) {given givenLimits : String → Bool}
    {limits members : Json.Members}
    (hlimits : given "snapshot" = true → Lists (Limits.kinds.map Prod.fst)
      (c.snapshot.fields.filter fun f => givenLimits f.1) limits)
    (h : Lists (kinds.map Prod.fst) ((c.fields (.object limits)).filter fun f => given f.1)
      members) :
    ofJson? (.object members) = some (c.part given givenLimits) := by
  obtain ⟨fs, hfs, hlookup⟩ :=
    Json.exists_fields?_of_lists (c.fields (.object limits)) nodup_kinds h
  refine ofJson?_eq_some_iff.mpr ⟨fs, hfs, ?_, ?_, ?_⟩
  · refine Json.Fields.orDefault?_eq (hlookup _) (fun _ => ?_) _
    simp [fields, Json.text?_ofString]
  · refine Json.Fields.orDefault?_eq (hlookup _) (fun _ => ?_) _
    simp [fields, lookup_cons_eq, Json.strings?_ofStrings]
  · refine Json.Fields.orDefault?_eq (hlookup _) (fun hgiven => ?_) _
    simp [fields, lookup_cons_eq, Limits.ofJson?_part hc (hlimits hgiven)]

theorem ofJson?_mistaken {j : Json} (h : Mistaken kinds j) : ofJson? j = none := by
  refine Json.eq_none_of_mistaken h nodup_kinds fun c hc => ?_
  obtain ⟨fs, hfs, hkey, hseeds, hlimits⟩ := ofJson?_eq_some_iff.mp hc
  refine ⟨fs, hfs, ?_⟩
  simp only [kinds, List.forall_mem_cons]
  refine ⟨fun v hv => ?_, fun v hv => ?_, fun v hv => ?_, List.forall_mem_nil _⟩
  · exact Json.Fields.kind_of_orDefault? hkey (fun _ => Json.isText_of_text?) hv
  · exact Json.Fields.kind_of_orDefault? hseeds (fun _ => Json.isTexts_of_strings?) hv
  · exact Json.Fields.kind_of_orDefault? hlimits (fun _ => Limits.isProper_of_ofJson?) hv

end DiskConfig

/-! ## Settings of a session -/

namespace SessionConfig

/-- The members that are written for the settings. -/
def fields (c : SessionConfig) : List (String × Json) :=
  [("history_capacity", .ofNat c.historyCapacity), ("agent_history", .ofNat c.agentHistory),
    ("home", .ofString c.home)]

def kinds : List (String × (Json → Prop)) :=
  [("history_capacity", IsWord), ("agent_history", IsWord), ("home", IsText)]

def Fits (c : SessionConfig) : Prop :=
  c.historyCapacity < Json.Numeral.wordLimit ∧ c.agentHistory < Json.Numeral.wordLimit

/-- The given settings of `c`, and the others by default. -/
def part (c : SessionConfig) (given : String → Bool) : SessionConfig :=
  ⟨if given "history_capacity" then c.historyCapacity else default.historyCapacity,
    if given "agent_history" then c.agentHistory else default.agentHistory,
    if given "home" then c.home else default.home⟩

theorem nodup_kinds : (kinds.map Prod.fst).Nodup := by decide

theorem ofJson?_eq_some_iff {j : Json} {c : SessionConfig} :
    ofJson? j = some c ↔ ∃ fs, j.fields? (kinds.map Prod.fst) = some fs ∧
      fs.orDefault? "history_capacity" Json.natural? default.historyCapacity =
        some c.historyCapacity ∧
      fs.orDefault? "agent_history" Json.natural? default.agentHistory = some c.agentHistory ∧
      fs.orDefault? "home" Json.text? default.home = some c.home := by
  obtain ⟨capacity, history, home⟩ := c
  simp [ofJson?, kinds, Option.bind_eq_some_iff]

theorem ofJson?_part {c : SessionConfig} (hc : c.Fits) {given : String → Bool}
    {members : Json.Members}
    (h : Lists (kinds.map Prod.fst) (c.fields.filter fun f => given f.1) members) :
    ofJson? (.object members) = some (c.part given) := by
  obtain ⟨hcapacity, hhistory⟩ := hc
  obtain ⟨fs, hfs, hlookup⟩ := Json.exists_fields?_of_lists c.fields nodup_kinds h
  refine ofJson?_eq_some_iff.mpr ⟨fs, hfs, ?_, ?_, ?_⟩
  · refine Json.Fields.orDefault?_eq (hlookup _) (fun _ => ?_) _
    simp [fields, Json.natural?_ofNat hcapacity]
  · refine Json.Fields.orDefault?_eq (hlookup _) (fun _ => ?_) _
    simp [fields, lookup_cons_eq, Json.natural?_ofNat hhistory]
  · refine Json.Fields.orDefault?_eq (hlookup _) (fun _ => ?_) _
    simp [fields, lookup_cons_eq, Json.text?_ofString]

theorem ofJson?_mistaken {j : Json} (h : Mistaken kinds j) : ofJson? j = none := by
  refine Json.eq_none_of_mistaken h nodup_kinds fun c hc => ?_
  obtain ⟨fs, hfs, hcapacity, hhistory, hhome⟩ := ofJson?_eq_some_iff.mp hc
  refine ⟨fs, hfs, ?_⟩
  simp only [kinds, List.forall_mem_cons]
  refine ⟨fun v hv => ?_, fun v hv => ?_, fun v hv => ?_, List.forall_mem_nil _⟩
  · exact Json.Fields.kind_of_orDefault? hcapacity (fun _ => Json.isWord_of_natural?) hv
  · exact Json.Fields.kind_of_orDefault? hhistory (fun _ => Json.isWord_of_natural?) hv
  · exact Json.Fields.kind_of_orDefault? hhome (fun _ => Json.isText_of_text?) hv

end SessionConfig

/-! ## Settings in texts -/

theorem configOfText_eq_ok {α : Type} {read : Json → Option α} {s : String} {j : Json} {a : α}
    (hj : Json.parse? none s = some j) (ha : read j = some a) : configOfText read s = .ok a := by
  rw [configOfText, hj, Option.bind_some, ha]

theorem configOfText_eq_error {α : Type} {read : Json → Option α} {s : String} {j : Json}
    (hj : Json.parse? none s = some j) (hread : read j = none) :
    configOfText read s = .error invalidConfig := by
  rw [configOfText, hj, Option.bind_some, hread]

/-- Only numbers that are natural, written with digits only and held by 64 bits, are words. -/
theorem isWord_number_iff (m : Json.Numeral) :
    IsWord (.number m) ↔ m.negative = false ∧ m.fraction = [] ∧ m.exponent = none ∧
      m.whole < Json.Numeral.wordLimit := by
  obtain ⟨negative, whole, fraction, exponent⟩ := m
  constructor
  · rintro ⟨n, hn, h⟩
    cases h
    exact ⟨rfl, rfl, rfl, hn⟩
  · rintro ⟨rfl, rfl, rfl, hwhole⟩
    exact ⟨whole, hwhole, rfl⟩

/-- `null` is no value of a field, of none of the records. -/
theorem not_kind_null {f : String × (Json → Prop)}
    (hf : f ∈ Limits.kinds ∨ f ∈ DiskConfig.kinds ∨ f ∈ SessionConfig.kinds) : ¬ f.2 .null := by
  have hword : ¬ IsWord .null := by
    rintro ⟨n, -, h⟩
    cases h
  have htext : ¬ IsText .null := by
    rintro ⟨s, h⟩
    cases h
  have htexts : ¬ IsTexts .null := by
    rintro ⟨ss, h⟩
    cases h
  have hlimits : ¬ Limits.IsProper .null := fun h =>
    h (.plain (fun _ he => by cases he) fun _ he => by cases he)
  simp only [Limits.kinds, DiskConfig.kinds, SessionConfig.kinds, List.mem_cons, List.not_mem_nil,
    or_false] at hf
  rcases hf with (rfl | rfl | rfl) | (rfl | rfl | rfl) | rfl | rfl | rfl
  all_goals assumption

/-- **Settings given in part are merged field by field.** A text that lists some of the fields, each
once, in any order and among members that are no fields, is read: the fields it lists are as they
are given, the others as by default. A text that repeats a field or gives one a value of another
kind is refused. There is such a text for all members, with any spelling of each of them. -/
theorem settings_merge :
    (∀ (c : DiskConfig) (given givenLimits : String → Bool) (limits members : Json.Members)
        (s : String), c.Fits →
      (given "snapshot" = true → Lists (Limits.kinds.map Prod.fst)
        (c.snapshot.fields.filter fun f => givenLimits f.1) limits) →
      Lists (DiskConfig.kinds.map Prod.fst)
        ((c.fields (.object limits)).filter fun f => given f.1) members →
      Json.parse? none s = some (.object members) →
      DiskConfig.ofText s = .ok (c.part given givenLimits)) ∧
    (∀ (c : SessionConfig) (given : String → Bool) (members : Json.Members) (s : String), c.Fits →
      Lists (SessionConfig.kinds.map Prod.fst) (c.fields.filter fun f => given f.1) members →
      Json.parse? none s = some (.object members) →
      SessionConfig.ofText s = .ok (c.part given)) ∧
    (∀ (s : String) (j : Json), Json.parse? none s = some j →
      (Mistaken DiskConfig.kinds j → DiskConfig.ofText s = .error invalidConfig) ∧
      (Mistaken SessionConfig.kinds j → SessionConfig.ofText s = .error invalidConfig)) ∧
    (∀ m : Json.Numeral, IsWord (.number m) ↔ m.negative = false ∧ m.fraction = [] ∧
      m.exponent = none ∧ m.whole < Json.Numeral.wordLimit) ∧
    (∀ f : String × (Json → Prop),
      f ∈ Limits.kinds ∨ f ∈ DiskConfig.kinds ∨ f ∈ SessionConfig.kinds → ¬ f.2 .null) ∧
    (∀ (before inside after : String) (pieces : List (String × String)) (members : Json.Members),
      Json.IsBlank before → Json.IsBlank inside → Json.IsBlank after →
      List.Forall₂ Json.Spells pieces members →
      Json.parse? none (Json.objectText before inside after pieces) = some (.object members)) ∧
    (∀ (key : String) (j : Json),
      Json.Spells ((Json.ofString key).print, j.print) (some key, j)) := by
  refine ⟨?disk, ?session, ?mistaken, isWord_number_iff, fun f hf => not_kind_null hf, ?spelled,
    Json.spells_print⟩
  case disk =>
    intro c given givenLimits limits members s hc hlimits hmembers hs
    exact configOfText_eq_ok hs (DiskConfig.ofJson?_part hc hlimits hmembers)
  case session =>
    intro c given members s hc hmembers hs
    exact configOfText_eq_ok hs (SessionConfig.ofJson?_part hc hmembers)
  case mistaken =>
    intro s j hs
    refine ⟨fun h => ?_, fun h => ?_⟩
    · exact configOfText_eq_error hs (DiskConfig.ofJson?_mistaken h)
    · exact configOfText_eq_error hs (SessionConfig.ofJson?_mistaken h)
  case spelled =>
    intro before inside after pieces members hbefore hinside hafter h
    exact Json.parse?_objectText hbefore hinside hafter h

/-- One limit is given, after a member that is no field; a session is refused for a `null`. -/
theorem only_depth_given :
    DiskConfig.ofText "\x7b\"other\":[null],\"snapshot\":\x7b\"max_depth\":3\x7d\x7d" =
        .ok ⟨"sandbox.vfs.tree", ["/sandbox"], ⟨200, 120, 3⟩⟩ ∧
      SessionConfig.ofText "\x7b\"home\":null\x7d" = .error invalidConfig := by
  constructor
  · have htext : "\x7b\"other\":[null],\"snapshot\":\x7b\"max_depth\":3\x7d\x7d" =
        (Json.object [(some "other", .array [.null]),
          (some "snapshot", .object [(some "max_depth", .ofNat 3)])]).print := by decide +kernel
    have hfits : DiskConfig.Fits ⟨"", [], ⟨0, 0, 3⟩⟩ := by
      refine ⟨?_, ?_, ?_⟩ <;> decide
    refine settings_merge.1 ⟨"", [], ⟨0, 0, 3⟩⟩ (· == "snapshot") (· == "max_depth")
      [(some "max_depth", .ofNat 3)] _ _ hfits (fun _ => ⟨[], by simp, .refl _⟩)
      ⟨[("other", .array [.null])], by simp [DiskConfig.kinds], .swap _ _ _⟩ ?_
    rw [htext, Json.parse?_print]
    rfl
  · have htext : "\x7b\"home\":null\x7d" = (Json.object [(some "home", .null)]).print := by
      decide +kernel
    refine (settings_merge.2.2.1 _ (.object [(some "home", .null)]) ?_).2
      (@Mistaken.member _ _ "home" IsText .null ?_ ?_ ?_)
    · rw [htext, Json.parse?_print]
    · simp [SessionConfig.kinds]
    · simp
    · rintro ⟨s, h⟩
      cases h

end DiskShell
