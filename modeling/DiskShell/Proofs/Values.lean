import DiskShell.Proofs.Config
import DiskShell.Proofs.Json.RoundTrip
import DiskShell.Shell.Briefing
import DiskShell.Shell.Output

/-!
Values that are told to others: briefings, outputs, listings, settings and errors. Each is read back
from the text that is written for it (`values_survive_texts`). A value that may be missing is either
left out or written as `null`, and is missing again when the text is read.
-/

namespace DiskShell

namespace Json

variable {α : Type} {write : α → Json} {read : Json → Option α} {Fits : α → Prop}

/-- The value that a text holds. -/
def readText? (read : Json → Option α) (s : String) : Option α := (parse? none s).bind read

/-- Values that fit are read back from their texts, and no two of them have the same text. -/
structure Lossless (write : α → Json) (read : Json → Option α) (Fits : α → Prop) : Prop where
  back : ∀ a, Fits a → readText? read (write a).print = some a
  distinct : ∀ a b, Fits a → Fits b → (write a).print = (write b).print → a = b

theorem lossless_of_read (h : ∀ a, Fits a → read (write a) = some a) :
    Lossless write read Fits := by
  have hback : ∀ a, Fits a → readText? read (write a).print = some a := by
    intro a ha
    rw [readText?, parse?_print, Option.bind_some, h a ha]
  refine ⟨hback, fun a b ha hb heq => ?_⟩
  have hab : some a = some b := by rw [← hback a ha, ← hback b hb, heq]
  exact Option.some.inj hab

theorem Fields.optional?_eq {found : List (String × Json)} {name : String} {o : Option α}
    (hlookup : found.lookup name = o.map write) (hnull : ∀ a, write a ≠ .null)
    (hread : ∀ a ∈ o, read (write a) = some a) :
    Fields.optional? ⟨found, false⟩ name read = some o := by
  rw [optional?, hlookup]
  cases o with
  | none => rfl
  | some a => exact option?_of_read (hnull a) (hread a rfl)

/-- No member has this name. -/
def LeavesOut (name : String) : Json → Prop
  | .object members => some name ∉ members.map Prod.fst
  | _ => False

/-- A member has this name and the value `null`. -/
def HasNull (name : String) : Json → Prop
  | .object members => (some name, .null) ∈ members
  | _ => False

/-- Members with this name, if there are any, have the value `null`. -/
def OmitsOrNull (name : String) (members : Members) : Prop :=
  ∀ j, (some name, j) ∈ members → j = .null

/-- A field that may be missing is missing if it is left out or `null`, and only then. -/
theorem Fields.optional?_eq_none_iff {names : List String} {members : Members} {fs : Fields}
    {name : String} {o : Option α} (hfs : fields? names (.object members) = some fs)
    (hname : name ∈ names) (h : fs.optional? name read = some o) :
    o = none ↔ OmitsOrNull name members := by
  obtain ⟨-, hdistinct, rfl⟩ := fields?_object_eq_some_iff.mp hfs
  have hmem (j : Json) : (known names members).lookup name = some j ↔ (some name, j) ∈ members := by
    rw [lookup_known_eq_some_iff hdistinct, and_iff_right hname]
  rw [Fields.optional?] at h
  split at h
  · next j hj =>
    have honly (j' : Json) (hj' : (some name, j') ∈ members) : j' = j := by
      rw [← hmem, hj] at hj'
      exact (Option.some.inj hj').symm
    rw [option?.eq_def] at h
    split at h
    · cases h
      exact iff_of_true rfl fun j' hj' => honly j' hj'
    · next hnull =>
      obtain ⟨a, -, rfl⟩ := Option.map_eq_some_iff.mp h
      exact iff_of_false (by simp) fun hall => hnull (hall j ((hmem j).mp hj))
  · next hmissing =>
    cases h
    refine iff_of_true rfl fun j hj => ?_
    rw [← hmem, hmissing] at hj
    cases hj

end Json

/-! ## Listings and snapshots -/

theorem Kind.ofJson?_toJson (k : Kind) : ofJson? k.toJson = some k := by
  cases k <;> rfl

def ListEntry.Fits (e : ListEntry) : Prop := e.size < Json.Numeral.wordLimit

theorem ListEntry.ofJson?_toJson {e : ListEntry} (he : e.Fits) : ofJson? e.toJson = some e := by
  have hsize := Json.natural?_ofNat he
  rw [ofJson?, toJson, Json.fields?_record (by simp) (by simp)]
  simp [Json.Fields.required?, lookup_cons_eq, Json.text?_ofString, Kind.ofJson?_toJson, hsize]

def Usage.Fits (u : Usage) : Prop :=
  u.usedBytes < Json.Numeral.wordLimit ∧ u.fileCount < Json.Numeral.wordLimit ∧
    u.directoryCount < Json.Numeral.wordLimit

theorem Usage.ofJson?_toJson {u : Usage} (hu : u.Fits) : ofJson? u.toJson = some u := by
  obtain ⟨hbytes, hfiles, hdirectories⟩ := hu
  rw [ofJson?, toJson, Json.fields?_record (by simp) (by simp)]
  simp [Json.Fields.required?, lookup_cons_eq, Json.natural?_ofNat hbytes,
    Json.natural?_ofNat hfiles, Json.natural?_ofNat hdirectories]

namespace SnapshotItem

def Fits (e : SnapshotItem) : Prop := ∀ n ∈ e.size, n < Json.Numeral.wordLimit

/-- The members that are written for an item. -/
def fields (e : SnapshotItem) : List (String × Json) :=
  [("path", .ofString e.path), ("type", e.kind.toJson)] ++
    (e.size.map fun n => ("size", Json.ofNat n)).toList ++
    (e.preview.map fun s => ("preview", Json.ofString s)).toList

theorem lookup_fields (e : SnapshotItem) :
    e.fields.lookup "path" = some (.ofString e.path) ∧ e.fields.lookup "type" = some e.kind.toJson ∧
      e.fields.lookup "size" = e.size.map Json.ofNat ∧
      e.fields.lookup "preview" = e.preview.map Json.ofString := by
  obtain ⟨path, kind, size, preview⟩ := e
  cases size <;> cases preview <;> simp [fields, lookup_cons_eq]

theorem fields?_toJson (e : SnapshotItem) :
    e.toJson.fields? ["path", "type", "size", "preview"] = some ⟨e.fields, false⟩ := by
  obtain ⟨path, kind, size, preview⟩ := e
  refine Json.fields?_record ?_ ?_
  · cases size <;> cases preview <;> simp
  · cases size <;> cases preview <;> simp

theorem ofJson?_toJson {e : SnapshotItem} (he : e.Fits) : ofJson? e.toJson = some e := by
  obtain ⟨hpath, hkind, hsize, hpreview⟩ := e.lookup_fields
  have hnumber : Json.Fields.optional? ⟨e.fields, false⟩ "size" Json.natural? = some e.size :=
    Json.Fields.optional?_eq hsize (by simp [Json.ofNat]) fun n hn => Json.natural?_ofNat (he n hn)
  have htext : Json.Fields.optional? ⟨e.fields, false⟩ "preview" Json.text? = some e.preview :=
    Json.Fields.optional?_eq hpreview (by simp [Json.ofString]) fun s _ => Json.text?_ofString s
  rw [ofJson?, fields?_toJson]
  simp [Json.Fields.required?, hpath, hkind, hnumber, htext, Json.text?_ofString,
    Kind.ofJson?_toJson]

theorem leavesOut_toJson (e : SnapshotItem) :
    (e.size = none ↔ e.toJson.LeavesOut "size") ∧
      (e.preview = none ↔ e.toJson.LeavesOut "preview") := by
  obtain ⟨path, kind, size, preview⟩ := e
  cases size <;> cases preview <;> simp [toJson, Json.record, Json.LeavesOut]

theorem eq_none_iff_of_ofJson? {members : Json.Members} {e : SnapshotItem}
    (h : ofJson? (.object members) = some e) :
    (e.size = none ↔ Json.OmitsOrNull "size" members) ∧
      (e.preview = none ↔ Json.OmitsOrNull "preview" members) := by
  obtain ⟨path, kind, size, preview⟩ := e
  obtain ⟨fs, hfs, h⟩ := Option.bind_eq_some_iff.mp h
  simp only [Option.bind_eq_bind, Option.pure_def, Option.bind_eq_some_iff, Option.some.injEq,
    SnapshotItem.mk.injEq] at h
  obtain ⟨-, -, -, -, o, hsize, o', hpreview, -, -, rfl, rfl⟩ := h
  exact ⟨Json.Fields.optional?_eq_none_iff hfs (by simp) hsize,
    Json.Fields.optional?_eq_none_iff hfs (by simp) hpreview⟩

end SnapshotItem

/-! ## Settings -/

theorem Json.lists_membersOf (fields : List (String × Json)) :
    Json.Lists (fields.map Prod.fst) (fields.filter fun _ => true) (Json.membersOf fields) :=
  ⟨[], by simp, by simp⟩

theorem DiskConfig.ofJson?_toJson {c : DiskConfig} (hc : c.Fits) : ofJson? c.toJson = some c :=
  @ofJson?_part c hc (fun _ => true) (fun _ => true) _ _
    (fun _ => Json.lists_membersOf c.snapshot.fields)
    (Json.lists_membersOf (c.fields c.snapshot.toJson))

theorem SessionConfig.ofJson?_toJson {c : SessionConfig} (hc : c.Fits) :
    ofJson? c.toJson = some c :=
  @ofJson?_part c hc (fun _ => true) _ (Json.lists_membersOf c.fields)

/-! ## Errors -/

theorem DiskError.ofJson?_toJson (e : DiskError) : ofJson? e.toJson = some e := by
  cases e <;> rfl

theorem StoreError.ofJson?_toJson (e : StoreError) : ofJson? e.toJson = some e := by
  cases e with
  | unavailable m => rfl
  | serialization m => rfl
  | write key reason =>
    have hcontent : Json.fields? ["key", "reason"]
        (.record [("key", .ofString key), ("reason", .ofString reason)]) =
          some ⟨[("key", .ofString key), ("reason", .ofString reason)], false⟩ :=
      Json.fields?_record (by simp) (by simp)
    have htagged : (write key reason).toJson.tagged? = some ("Write",
        some (.record [("key", .ofString key), ("reason", .ofString reason)])) := rfl
    rw [ofJson?, htagged]
    simp [hcontent, Json.Fields.required?, lookup_cons_eq, Json.text?_ofString]

/-! ## Outputs and briefings -/

namespace Shell

theorem Output.ofJson?_toJson (o : Output) : ofJson? o.toJson = some o := by
  have hunrecognized : Json.option? Json.text? (.ofOption .ofString o.unrecognized) =
      some o.unrecognized :=
    Json.option?_ofOption (by simp [Json.ofString]) fun s _ => Json.text?_ofString s
  rw [ofJson?, toJson, Json.fields?_record (by simp) (by simp)]
  simp [Json.Fields.required?, Json.Fields.optional?, lookup_cons_eq, Json.text?_ofString,
    Json.strings?_ofStrings, Json.bool?, hunrecognized]

theorem Output.hasNull_toJson (o : Output) :
    o.unrecognized = none ↔ o.toJson.HasNull "unrecognized" := by
  obtain ⟨lines, cwd, clear, unrecognized⟩ := o
  cases unrecognized <;> simp [toJson, Json.record, Json.HasNull, Json.ofOption, Json.ofString]

theorem Output.eq_none_iff_of_ofJson? {members : Json.Members} {o : Output}
    (h : ofJson? (.object members) = some o) :
    o.unrecognized = none ↔ Json.OmitsOrNull "unrecognized" members := by
  obtain ⟨lines, cwd, clear, unrecognized⟩ := o
  obtain ⟨fs, hfs, h⟩ := Option.bind_eq_some_iff.mp h
  simp only [Option.bind_eq_bind, Option.pure_def, Option.bind_eq_some_iff, Option.some.injEq,
    Output.mk.injEq] at h
  obtain ⟨-, -, -, -, -, -, o, hunrecognized, -, -, -, rfl⟩ := h
  exact Json.Fields.optional?_eq_none_iff hfs (by simp) hunrecognized

theorem HistoryEntry.ofJson?_toJson (e : HistoryEntry) : ofJson? e.toJson = some e := by
  rw [ofJson?, toJson, Json.fields?_record (by simp) (by simp)]
  simp [Json.Fields.required?, lookup_cons_eq, Json.text?_ofString, Json.strings?_ofStrings]

namespace Briefing

/-- The numbers of a briefing are numbers of 64 bits. -/
def Fits (b : Briefing) : Prop := (∀ u ∈ b.usage, u.Fits) ∧ ∀ e ∈ b.snapshot, e.Fits

theorem ofJson?_toJson {b : Briefing} (hb : b.Fits) : ofJson? b.toJson = some b := by
  obtain ⟨husage, hitems⟩ := hb
  have husage : Json.option? Usage.ofJson? (.ofOption Usage.toJson b.usage) = some b.usage :=
    Json.option?_ofOption (by simp [Usage.toJson, Json.record]) fun u hu =>
      Usage.ofJson?_toJson (husage u hu)
  have hsnapshot := Json.list?_ofList fun e he => SnapshotItem.ofJson?_toJson (hitems e he)
  have hhistory := Json.list?_ofList fun e (_ : e ∈ b.history) => HistoryEntry.ofJson?_toJson e
  rw [ofJson?, toJson, Json.fields?_record (by simp) (by simp)]
  simp [Json.Fields.required?, Json.Fields.optional?, lookup_cons_eq, Json.text?_ofString, husage,
    hsnapshot, hhistory]

theorem hasNull_toJson (b : Briefing) : b.usage = none ↔ b.toJson.HasNull "usage" := by
  obtain ⟨cwd, usage, snapshot, history⟩ := b
  cases usage <;> simp [toJson, Json.record, Json.HasNull, Json.ofOption, Usage.toJson]

theorem eq_none_iff_of_ofJson? {members : Json.Members} {b : Briefing}
    (h : ofJson? (.object members) = some b) :
    b.usage = none ↔ Json.OmitsOrNull "usage" members := by
  obtain ⟨cwd, usage, snapshot, history⟩ := b
  obtain ⟨fs, hfs, h⟩ := Option.bind_eq_some_iff.mp h
  simp only [Option.bind_eq_bind, Option.pure_def, Option.bind_eq_some_iff, Option.some.injEq,
    Briefing.mk.injEq] at h
  obtain ⟨-, -, o, husage, -, -, -, -, -, rfl, -⟩ := h
  exact Json.Fields.optional?_eq_none_iff hfs (by simp) husage

end Briefing

end Shell

/-! ## All of them -/

open Json (Lossless OmitsOrNull)
open Shell (Briefing Output)

/-- **Values survive their texts.** What is read from the text of a value is the value, and no two
values have the same text. A size or preview that is missing is left out and other values that are
missing are written as `null`; either way of writing is read as missing. -/
theorem values_survive_texts :
    Lossless Briefing.toJson Briefing.ofJson? Briefing.Fits ∧
    Lossless Output.toJson Output.ofJson? (fun _ => True) ∧
    Lossless ListEntry.toJson ListEntry.ofJson? ListEntry.Fits ∧
    Lossless DiskConfig.toJson DiskConfig.ofJson? DiskConfig.Fits ∧
    Lossless SessionConfig.toJson SessionConfig.ofJson? SessionConfig.Fits ∧
    Lossless DiskError.toJson DiskError.ofJson? (fun _ => True) ∧
    Lossless StoreError.toJson StoreError.ofJson? (fun _ => True) ∧
    (∀ c : DiskConfig, c.Fits → DiskConfig.ofText c.toJson.print = .ok c) ∧
    (∀ c : SessionConfig, c.Fits → SessionConfig.ofText c.toJson.print = .ok c) ∧
    (∀ e : SnapshotItem, (e.size = none ↔ e.toJson.LeavesOut "size") ∧
      (e.preview = none ↔ e.toJson.LeavesOut "preview")) ∧
    (∀ b : Briefing, b.usage = none ↔ b.toJson.HasNull "usage") ∧
    (∀ o : Output, o.unrecognized = none ↔ o.toJson.HasNull "unrecognized") ∧
    (∀ members e, SnapshotItem.ofJson? (.object members) = some e →
      (e.size = none ↔ OmitsOrNull "size" members) ∧
      (e.preview = none ↔ OmitsOrNull "preview" members)) ∧
    (∀ members b, Briefing.ofJson? (.object members) = some b →
      (b.usage = none ↔ OmitsOrNull "usage" members)) ∧
    (∀ members o, Output.ofJson? (.object members) = some o →
      (o.unrecognized = none ↔ OmitsOrNull "unrecognized" members)) := by
  refine ⟨?briefing, ?output, ?entry, ?disk, ?session, ?diskError, ?storeError, ?diskText,
    ?sessionText, SnapshotItem.leavesOut_toJson, Briefing.hasNull_toJson, Output.hasNull_toJson,
    fun _ _ h => SnapshotItem.eq_none_iff_of_ofJson? h,
    fun _ _ h => Briefing.eq_none_iff_of_ofJson? h, fun _ _ h => Output.eq_none_iff_of_ofJson? h⟩
  case briefing => exact Json.lossless_of_read fun _ hb => Briefing.ofJson?_toJson hb
  case output => exact Json.lossless_of_read fun o _ => Output.ofJson?_toJson o
  case entry => exact Json.lossless_of_read fun _ he => ListEntry.ofJson?_toJson he
  case disk => exact Json.lossless_of_read fun _ hc => DiskConfig.ofJson?_toJson hc
  case session => exact Json.lossless_of_read fun _ hc => SessionConfig.ofJson?_toJson hc
  case diskError => exact Json.lossless_of_read fun e _ => DiskError.ofJson?_toJson e
  case storeError => exact Json.lossless_of_read fun e _ => StoreError.ofJson?_toJson e
  case diskText =>
    intro c hc
    exact configOfText_eq_ok (Json.parse?_print _) (DiskConfig.ofJson?_toJson hc)
  case sessionText =>
    intro c hc
    exact configOfText_eq_ok (Json.parse?_print _) (SessionConfig.ofJson?_toJson hc)

/-- The largest numbers are read back, and what is missing is left out or `null`. -/
theorem largest_numbers_survive :
    let n := Json.Numeral.wordLimit - 1
    let b : Briefing := ⟨"/", some ⟨n, n, n⟩, [⟨"/a", .file, some n, none⟩], []⟩
    let entry : ListEntry := ⟨"a", .file, n⟩
    let disk : DiskConfig := ⟨"", [], ⟨n, n, n⟩⟩
    let session : SessionConfig := ⟨n, n, ""⟩
    let itemMembers : Json.Members :=
      [(some "size", .null), (some "type", .ofString "directory"), (some "path", .ofString "/")]
    let briefingMembers : Json.Members :=
      [(some "cwd", .ofString "/"), (some "snapshot", .array []), (some "history", .array [])]
    let outputMembers : Json.Members :=
      [(some "lines", .array []), (some "cwd", .ofString "/"), (some "clear", .bool true),
        (some "unrecognized", .null)]
    (b.Fits ∧ entry.Fits ∧ disk.Fits ∧ session.Fits) ∧
      Json.readText? Briefing.ofJson? b.toJson.print = some b ∧
      Json.readText? ListEntry.ofJson? entry.toJson.print = some entry ∧
      DiskConfig.ofText disk.toJson.print = .ok disk ∧
      disk.toJson.print ≠ DiskConfig.default.toJson.print ∧
      SessionConfig.ofText session.toJson.print = .ok session ∧
      (SnapshotItem.ofJson? (.object itemMembers) = some ⟨"/", .directory, none, none⟩ ∧
        OmitsOrNull "size" itemMembers ∧ OmitsOrNull "preview" itemMembers) ∧
      (Briefing.ofJson? (.object briefingMembers) = some ⟨"/", none, [], []⟩ ∧
        OmitsOrNull "usage" briefingMembers) ∧
      Output.ofJson? (.object outputMembers) = some ⟨[], "/", true, none⟩ ∧
        OmitsOrNull "unrecognized" outputMembers := by
  intro n b entry disk session itemMembers briefingMembers outputMembers
  have hn : n < Json.Numeral.wordLimit := by decide
  have hb : b.Fits := by
    constructor
    · rintro u ⟨⟩
      exact ⟨hn, hn, hn⟩
    · intro e he m hm
      rw [List.mem_singleton.mp he] at hm
      cases hm
      exact hn
  have hdisk : disk.Fits := ⟨hn, hn, hn⟩
  have hdefault : DiskConfig.default.Fits := ⟨by decide, by decide, by decide⟩
  have hitem : SnapshotItem.ofJson? (.object itemMembers) = some ⟨"/", .directory, none, none⟩ := rfl
  have hbriefing : Briefing.ofJson? (.object briefingMembers) = some ⟨"/", none, [], []⟩ := rfl
  have houtput : Output.ofJson? (.object outputMembers) = some ⟨[], "/", true, none⟩ := rfl
  obtain ⟨hbriefings, -, hentries, hdisks, -, -, -, hdiskText, hsessionText, -, -, -, hitems,
    husage, hunrecognized⟩ := values_survive_texts
  have hmissing := hitems _ _ hitem
  refine ⟨⟨hb, hn, hdisk, hn, hn⟩, hbriefings.back b hb, hentries.back entry hn,
    hdiskText disk hdisk, fun h => ?_, hsessionText session ⟨hn, hn⟩,
    ⟨hitem, hmissing.1.mp rfl, hmissing.2.mp rfl⟩, ⟨hbriefing, (husage _ _ hbriefing).mp rfl⟩,
    houtput, (hunrecognized _ _ houtput).mp rfl⟩
  have hsame := hdisks.distinct disk _ hdisk hdefault h
  exact absurd (congrArg DiskConfig.storageKey hsame) (by decide)

end DiskShell
