import Mathlib
import DiskShell.Proofs.Shell.Changes
import DiskShell.Proofs.Snapshot.Items
import DiskShell.Proofs.Text.Cut

/-!
The text of a snapshot, line by line. An item is rendered as one line and a line feed, and nothing in
a content can add another: a preview is put on one line. A path is rendered as it is, so a name with
a line feed in it breaks its line in two (`one_line_each_iff`, `two_items_on_three_lines`).
-/

namespace DiskShell

namespace SnapshotItem

/-! ## One item -/

def marker : Kind → String
  | .directory => "[dir]  "
  | .file => "[file] "

/-- What follows the path: a slash, or the size and the preview. -/
def ending (e : SnapshotItem) : String :=
  match e.kind with
  | .directory => "/"
  | .file =>
    " (" ++ toString (e.size.getD 0) ++ " bytes)" ++
      match e.preview with
      | some s => ": " ++ onOneLine s
      | none => ""

/-- The line of an item, without the line feed after it. -/
def line (e : SnapshotItem) : String := marker e.kind ++ e.path ++ ending e

theorem render_eq (e : SnapshotItem) : e.render = e.line ++ "\n" := by
  unfold render line marker ending
  cases e.kind with
  | directory => simp [String.append_assoc]
  | file => cases e.preview <;> simp [String.append_assoc]

theorem newline_not_mem_marker (k : Kind) : '\n' ∉ (marker k).toList := by
  cases k <;> decide

theorem newline_not_mem_onOneLine (s : String) : '\n' ∉ (onOneLine s).toList := by
  intro h
  rw [onOneLine, String.toList_ofList] at h
  obtain ⟨c, -, hc⟩ := List.mem_flatMap.mp h
  split at hc
  · simp at hc
  · next hne => exact hne (List.mem_singleton.mp hc).symm

theorem newline_not_mem_toDigits (n : Nat) : '\n' ∉ Nat.toDigits 10 n := by
  intro h
  have hdigit := Nat.isDigit_of_mem_toDigits (by decide) (by decide) h
  cases hdigit

/-- Neither the size nor the preview can break the line. -/
theorem newline_not_mem_ending (e : SnapshotItem) : '\n' ∉ e.ending.toList := by
  have hsize := newline_not_mem_toDigits (e.size.getD 0)
  unfold ending
  cases e.kind with
  | directory => simp
  | file =>
    cases e.preview with
    | none => simp [hsize]
    | some s => simp [hsize, newline_not_mem_onOneLine s]

theorem count_line (e : SnapshotItem) : e.line.toList.count '\n' = e.path.toList.count '\n' := by
  have hmarker := List.count_eq_zero_of_not_mem (newline_not_mem_marker e.kind)
  have hending := List.count_eq_zero_of_not_mem (newline_not_mem_ending e)
  rw [line, String.toList_append, String.toList_append, List.count_append, List.count_append]
  omega

theorem newline_mem_line_iff (e : SnapshotItem) :
    '\n' ∈ e.line.toList ↔ '\n' ∈ e.path.toList := by
  rw [← List.count_pos_iff, ← List.count_pos_iff, count_line]

end SnapshotItem

theorem Path.newline_mem_render_iff (names : List String) :
    '\n' ∈ (Path.render names).toList ↔ ∃ name ∈ names, '\n' ∈ name.toList := by
  cases names with
  | nil => simp [Path.render]
  | cons first rest =>
    show '\n' ∈ (String.join ((first :: rest).map fun name => "/" ++ name)).toList ↔ _
    simp [String.toList_join, List.flatMap_map]

namespace Snapshot

/-! ## All items -/

theorem render_cons (e : SnapshotItem) (items : List SnapshotItem) :
    render (e :: items) = e.line ++ "\n" ++ render items := by
  simp [render, SnapshotItem.render_eq]

/-- One line feed for each item, and those in the paths. -/
theorem count_render (items : List SnapshotItem) :
    (render items).toList.count '\n' =
      items.length + (items.flatMap fun e => e.path.toList).count '\n' := by
  induction items with
  | nil => rfl
  | cons e rest ih =>
    have hend : "\n".toList.count '\n' = 1 := rfl
    rw [render_cons, String.toList_append, String.toList_append, List.count_append,
      List.count_append, e.count_line, hend, ih, List.length_cons, List.flatMap_cons,
      List.count_append]
    omega

theorem cut_render {items : List SnapshotItem} (h : ∀ e ∈ items, '\n' ∉ e.path.toList) :
    Text.cut '\n' (render items) = items.map SnapshotItem.line ++ [""] := by
  induction items with
  | nil => rfl
  | cons e rest ih =>
    have hline : '\n' ∉ e.line.toList :=
      mt e.newline_mem_line_iff.mp (h e (List.mem_cons_self ..))
    have hcut : Text.cut '\n' (e.line ++ "\n" ++ render rest) =
        Text.cut '\n' e.line ++ Text.cut '\n' (render rest) :=
      Text.cut_append '\n' e.line (render rest)
    rw [render_cons, hcut, Text.cut_of_not_mem hline, ih fun x hx => h x (List.mem_cons_of_mem _ hx)]
    rfl

/-- A text with a line for each item has only such lines as have no line feed in the path. -/
theorem cut_render_eq_iff (items : List SnapshotItem) :
    Text.cut '\n' (render items) = items.map SnapshotItem.line ++ [""] ↔
      ∀ e ∈ items, '\n' ∉ e.path.toList := by
  refine ⟨fun h e he => ?_, cut_render⟩
  have hpiece : e.line ∈ Text.cut '\n' (render items) := by
    rw [h]
    exact List.mem_append_left _ (List.mem_map_of_mem he)
  exact mt e.newline_mem_line_iff.mpr (Text.not_mem_of_mem_cut hpiece)

theorem count_render_eq_iff (items : List SnapshotItem) :
    (render items).toList.count '\n' = items.length ↔ ∀ e ∈ items, '\n' ∉ e.path.toList := by
  rw [count_render, Nat.add_eq_left, List.count_eq_zero]
  simp

open Shell in
/-- **One line for each item, unless a name breaks it.** At every point of every run, whatever is
asked for: the text has one line feed for each item and those in the paths of the items, none from a
content. It is cut into the lines of the items, in their order, exactly if no path has a line feed;
each line begins with the marker and the path, and each path is made of the names of a node. -/
theorem one_line_each_iff {σ : Type} [Store σ] (store : σ) (config : DiskConfig)
    (inputs : List Input) (path : String) (limits : Limits) :
    let d := (respondAll (Disk.load store config) inputs).1
    let items := d.snapshot path limits
    (render items).toList.count '\n' =
        items.length + (items.flatMap fun e => e.path.toList).count '\n' ∧
      ((render items).toList.count '\n' = items.length ↔ ∀ e ∈ items, '\n' ∉ e.path.toList) ∧
      (Text.cut '\n' (render items) = items.map SnapshotItem.line ++ [""] ↔
        ∀ e ∈ items, '\n' ∉ e.path.toList) ∧
      ∀ e ∈ items, (SnapshotItem.marker e.kind ++ e.path).toList <+: e.line.toList ∧
        ∃ names n, d.tree.node? names = some n ∧
          e = .ofNode limits.maxPreview (Path.render names) n ∧
          ('\n' ∈ e.path.toList ↔ ∃ name ∈ names, '\n' ∈ name.toList) := by
  intro d items
  have hd : d.tree.WellFormed := wellFormed_respondAll store config inputs
  refine ⟨count_render items, count_render_eq_iff items, cut_render_eq_iff items, ?_⟩
  intro e he
  obtain ⟨names, n, hn, heq⟩ := describes_of_mem_ofTree hd.tidy he
  refine ⟨?_, names, n, hn, heq, ?_⟩
  · rw [SnapshotItem.line, @String.toList_append (_ ++ _)]
    exact List.prefix_append _ _
  · rw [heq, SnapshotItem.path_ofNode]
    exact Path.newline_mem_render_iff names

open Shell in
/-- A line feed in a content breaks no line. -/
theorem two_items_on_two_lines :
    let inputs := [Input.request (.change (.write "/a" "x\ny" "/"))]
    let d := (respondAll (Disk.load Memory.empty DiskConfig.default) inputs).1
    let items := d.snapshot "/" DiskConfig.default.snapshot
    let e : SnapshotItem := ⟨"/a", .file, some 3, some "x\ny"⟩
    items = [⟨"/sandbox", .directory, none, none⟩, e] ∧
      Text.cut '\n' (render items) = items.map SnapshotItem.line ++ [""] ∧
      "[file] /a".toList <+: e.line.toList ∧
      ∃ names n, d.tree.node? names = some n ∧ e = .ofNode 120 (Path.render names) n := by
  intro inputs d items e
  have hitems : items = [⟨"/sandbox", .directory, none, none⟩, e] := by
    simp only [items, d, inputs, e]
    cbv
  have hpaths : ∀ e ∈ items, '\n' ∉ e.path.toList := by
    rw [hitems]
    decide
  have he : e ∈ items := by simp [hitems]
  obtain ⟨-, -, hcut, heach⟩ :=
    one_line_each_iff Memory.empty DiskConfig.default inputs "/" DiskConfig.default.snapshot
  obtain ⟨hbegins, names, n, hn, heq, -⟩ := heach e he
  exact ⟨hitems, hcut.mpr hpaths, hbegins, names, n, hn, heq⟩

/-- A file with a line feed in its name and one in its content: the first breaks a line. -/
theorem two_items_on_three_lines :
    let d := ((Disk.load Memory.empty DiskConfig.default).apply (.write "/a\nb" "x\ny" "/")).1
    let items := d.snapshot "/" DiskConfig.default.snapshot
    items.length = 2 ∧ render items = "[dir]  /sandbox/\n[file] /a\nb (3 bytes): x\\ny\n" ∧
      (render items).toList.count '\n' = 3 := by
  refine ⟨?_, ?_, ?_⟩ <;> cbv

end Snapshot

end DiskShell
