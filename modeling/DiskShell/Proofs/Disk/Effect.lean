import DiskShell.Proofs.Disk.Step
import DiskShell.Proofs.Tree.Effect
import DiskShell.Proofs.Tree.Verdict

/-!
What writing and making directories do to a disk: which complaint they answer with, and what every
path shows after they have succeeded (`write_changes_one_path`, `makeDirectory_adds_missing`).
-/

namespace DiskShell.Disk

variable {σ : Type} [Store σ]

/-! ## Committed edits -/

theorem snd_commit (d : Disk σ) (edited : Edited) : (d.commit edited).2 = edited.2 := by
  rw [commit_eq]

/-- The tree of a disk after an edit that succeeded is the edited one. -/
theorem eq_of_commit_eq_ok {d : Disk σ} {edited : Edited} (h : (d.commit edited).2 = .ok ()) :
    edited = ((d.commit edited).1.tree, .ok ()) := by
  rw [commit_eq] at h ⊢
  exact Prod.ext rfl h

/-! ## Files -/

theorem read?_write {d : Disk σ} {path content cwd : String}
    (h : (d.write path content cwd).2 = .ok ()) :
    (d.write path content cwd).1.read? path cwd = some content := by
  have hnode := Tree.node?_write (eq_of_commit_eq_ok h)
  rw [read?, node?]
  exact congrArg (Option.bind · Node.content?) hnode

/-- **A write changes one path.** It answers with the first complaint in this order. When it has
succeeded the path reads as the content, every other path has kept its kind and its content, and the
file stands where it stood, or last if it is new. A touch leaves a node that exists alone and
otherwise writes an empty file. -/
theorem write_changes_one_path (d : Disk σ) (path content cwd : String) :
    let t := d.tree
    let p := Path.resolve path cwd
    let written := d.write path content cwd
    written.2 = verdict [(p = [], .isADirectory), (128 < p.length, .tooDeep),
        (t.node? p.dropLast = none, .notFound),
        ((t.node? p.dropLast).any Node.isFile, .notADirectory),
        ((t.node? p).any Node.isDirectory, .isADirectory)] ∧
      (written.2 = .ok () →
        written.1.read? path cwd = some content ∧ t.Written p content written.1.tree) ∧
      ((t.node? p).isSome = true → d.touch path cwd = (d, .ok ())) ∧
      ((t.node? p).isSome = false → d.touch path cwd = d.write path "" cwd) := by
  intro t p written
  have hanswer := Tree.snd_write t p content
  refine ⟨(snd_commit d _).trans hanswer, fun hok => ?_, fun h => ?_, fun h => ?_⟩
  · exact ⟨read?_write hok, Tree.written_of_write (eq_of_commit_eq_ok hok)⟩
  · exact if_pos h
  · rw [touch, Tree.exists?, h, if_neg Bool.false_ne_true]

/-- A file is written where it stands, a directory is left alone, and a new file comes last. -/
theorem write_and_touch_beside_directory :
    let d : Disk Memory := ⟨[("f", .file "x"), ("g", .directory [])], Memory.empty, .default⟩
    let written := d.write "/f" "y" "/"
    written.2 = .ok () ∧ written.1.read? "/f" "/" = some "y" ∧
      written.1.tree.face? [] = some (.directory ["f", "g"]) ∧
      d.touch "/g" "/" = (d, .ok ()) ∧ d.touch "/h" "/" = d.write "/h" "" "/" := by
  intro d written
  obtain ⟨hanswer, heffect, -, -⟩ := write_changes_one_path d "/f" "y" "/"
  obtain ⟨-, -, htouch, -⟩ := write_changes_one_path d "/g" "" "/"
  obtain ⟨-, -, -, hnew⟩ := write_changes_one_path d "/h" "" "/"
  have hok : written.2 = .ok () := hanswer.trans rfl
  obtain ⟨hread, hwritten⟩ := heffect hok
  exact ⟨hok, hread, hwritten.face?_eq [] (by decide), htouch rfl, hnew rfl⟩

/-! ## Directories -/

/-- **Making a directory makes those that are missing on its path.** Only a path that is too long or
has a file on it is refused. When it has succeeded, each directory on the path is there, a new one
with nothing in it but the next, an old one with the next at the end if that was missing; whatever
is not on the path is what it was. -/
theorem makeDirectory_adds_missing (d : Disk σ) (path cwd : String) :
    let t := d.tree
    let p := Path.resolve path cwd
    let made := d.makeDirectory path cwd
    made.2 = verdict [(128 < p.length, .tooDeep),
        (p.inits.any fun q => (t.node? q).any Node.isFile, .notADirectory)] ∧
      (made.2 = .ok () → t.DirectoriesMade p made.1.tree) := by
  intro t p made
  have hanswer := Tree.snd_makeDirectory t p
  refine ⟨(snd_commit d _).trans hanswer, fun hok => ?_⟩
  exact Tree.directoriesMade_of_makeDirectory (eq_of_commit_eq_ok hok)

/-- Two directories are missing below one that has something in it. -/
theorem directories_made_below_full_one :
    let d : Disk Memory := ⟨[("a", .directory [("f", .file "x")])], Memory.empty, .default⟩
    let made := d.makeDirectory "a/b/c" "/"
    made.2 = .ok () ∧ made.1.tree.face? ["a"] = some (.directory ["f", "b"]) ∧
      made.1.tree.face? ["a", "b"] = some (.directory ["c"]) ∧
      made.1.tree.node? ["a", "f"] = some (.file "x") := by
  intro d made
  obtain ⟨hanswer, heffect⟩ := makeDirectory_adds_missing d "a/b/c" "/"
  have hok : made.2 = .ok () := hanswer.trans rfl
  have hmade := heffect hok
  exact ⟨hok, hmade.extended ["a"] ["b", "c"] [("f", .file "x")] rfl rfl,
    hmade.created ["a", "b"] ["c"] rfl rfl, hmade.node?_eq ["a", "f"] (by decide)⟩

end DiskShell.Disk
