import DiskShell.Proofs.Text.Lowercase
import DiskShell.Shell.Run

/-!
Which lines run a command. A line is given back unrecognized if the table of commands has no name
like its first word, with one exception: the first word may be `mkdir` with the Kelvin sign for the
k. This is no name in the table, but its lower-case form is one (`ofName?_lowercase`).
-/

namespace DiskShell.Shell

open Text

namespace Builtin

/-- The word `mkdir` with the Kelvin sign for the k, up to the case of the other letters. -/
def isKelvinMkdir (s : String) : Bool := s.toList.map Char.toLower == ['m', kelvin, 'd', 'i', 'r']

/-! ## Names -/

theorem isAlpha_of_mem_name (b : Builtin) : ∀ c ∈ b.name.toList, c.isAlpha = true := by
  have hall : b.name.toList.all Char.isAlpha = true := by cases b <;> rfl
  exact List.all_eq_true.mp hall

theorem kelvin_not_mem_name (b : Builtin) : kelvin ∉ b.name.toList := by
  intro h
  exact absurd (b.isAlpha_of_mem_name kelvin h) (by decide)

theorem k_mem_name_iff (b : Builtin) : 'k' ∈ b.name.toList ↔ b = mkdir := by
  cases b <;> simp [name]

theorem map_toLower_name (b : Builtin) : b.name.toList.map Char.toLower = b.name.toList := by
  cases b <;> rfl

theorem sameLetters_name_iff (b : Builtin) (s : String) :
    sameLetters b.name s = true ↔ s.toList.map Char.toLower = b.name.toList := by
  rw [sameLetters, beq_iff_eq, map_toLower_name]
  exact eq_comm

/-- No two commands share a name, so the table finds each by its own. -/
theorem ofName?_of_sameLetters {s : String} {b : Builtin} (h : sameLetters b.name s = true) :
    ofName? s = some b := by
  have hsame (b' : Builtin) : sameLetters b'.name s = sameLetters b'.name b.name := by
    rw [sameLetters_name_iff] at h
    rw [Bool.eq_iff_iff, sameLetters_name_iff, sameLetters_name_iff, h, map_toLower_name]
  have hown : ofName? b.name = some b := by cases b <;> rfl
  simpa only [ofName?, hsame] using hown

/-! ## The Kelvin sign -/

theorem map_readKelvin_eq_mkdir_iff (cs : List Char) :
    cs.map readKelvin = mkdir.name.toList ↔
      cs = mkdir.name.toList ∨ cs = ['m', kelvin, 'd', 'i', 'r'] := by
  have hname : mkdir.name.toList = ['m', 'k', 'd', 'i', 'r'] := rfl
  rw [hname]
  constructor
  · intro h
    obtain ⟨m, _, rfl, hm, htail⟩ := List.map_eq_cons_iff.mp h
    obtain ⟨k, _, rfl, hk, hlast⟩ := List.map_eq_cons_iff.mp htail
    obtain rfl : m = 'm' := by simpa [readKelvin_eq_iff (show 'm' ≠ kelvin by decide)] using hm
    have hrest := (map_readKelvin_eq_iff (by decide) (by decide)).mp hlast
    rcases (readKelvin_eq_iff (show 'k' ≠ kelvin by decide)).mp hk with rfl | ⟨rfl, -⟩
    · exact Or.inl (by rw [hrest])
    · exact Or.inr (by rw [hrest])
  · rintro (rfl | rfl) <;> rfl

/-! ## Lookup -/

/-- In lower case one more word is a name. -/
theorem sameLetters_name_lowercase (b : Builtin) (s : String) :
    sameLetters b.name (lowercase s) =
      (sameLetters b.name s || (b == mkdir && isKelvinMkdir s)) := by
  rw [sameLetters_lowercase b.isAlpha_of_mem_name, Bool.eq_iff_iff, Bool.or_eq_true,
    Bool.and_eq_true, beq_iff_eq, sameLetters_name_iff, sameLetters_name_iff,
    map_toLower_withoutKelvin, isKelvinMkdir, beq_iff_eq]
  by_cases hb : b = mkdir
  · subst hb
    rw [map_readKelvin_eq_mkdir_iff, and_iff_right rfl]
  · have hk : 'k' ∉ b.name.toList := mt b.k_mem_name_iff.mp hb
    rw [map_readKelvin_eq_iff hk b.kelvin_not_mem_name, or_iff_left fun h => hb h.1]

theorem sameLetters_eq_false_of_isKelvinMkdir {s : String} (h : isKelvinMkdir s = true)
    (b : Builtin) : sameLetters b.name s = false := by
  rw [← Bool.not_eq_true, sameLetters_name_iff]
  intro hname
  rw [isKelvinMkdir, beq_iff_eq] at h
  refine b.kelvin_not_mem_name ?_
  rw [← hname, h]
  decide

theorem ofName?_of_isKelvinMkdir {s : String} (h : isKelvinMkdir s = true) : ofName? s = none := by
  simp [ofName?, sameLetters_eq_false_of_isKelvinMkdir h]

/-- **Lower case before the lookup.** It changes what one word stands for. -/
theorem ofName?_lowercase (s : String) :
    ofName? (lowercase s) = if isKelvinMkdir s then some mkdir else ofName? s := by
  unfold ofName?
  split
  · next h =>
    simp only [sameLetters_name_lowercase, sameLetters_eq_false_of_isKelvinMkdir h, h]
    rfl
  · next h => simp [sameLetters_name_lowercase, h]

theorem ofName?_lowercase_of_sameLetters {s : String} {b : Builtin}
    (h : sameLetters b.name s = true) : ofName? (lowercase s) = some b := by
  have hkelvin : ¬ isKelvinMkdir s = true := by
    intro hk
    rw [sameLetters_eq_false_of_isKelvinMkdir hk b] at h
    cases h
  rw [ofName?_lowercase, if_neg hkelvin, ofName?_of_sameLetters h]

/-- A word stands for a command exactly if it is its name in lower case. -/
theorem ofName?_lowercase_eq_some_iff {s : String} {b : Builtin} :
    ofName? (lowercase s) = some b ↔ lowercase s = b.name := by
  constructor
  · intro h
    unfold ofName? at h
    have hsame : sameLetters b.name (lowercase s) = true := by simpa using List.find?_some h
    rw [lowercase_of_sameLetters b.isAlpha_of_mem_name hsame, b.map_toLower_name,
      String.ofList_toList]
  · intro h
    rw [h]
    exact ofName?_of_sameLetters ((b.sameLetters_name_iff b.name).mpr b.map_toLower_name)

end Builtin

/-! ## Lines -/

/-- What a line gives back that no command knows. -/
def unknown (line first cwd : String) : Output :=
  ⟨[lowercase first ++ ": command not found"], cwd, false, some (trim line)⟩

variable {σ : Type} [Store σ] {line first : String} {args : List String}

theorem runLine_of_ofName? {b : Builtin} (h : words line = first :: args)
    (hname : Builtin.ofName? (lowercase first) = some b) (d : Disk σ) (cwd : String) :
    runLine d line cwd = runBuiltin d cwd args b := by
  simp only [runLine, h, hname]

theorem runLine_of_ofName?_eq_none (h : words line = first :: args)
    (hname : Builtin.ofName? (lowercase first) = none) (d : Disk σ) (cwd : String) :
    runLine d line cwd = (d, unknown line first cwd) := by
  simp only [runLine, h, hname, unknown]

/-- A command never gives the line back. -/
theorem unrecognized_runBuiltin (d : Disk σ) (cwd : String) (args : List String) (b : Builtin) :
    (runBuiltin d cwd args b).2.unrecognized = none := by
  have hcd (target : String) : (changeDirectory d cwd target).unrecognized = none := by
    unfold changeDirectory
    split
    · rfl
    · split <;> rfl
  cases b with
  | cd => exact hcd _
  | _ => rfl

theorem runBuiltin_ne_unknown (d e : Disk σ) (cwd : String) (b : Builtin) :
    runBuiltin d cwd args b ≠ (e, unknown line first cwd) := by
  intro h
  have hnone := unrecognized_runBuiltin d cwd args b
  rw [h] at hnone
  cases hnone

/-- **Names and the lines that run.** Of the lines that have a first word, exactly those are given
back, with the disk as it was, whose first word is neither a name nor `mkdir` with the Kelvin sign.
A name runs its command, and `mkdir` with the Kelvin sign, though no name, makes directories. -/
theorem unknown_iff (d : Disk σ) (cwd : String) (h : words line = first :: args) :
    (runLine d line cwd = (d, unknown line first cwd) ↔
      Builtin.isName first = false ∧ Builtin.isKelvinMkdir first = false) ∧
    (∀ b, Builtin.ofName? first = some b → runLine d line cwd = runBuiltin d cwd args b) ∧
    (Builtin.isKelvinMkdir first = true →
      Builtin.isName first = false ∧ runLine d line cwd = runBuiltin d cwd args .mkdir) := by
  have hlower := Builtin.ofName?_lowercase first
  by_cases hkelvin : Builtin.isKelvinMkdir first = true
  · rw [if_pos hkelvin] at hlower
    have hnone := Builtin.ofName?_of_isKelvinMkdir hkelvin
    rw [runLine_of_ofName? h hlower d cwd, hkelvin, hnone, Builtin.isName, hnone]
    refine ⟨iff_of_false (runBuiltin_ne_unknown d d cwd _) fun hnot => ?_, fun _ hb => ?_,
      fun _ => ⟨rfl, rfl⟩⟩
    · cases hnot.2
    · cases hb
  · rw [if_neg hkelvin] at hlower
    cases hname : Builtin.ofName? first with
    | none =>
      rw [runLine_of_ofName?_eq_none h (hlower.trans hname) d cwd, Builtin.isName, hname]
      refine ⟨iff_of_true rfl ⟨rfl, Bool.eq_false_of_not_eq_true hkelvin⟩, fun _ hb => ?_,
        fun hk => absurd hk hkelvin⟩
      cases hb
    | some b =>
      rw [runLine_of_ofName? h (hlower.trans hname) d cwd, Builtin.isName, hname]
      refine ⟨iff_of_false (runBuiltin_ne_unknown d d cwd _) fun hnot => ?_, fun _ hb => ?_,
        fun hk => absurd hk hkelvin⟩
      · cases hnot.1
      · cases hb
        rfl

/-- A word that is no name, on a fresh disk. -/
theorem unknown_on_fresh_disk :
    let d := Disk.load Memory.empty DiskConfig.default
    words "Kelvin a" = ["Kelvin", "a"] ∧
      runLine d "Kelvin a" "/" = (d, unknown "Kelvin a" "Kelvin" "/") := by
  have h : words "Kelvin a" = ["Kelvin", "a"] := by cbv
  refine ⟨h, (unknown_iff _ "/" h).1.mpr ⟨by cbv, by cbv⟩⟩

/-- `mkdir` with the Kelvin sign is no name, and makes a directory. -/
theorem kelvin_mkdir_on_fresh_disk :
    let d := Disk.load Memory.empty DiskConfig.default
    let after := runLine d "m\u212Adir a" "/"
    words "m\u212Adir a" = ["m\u212Adir", "a"] ∧ Builtin.isName "m\u212Adir" = false ∧
      after.2 = .silent "/" ∧ d.exists? "a" "/" = false ∧ after.1.exists? "a" "/" = true := by
  refine ⟨by cbv, by cbv, by cbv, by cbv, by cbv⟩

end DiskShell.Shell
