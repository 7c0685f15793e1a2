import Mathlib
import DiskShell.Proofs.Disk.Address
import DiskShell.Proofs.Shell.Changes
import DiskShell.Shell.Session

/-!
The working directory of a session. It is always a canonical path, only `cd` changes it, and it stays
a directory until a command takes directories away (`cwd_throughout`).
-/

namespace DiskShell.Shell

variable {σ : Type} [Store σ]

/-! ## Lines -/

/-- The commands that may take directories away. -/
def Builtin.takesAway : Builtin → Bool
  | rm => true
  | rmdir => true
  | mv => true
  | _ => false

theorem takesAway_eq_false_iff (b : Builtin) :
    b.takesAway = false ↔ b ∉ [Builtin.rm, Builtin.rmdir, Builtin.mv] := by
  cases b <;> decide

theorem onlyAdds_of_mem_changes {b : Builtin} (hb : b.takesAway = false) {cwd : String}
    {args : List String} {c : Change} (hc : c ∈ b.changes cwd args) : c.onlyAdds = true := by
  cases b with
  | rm | rmdir | mv => cases hb
  | mkdir | touch =>
    obtain ⟨path, -, rfl⟩ := List.mem_map.mp hc
    rfl
  | write =>
    cases args with
    | nil => cases hc
    | cons path text =>
      rw [List.mem_singleton.mp hc]
      rfl
  | cp =>
    match args with
    | [] => cases hc
    | [_] => cases hc
    | _ :: _ :: _ =>
      rw [List.mem_singleton.mp hc]
      rfl
  | _ => cases hc

/-- Every other line leaves every directory where it is. -/
theorem isDirectory_runLine {d : Disk σ} {line cwd : String}
    (hline : ∀ b, command? line = some b → b.takesAway = false) {path cwd' : String}
    (h : d.isDirectory path cwd' = true) :
    (runLine d line cwd).1.isDirectory path cwd' = true := by
  rw [disk_runLine]
  refine applyAll_induction (P := fun d => d.isDirectory path cwd' = true) h ?_
  intro d c hc hd
  unfold changesOf at hc
  split at hc
  · next b hb => exact Disk.isDirectory_apply (onlyAdds_of_mem_changes (hline b hb) hc) hd
  · cases hc

omit [Store σ] in
theorem cwd_changeDirectory (d : Disk σ) (cwd target : String) :
    (changeDirectory d cwd target).cwd = cwd ∨
      d.isDirectory target cwd = true ∧
        (changeDirectory d cwd target).cwd = Path.canonical target cwd := by
  unfold changeDirectory
  split
  · next h => exact Or.inr ⟨h, rfl⟩
  · split <;> exact Or.inl rfl

/-- The target of `cd`. -/
def target (line : String) : String := (operands line).headD "/"

/-- A line that changes the working directory is a `cd` to a directory, and leaves the disk alone. -/
theorem cwd_runLine (d : Disk σ) (line cwd : String) :
    (runLine d line cwd).2.cwd = cwd ∨
      command? line = some .cd ∧ d.isDirectory (target line) cwd = true ∧
        (runLine d line cwd).1 = d ∧
        (runLine d line cwd).2.cwd = Path.canonical (target line) cwd := by
  cases h : command? line with
  | none => exact Or.inl (runLine_of_command?_eq_none h d cwd).2
  | some b =>
    rw [runLine_of_command? h]
    cases b with
    | cd =>
      rcases cwd_changeDirectory d cwd (target line) with hsame | ⟨hdir, hcwd⟩
      · exact Or.inl hsame
      · exact Or.inr ⟨rfl, hdir, rfl, hcwd⟩
    | _ => exact Or.inl rfl

/-! ## Sessions -/

/-- What is done with a session: a line is run, or the disk is reset. -/
inductive Action where
  | line (text : String)
  | reset
  deriving DecidableEq, Repr

namespace Session

omit [Store σ] in
theorem canonical_home (d : Disk σ) (path cwd : String) :
    Path.canonical (home d path) cwd = home d path := by
  unfold home
  split
  · exact Path.canonical_canonical path "/" cwd
  · exact congrArg Path.render (Path.resolve_root cwd)

omit [Store σ] in
theorem isDirectory_home (d : Disk σ) (path cwd : String) :
    d.isDirectory (home d path) cwd = true := by
  unfold home
  split
  · next h =>
    rw [Disk.isDirectory_canonical]
    exact h
  · exact d.isDirectory_root cwd

theorem isDirectory_reset (s : Session σ) (cwd : String) :
    s.reset.disk.isDirectory s.reset.cwd cwd = true :=
  isDirectory_home s.disk.reset s.config.home cwd

def perform (s : Session σ) : Action → Session σ
  | .line text => (s.run text).1
  | .reset => s.reset

def after (s : Session σ) (actions : List Action) : Session σ := actions.foldl perform s

/-- What holds of a session and is kept by every action holds after all of them. -/
theorem after_induction {P : Session σ → Prop} {s : Session σ} (hs : P s)
    (hstep : ∀ (s : Session σ) a, P s → P (s.perform a)) (actions : List Action) :
    P (s.after actions) := by
  induction actions generalizing s with
  | nil => exact hs
  | cons a rest ih => exact ih (hstep s a hs)

theorem disk_run (s : Session σ) (line : String) :
    (s.run line).1.disk = (runLine s.disk line s.cwd).1 := rfl

theorem cwd_run (s : Session σ) (line : String) :
    (s.run line).1.cwd = (runLine s.disk line s.cwd).2.cwd := rfl

/-- The working directory is a canonical path. -/
def Canonical (s : Session σ) : Prop := ∀ cwd, Path.canonical s.cwd cwd = s.cwd

theorem Canonical.run {s : Session σ} (hs : s.Canonical) (line : String) :
    (s.run line).1.Canonical := by
  intro cwd
  rw [cwd_run]
  rcases cwd_runLine s.disk line s.cwd with hsame | ⟨-, -, -, hcwd⟩
  · rw [hsame]
    exact hs cwd
  · rw [hcwd]
    exact Path.canonical_canonical _ _ cwd

theorem canonical_after (d : Disk σ) (config : SessionConfig) (actions : List Action) :
    ((start d config).after actions).Canonical := by
  have hstart : (start d config).Canonical := canonical_home d config.home
  refine after_induction hstart (fun s a hs => ?_) actions
  cases a with
  | line text => exact hs.run text
  | reset => exact canonical_home s.disk.reset s.config.home

/-- The new working directory of a line that changes it is the directory that `cd` names. -/
theorem isDirectory_of_cwd_ne {s : Session σ} {line : String} (h : (s.run line).1.cwd ≠ s.cwd) :
    command? line = some .cd ∧ (s.run line).1.cwd = Path.canonical (target line) s.cwd ∧
      ∀ cwd, (s.run line).1.disk.isDirectory (s.run line).1.cwd cwd = true := by
  rcases cwd_runLine s.disk line s.cwd with hsame | ⟨hcd, hdir, hdisk, hcwd⟩
  · exact absurd hsame h
  · refine ⟨hcd, hcwd, fun cwd => ?_⟩
    rw [disk_run, cwd_run, hdisk, hcwd, Disk.isDirectory_canonical]
    exact hdir

theorem isDirectory_cwd_run {s : Session σ} {line : String}
    (hline : ∀ b, command? line = some b → b.takesAway = false) {cwd : String}
    (h : s.disk.isDirectory s.cwd cwd = true) :
    (s.run line).1.disk.isDirectory (s.run line).1.cwd cwd = true := by
  by_cases hsame : (s.run line).1.cwd = s.cwd
  · rw [hsame, disk_run]
    exact isDirectory_runLine hline h
  · exact (isDirectory_of_cwd_ne hsame).2.2 cwd

/-- **The working directory, at every point of every session.** It is canonical. It is a directory
at the start, after a reset and after every line that changes it; such a line is a `cd`, and leads to
the path that it names. And it stays a directory unless the command is `rm`, `rmdir` or `mv`. -/
theorem cwd_throughout (d : Disk σ) (config : SessionConfig) (actions : List Action) :
    let s₀ := start d config
    let s := s₀.after actions
    (∀ cwd, Path.canonical s.cwd cwd = s.cwd) ∧
      (∀ cwd, s₀.disk.isDirectory s₀.cwd cwd = true) ∧
      (∀ cwd, s.reset.disk.isDirectory s.reset.cwd cwd = true) ∧
      (∀ line, (s.run line).1.cwd ≠ s.cwd →
        command? line = some .cd ∧ (s.run line).1.cwd = Path.canonical (target line) s.cwd ∧
          ∀ cwd, (s.run line).1.disk.isDirectory (s.run line).1.cwd cwd = true) ∧
      ∀ line, command? line ∉ [some .rm, some .rmdir, some .mv] →
        ∀ cwd, s.disk.isDirectory s.cwd cwd = true →
          (s.run line).1.disk.isDirectory (s.run line).1.cwd cwd = true := by
  intro s₀ s
  refine ⟨canonical_after d config actions, isDirectory_home d config.home, isDirectory_reset s,
    fun line h => isDirectory_of_cwd_ne h, ?_⟩
  intro line hline cwd h
  refine isDirectory_cwd_run (fun b hb => ?_) h
  rw [takesAway_eq_false_iff]
  simpa [hb] using hline

/-- A fresh session goes up to the root, and its directory is still there when another is made. -/
theorem fresh_session_moves :
    let s := (start (Disk.load Memory.empty DiskConfig.default) SessionConfig.default).after []
    s.cwd = "/sandbox" ∧ (s.run "cd ..").1.cwd = "/" ∧ command? "cd .." = some .cd ∧
      command? "mkdir a" = some .mkdir ∧
      (s.run "mkdir a").1.disk.isDirectory (s.run "mkdir a").1.cwd "/" = true := by
  have hall := cwd_throughout (Disk.load Memory.empty DiskConfig.default) SessionConfig.default []
  dsimp only at hall ⊢
  generalize hs : (start (Disk.load Memory.empty DiskConfig.default)
    SessionConfig.default).after [] = s at hall ⊢
  obtain ⟨-, -, -, hcd, hkeep⟩ := hall
  have hhome : s.cwd = "/sandbox" := by
    rw [← hs]
    cbv
  have hup : (s.run "cd ..").1.cwd = "/" := by
    rw [← hs]
    cbv
  have hdirectory : s.disk.isDirectory s.cwd "/" = true := by
    rw [← hs]
    cbv
  have hmake : command? "mkdir a" = some .mkdir := by cbv
  have hmoved : (s.run "cd ..").1.cwd ≠ s.cwd := by
    rw [hup, hhome]
    decide
  have hkept : command? "mkdir a" ∉ [some .rm, some .rmdir, some .mv] := by
    rw [hmake]
    decide
  exact ⟨hhome, hup, (hcd "cd .." hmoved).1, hmake, hkeep "mkdir a" hkept "/" hdirectory⟩

end Session

end DiskShell.Shell
