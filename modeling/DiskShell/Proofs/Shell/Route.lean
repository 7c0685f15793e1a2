import DiskShell.Proofs.Disk.Address
import DiskShell.Proofs.Shell.Session
import DiskShell.Proofs.Shell.Transport

/-!
Routes of a session. Where two `cd` lines lead, one after the other, a single one leads too, with a
slash between their paths (`run_joined`), because paths compose (`paths_compose`).
-/

namespace DiskShell.Shell

variable {σ : Type} [Store σ]

/-! ## Lines that change the directory -/

/-- The line is a `cd` to the path. -/
def IsCd (line path : String) : Prop := command? line = some .cd ∧ target line = path

theorem command?_commandLine (b : Builtin) (args : List String) :
    command? (commandLine b.name args) = some b := by
  rw [command?, b.words_commandLine_name, List.head?_cons, Option.bind_some, b.ofName?_name]

theorem operands_commandLine (b : Builtin) (args : List String) :
    operands (commandLine b.name args) = args.filter (· ≠ "") := by
  rw [operands, b.words_commandLine_name, List.tail_cons]

/-- There is such a line for every path with something in it. -/
theorem isCd_commandLine {path : String} (h : path ≠ "") :
    IsCd (commandLine Builtin.cd.name [path]) path := by
  refine ⟨command?_commandLine .cd [path], ?_⟩
  simp [target, operands_commandLine, h]

omit [Store σ] in
/-- `cd` prints nothing exactly if it leads to a directory. -/
theorem lines_changeDirectory (d : Disk σ) (cwd path : String) :
    (changeDirectory d cwd path).lines = [] ↔ d.isDirectory path cwd = true := by
  unfold changeDirectory
  split
  · next h => exact iff_of_true rfl h
  · next h => split <;> exact iff_of_false (List.cons_ne_nil _ _) h

theorem runLine_cd {line path : String} (h : IsCd line path) (d : Disk σ) (cwd : String) :
    runLine d line cwd = (d, changeDirectory d cwd path) := by
  rw [runLine_of_command? h.1, ← h.2]
  rfl

namespace Session

theorem disk_run_cd {line path : String} (h : IsCd line path) (s : Session σ) :
    (s.run line).1.disk = s.disk := by
  rw [disk_run, runLine_cd h]

theorem lines_run_cd {line path : String} (h : IsCd line path) (s : Session σ) :
    (s.run line).2.lines = [] ↔ s.disk.isDirectory path s.cwd = true := by
  show (runLine s.disk line s.cwd).2.lines = [] ↔ _
  rw [runLine_cd h]
  exact lines_changeDirectory s.disk s.cwd path

theorem cwd_run_cd {line path : String} (h : IsCd line path) {s : Session σ}
    (hdir : s.disk.isDirectory path s.cwd = true) :
    (s.run line).1.cwd = Path.canonical path s.cwd := by
  rw [cwd_run, runLine_cd h]
  exact congrArg Output.cwd (if_pos hdir)

/-- **Two lines become one.** -/
theorem run_joined (s : Session σ) {a b first second joined : String} (ha : a ≠ "")
    (hb : Path.isAbsolute b = false) (hfirst : IsCd first a) (hsecond : IsCd second b)
    (hjoined : IsCd joined (a ++ "/" ++ b)) (hok : (s.run first).2.lines = [])
    (hok' : ((s.run first).1.run second).2.lines = []) :
    (s.run joined).2.lines = [] ∧
      (s.run joined).1.cwd = ((s.run first).1.run second).1.cwd := by
  have hcwd := cwd_run_cd hfirst ((lines_run_cd hfirst s).mp hok)
  have hreached := (lines_run_cd hsecond (s.run first).1).mp hok'
  have hcwd' := cwd_run_cd hsecond hreached
  have hresolve : Path.resolve (a ++ "/" ++ b) s.cwd = Path.resolve b (s.run first).1.cwd := by
    rw [hcwd, Path.resolve_append ha hb]
  -- the first line has left the disk alone, so the second one has looked at the same tree
  have hdir : s.disk.isDirectory (a ++ "/" ++ b) s.cwd = true := by
    rw [Disk.isDirectory_eq, disk_run_cd hfirst] at hreached
    rw [Disk.isDirectory_eq, hresolve]
    exact hreached
  refine ⟨(lines_run_cd hjoined s).mpr hdir, ?_⟩
  rw [cwd_run_cd hjoined hdir, hcwd', Path.canonical, Path.canonical, hresolve]

/-- **Paths compose.** A path is read as names; names that are rendered are read as they are, from
everywhere, so no two lists of them look alike and a canonical path stays what it is. A relative
path, read from where another leads, is read like the two with a slash between them. What is done
with a path on a disk can be done with its canonical form; and where two `cd` lines lead, one after
the other, one line leads too. -/
theorem paths_compose :
    (∀ path cwd, ∀ name ∈ Path.resolve path cwd, Path.IsName name) ∧
      (∀ names : List String, (∀ name ∈ names, Path.IsName name) →
        ∀ cwd, Path.resolve (Path.render names) cwd = names) ∧
      (∀ names names' : List String, (∀ name ∈ names, Path.IsName name) →
        (∀ name ∈ names', Path.IsName name) → Path.render names = Path.render names' →
          names = names') ∧
      (∀ path cwd cwd', Path.canonical (Path.canonical path cwd) cwd' = Path.canonical path cwd) ∧
      (∀ a b cwd, a ≠ "" → Path.isAbsolute b = false →
        Path.resolve b (Path.canonical a cwd) = Path.resolve (a ++ "/" ++ b) cwd) ∧
      (∀ (d : Disk σ) cwd', (∀ q : Query, d.answer (q.absolute cwd') = d.answer q) ∧
        ∀ c : Change, d.apply (c.absolute cwd') = d.apply c) ∧
      (∀ path, path ≠ "" → IsCd (commandLine Builtin.cd.name [path]) path) ∧
      ∀ (s : Session σ) a b first second joined, a ≠ "" → Path.isAbsolute b = false →
        IsCd first a → IsCd second b → IsCd joined (a ++ "/" ++ b) →
        (s.run first).2.lines = [] → ((s.run first).1.run second).2.lines = [] →
          (s.run joined).2.lines = [] ∧
            (s.run joined).1.cwd = ((s.run first).1.run second).1.cwd :=
  ⟨fun _ _ _ => Path.isName_of_mem_resolve, fun _ => Path.resolve_render,
    fun _ _ => Path.eq_of_render_eq, Path.canonical_canonical,
    fun _ _ cwd ha hb => (Path.resolve_append ha hb cwd).symm,
    fun d cwd' => ⟨fun q => d.answer_absolute q cwd', fun c => d.apply_absolute c cwd'⟩,
    fun _ => isCd_commandLine, fun s _ _ _ _ _ => s.run_joined⟩

/-- Up to the root and down again in two lines, and in one. -/
theorem up_and_down_in_one_line :
    let s := start (Disk.load Memory.empty DiskConfig.default) SessionConfig.default
    let first := commandLine Builtin.cd.name [".."]
    let second := commandLine Builtin.cd.name ["./sandbox"]
    let joined := commandLine Builtin.cd.name [".././sandbox"]
    s.cwd = "/sandbox" ∧ (s.run first).2.lines = [] ∧ (s.run first).1.cwd = "/" ∧
      ((s.run first).1.run second).2.lines = [] ∧ (s.run joined).2.lines = [] ∧
      (s.run joined).1.cwd = ((s.run first).1.run second).1.cwd ∧
      Path.resolve "./sandbox" (Path.canonical ".." s.cwd) =
        Path.resolve ".././sandbox" s.cwd ∧
      Path.resolve (Path.render ["sandbox"]) s.cwd = ["sandbox"] := by
  intro s first second joined
  obtain ⟨-, hrender, -, -, hcompose, -, hcd, hjoined⟩ := paths_compose (σ := Memory)
  have htree : s.disk.tree = [("sandbox", .directory [])] := rfl
  have hhome : s.cwd = "/sandbox" := by cbv
  have hfirst : IsCd first ".." := hcd _ (by decide)
  have hsecond : IsCd second "./sandbox" := hcd _ (by decide)
  have hup : s.disk.isDirectory ".." s.cwd = true := by
    rw [hhome, Disk.isDirectory_eq, htree]
    decide
  have hroot : (s.run first).1.cwd = "/" := by
    rw [cwd_run_cd hfirst hup, hhome]
    decide
  have hdown : (s.run first).1.disk.isDirectory "./sandbox" (s.run first).1.cwd = true := by
    rw [hroot, Disk.isDirectory_eq, disk_run_cd hfirst, htree]
    decide
  have hok := (lines_run_cd hfirst s).mpr hup
  have hok' := (lines_run_cd hsecond (s.run first).1).mpr hdown
  obtain ⟨hlines, hcwd⟩ := hjoined s ".." "./sandbox" first second joined (by decide) (by decide)
    hfirst hsecond (hcd _ (by decide)) hok hok'
  exact ⟨hhome, hok, hroot, hok', hlines, hcwd, hcompose ".." "./sandbox" s.cwd (by decide)
    (by decide), hrender ["sandbox"] (by simp [Path.IsName]) s.cwd⟩

end Session

end DiskShell.Shell
