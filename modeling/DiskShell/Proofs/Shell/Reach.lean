import DiskShell.Proofs.Disk.Address
import DiskShell.Proofs.Shell.Transport

/-!
Nothing on a disk is out of reach. The names of a node, rendered as a path and quoted, are an operand
from which every command gets that path back (`runLine_render`); so whatever is listed or found can
be named on a command line, from any working directory (`every_node_in_reach`).
-/

namespace DiskShell

theorem Path.render_append_ne_empty (names : List String) (s : String) :
    render names ++ s ≠ "" := by
  cases names <;> simp [render]

theorem Path.render_ne_empty (names : List String) : render names ≠ "" := by
  have h := render_append_ne_empty names ""
  rwa [String.append_empty] at h

namespace Shell

variable {σ : Type} [Store σ]

/-! ## Quoted paths -/

/-- Every command takes rendered paths as they are. -/
theorem runLine_render (d : Disk σ) (cwd : String) (b : Builtin) (paths : List (List String)) :
    runLine d (commandLine b.name (paths.map Path.render)) cwd =
      runBuiltin d cwd (paths.map Path.render) b := by
  have hkept : (paths.map Path.render).filter (· ≠ "") = paths.map Path.render := by
    rw [List.filter_eq_self]
    intro operand h
    obtain ⟨names, -, rfl⟩ := List.mem_map.mp h
    exact decide_eq_true (Path.render_ne_empty names)
  rw [runLine_commandLine, hkept]

theorem lines_cat_render {d : Disk σ} (hd : d.tree.WellFormed) {names : List String}
    {content : String} (h : d.tree.node? names = some (.file content)) (cwd : String) :
    (runLine d (commandLine Builtin.cat.name [Path.render names]) cwd).2.lines =
      Text.cut '\n' content := by
  have hread : d.read? (Path.render names) cwd = some content := by
    rw [Disk.read?, (Disk.node?_render hd h cwd).2]
    rfl
  rw [runLine_operand d cwd .cat (Path.render_ne_empty names)]
  show [Path.render names].flatMap (contentLines d "cat" cwd) = _
  rw [List.flatMap_singleton, contentLines, hread]

theorem cwd_cd_render {d : Disk σ} (hd : d.tree.WellFormed) {names : List String} {s : Directory}
    (h : d.tree.node? names = some (.directory s)) (cwd : String) :
    (runLine d (commandLine Builtin.cd.name [Path.render names]) cwd).2.cwd =
      Path.render names := by
  obtain ⟨hresolve, hnode⟩ := Disk.node?_render hd h cwd
  have hdir : d.isDirectory (Path.render names) cwd = true := by
    rw [Disk.isDirectory, hnode]
    rfl
  rw [runLine_operand d cwd .cd (Path.render_ne_empty names)]
  show (changeDirectory d cwd (Path.render names)).cwd = _
  rw [changeDirectory, if_pos hdir]
  show Path.canonical (Path.render names) cwd = _
  rw [Path.canonical, hresolve]

/-! ## Every node -/

/-- **Every node is in reach and every listing is exact**, at every point of every run. The path of
a node leads to it from everywhere, and may be quoted on a command line; what is done with a path
can be done with its absolute form. A directory lists each name once, and lists a name exactly if a
node is found under it, with the kind and the size of that node. -/
theorem every_node_in_reach (store : σ) (config : DiskConfig) (inputs : List Input) :
    let d := (respondAll (Disk.load store config) inputs).1
    (∀ names n, d.tree.node? names = some n → ∀ cwd,
        Path.resolve (Path.render names) cwd = names ∧
          d.node? (Path.render names) cwd = some n ∧
          (∀ content, n = .file content →
            (runLine d (commandLine Builtin.cat.name [Path.render names]) cwd).2.lines =
              Text.cut '\n' content) ∧
          ∀ s, n = .directory s →
            (runLine d (commandLine Builtin.cd.name [Path.render names]) cwd).2.cwd =
              Path.render names) ∧
      (∀ cwd b (paths : List (List String)), runLine d (commandLine b.name (paths.map Path.render)) cwd =
        runBuiltin d cwd (paths.map Path.render) b) ∧
      (∀ cwd, (∀ q : Query, d.answer (q.absolute cwd) = d.answer q) ∧
        ∀ c : Change, d.apply (c.absolute cwd) = d.apply c) ∧
      ∀ path cwd, d.isDirectory path cwd = true →
        ((d.list path cwd).map ListEntry.name).Nodup ∧
          (∀ e ∈ d.list path cwd, Path.IsName e.name) ∧
          ∀ name, Path.IsName name →
            ((∃ e ∈ d.list path cwd, e.name = name) ↔
              ∀ cwd', d.exists? (Path.canonical path cwd ++ "/" ++ name) cwd' = true) ∧
            (∀ e ∈ d.list path cwd, e.name = name → ∀ cwd', ∃ n,
              d.node? (Path.canonical path cwd ++ "/" ++ name) cwd' = some n ∧
                e.kind = n.kind ∧ e.size = n.size) ∧
            ∀ (b : Builtin) cwd',
              runLine d (commandLine b.name [Path.canonical path cwd ++ "/" ++ name]) cwd' =
                runBuiltin d cwd' [Path.canonical path cwd ++ "/" ++ name] b := by
  intro d
  have hd : d.tree.WellFormed := wellFormed_respondAll store config inputs
  refine ⟨?reach, fun cwd b paths => runLine_render d cwd b paths, fun cwd =>
    ⟨fun q => d.answer_absolute q cwd, fun c => d.apply_absolute c cwd⟩, ?listing⟩
  case reach =>
    intro names n hn cwd
    obtain ⟨hresolve, hnode⟩ := Disk.node?_render hd hn cwd
    refine ⟨hresolve, hnode, ?_, ?_⟩
    · rintro content rfl
      exact lines_cat_render hd hn cwd
    · rintro s rfl
      exact cwd_cd_render hd hn cwd
  case listing =>
    intro path cwd hdir
    have hmem := fun e => Disk.mem_list_iff hd hdir e
    refine ⟨Disk.nodup_list hd hdir, fun e he => ((hmem e).mp he).1, fun name hname =>
      ⟨Disk.exists_mem_list_iff hd hdir hname, ?_, fun b cwd' => ?_⟩⟩
    · rintro e he rfl cwd'
      obtain ⟨n, hn, heq⟩ := ((hmem e).mp he).2 cwd'
      exact ⟨n, hn, congrArg ListEntry.kind heq, congrArg ListEntry.size heq⟩
    · refine runLine_operand d cwd' b ?_
      rw [Path.canonical, String.append_assoc]
      exact Path.render_append_ne_empty _ _

/-- A file with a quote in its name is listed, found and printed from another directory. -/
theorem quoted_name_in_reach :
    let d := (respondAll (Disk.load Memory.empty DiskConfig.default)
      [.request (.change (.write "/it's" "x\ny" "/"))]).1
    d.tree.node? ["it's"] = some (.file "x\ny") ∧ d.isDirectory "/" "/" = true ∧
      d.list "/" "/" = [⟨"sandbox", .directory, 0⟩, ⟨"it's", .file, 3⟩] ∧
      d.exists? "//it's" "/sandbox" = true ∧
      (runLine d (commandLine Builtin.cat.name ["/it's"]) "/sandbox").2.lines = ["x", "y"] := by
  have hall := every_node_in_reach Memory.empty DiskConfig.default
    [.request (.change (.write "/it's" "x\ny" "/"))]
  dsimp only at hall ⊢
  generalize hd : (respondAll (Disk.load Memory.empty DiskConfig.default)
    [.request (.change (.write "/it's" "x\ny" "/"))]).1 = d at hall ⊢
  obtain ⟨hreach, -, -, hlisting⟩ := hall
  have hnode : d.tree.node? ["it's"] = some (.file "x\ny") := by
    rw [← hd]
    cbv
  have hlist : d.list "/" "/" = [⟨"sandbox", .directory, 0⟩, ⟨"it's", .file, 3⟩] := by
    rw [← hd]
    cbv
  have hdirectory : d.isDirectory "/" "/" = true := d.isDirectory_root "/"
  have hname : Path.IsName "it's" := by
    rw [← Path.isName_iff]
    decide
  have hlisted : ∃ e ∈ d.list "/" "/", e.name = "it's" := by
    rw [hlist]
    exact ⟨⟨"it's", .file, 3⟩, List.mem_cons_of_mem _ (List.mem_singleton_self _), rfl⟩
  have hexact := ((hlisting "/" "/" hdirectory).2.2 "it's" hname).1
  have hroot : Path.canonical "/" "/" ++ "/" ++ "it's" = "//it's" := by cbv
  have hexists := hexact.mp hlisted "/sandbox"
  rw [hroot] at hexists
  have hlines := (hreach _ _ hnode "/sandbox").2.2.1 _ rfl
  have hpath : Path.render ["it's"] = "/it's" := by decide
  have hcut : Text.cut '\n' "x\ny" = ["x", "y"] := by cbv
  rw [hpath, hcut] at hlines
  exact ⟨hnode, hdirectory, hlist, hexists, hlines⟩

end Shell

end DiskShell
