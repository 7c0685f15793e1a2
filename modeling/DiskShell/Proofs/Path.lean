import DiskShell.Path
import DiskShell.Proofs.Text.Cut

/-!
Paths as lists of names. Whatever a path leads through, each step of the way is a name that can
stand between two slashes (`isName_of_mem_resolve`); and such names, rendered as a path, are what
the path is read as (`resolve_render`). Two paths with a slash between them are followed one after
the other (`resolve_append`).
-/

namespace DiskShell.Path

/-! ## Names -/

/-- What can be a step of a path down the tree, said without the test for it. -/
def IsName (s : String) : Prop := s ≠ "" ∧ s ≠ "." ∧ s ≠ ".." ∧ '/' ∉ s.toList

theorem isName_iff (s : String) : isName s = true ↔ IsName s := by
  simp [isName, IsName, and_assoc]

theorem isName_of_mem_step {names : List String} {part : String} (hpart : '/' ∉ part.toList)
    (hnames : ∀ name ∈ names, IsName name) : ∀ name ∈ step names part, IsName name := by
  unfold step
  split
  · exact hnames
  next hdot =>
  split
  · intro name h
    exact hnames name ((List.dropLast_sublist names).subset h)
  next hup =>
  intro name h
  rcases List.mem_append.mp h with h | h
  · exact hnames name h
  · rw [List.mem_singleton.mp h]
    exact ⟨fun he => hdot (Or.inl he), fun he => hdot (Or.inr he), hup, hpart⟩

theorem isName_of_mem_follow {names : List String} (hnames : ∀ name ∈ names, IsName name)
    (path : String) : ∀ name ∈ follow names path, IsName name := by
  unfold follow
  have hparts : ∀ part ∈ Text.cut '/' path, '/' ∉ part.toList :=
    fun part h => Text.not_mem_of_mem_cut h
  generalize Text.cut '/' path = parts at hparts
  induction parts generalizing names with
  | nil => exact hnames
  | cons part parts ih =>
    refine ih (isName_of_mem_step (hparts part (List.mem_cons_self ..)) hnames) ?_
    exact fun q hq => hparts q (List.mem_cons_of_mem _ hq)

/-- **Every path is read as a list of names.** -/
theorem isName_of_mem_resolve {path cwd name : String} (h : name ∈ resolve path cwd) :
    IsName name := by
  have hnil : ∀ name ∈ ([] : List String), IsName name := fun _ h => absurd h List.not_mem_nil
  unfold resolve at h
  split at h
  · exact isName_of_mem_follow hnil path name h
  · exact isName_of_mem_follow (isName_of_mem_follow hnil cwd) path name h

/-! ## Rendering -/

theorem follow_append (names : List String) (p q : String) :
    follow names (p ++ "/" ++ q) = follow (follow names p) q := by
  have hcut : Text.cut '/' (p ++ "/" ++ q) = Text.cut '/' p ++ Text.cut '/' q :=
    Text.cut_append '/' p q
  rw [follow, hcut, List.foldl_append]
  rfl

theorem follow_of_isName {name : String} (h : IsName name) (names : List String) :
    follow names name = names ++ [name] := by
  obtain ⟨hempty, hdot, hup, hslash⟩ := h
  simp [follow, Text.cut_of_not_mem hslash, step, hempty, hdot, hup]

theorem follow_empty (names : List String) : follow names "" = names := by
  have hslash : '/' ∉ "".toList := by simp
  simp [follow, Text.cut_of_not_mem hslash, step]

/-- The names of a rendered path are walked one by one, wherever the path is written. -/
theorem follow_append_join (names : List String) (p : String) {steps : List String}
    (h : ∀ name ∈ steps, IsName name) :
    follow names (p ++ String.join (steps.map fun name => "/" ++ name)) =
      follow names p ++ steps := by
  induction steps generalizing p with
  | nil => simp
  | cons name rest ih =>
    have hrest : ∀ m ∈ rest, IsName m := fun m hm => h m (List.mem_cons_of_mem _ hm)
    have htext : p ++ String.join ((name :: rest).map fun name => "/" ++ name) =
        p ++ "/" ++ name ++ String.join (rest.map fun name => "/" ++ name) := by
      simp [String.append_assoc]
    rw [htext, ih _ hrest, follow_append, follow_of_isName (h name (List.mem_cons_self ..)),
      List.append_assoc]
    rfl

theorem follow_render {names : List String} (h : ∀ name ∈ names, IsName name) :
    follow [] (render names) = names := by
  cases names with
  | nil => rfl
  | cons name rest =>
    have hjoin := follow_append_join [] "" h
    rw [String.empty_append, follow_empty, List.nil_append] at hjoin
    exact hjoin

theorem isAbsolute_render_append (names : List String) (s : String) :
    isAbsolute (render names ++ s) = true := by
  cases names <;> simp [isAbsolute, render]

/-- **Names are found again in the path that they are rendered as**, from wherever it is read. -/
theorem resolve_render {names : List String} (h : ∀ name ∈ names, IsName name) (cwd : String) :
    resolve (render names) cwd = names := by
  have habsolute := isAbsolute_render_append names ""
  rw [String.append_empty] at habsolute
  rw [resolve, if_pos habsolute, follow_render h]

theorem eq_of_render_eq {names names' : List String} (h : ∀ name ∈ names, IsName name)
    (h' : ∀ name ∈ names', IsName name) (heq : render names = render names') : names = names' := by
  rw [← resolve_render h "/", heq, resolve_render h' "/"]

theorem resolve_root (cwd : String) : resolve "/" cwd = [] :=
  @resolve_render [] (fun _ h => absurd h List.not_mem_nil) cwd

/-- One more name after a rendered path is one more step. -/
theorem resolve_render_append {names : List String} (h : ∀ name ∈ names, IsName name)
    {name : String} (hname : IsName name) (cwd : String) :
    resolve (render names ++ "/" ++ name) cwd = names ++ [name] := by
  have habsolute := isAbsolute_render_append names ("/" ++ name)
  rw [← String.append_assoc] at habsolute
  rw [resolve, if_pos habsolute, follow_append, follow_render h, follow_of_isName hname]

theorem resolve_canonical (path cwd cwd' : String) :
    resolve (canonical path cwd) cwd' = resolve path cwd :=
  resolve_render (fun _ h => isName_of_mem_resolve h) cwd'

/-- A canonical path stays what it is, from wherever it is read. -/
theorem canonical_canonical (path cwd cwd' : String) :
    canonical (canonical path cwd) cwd' = canonical path cwd := by
  rw [canonical, resolve_canonical, canonical]

/-! ## One path after the other -/

theorem isAbsolute_append {p : String} (hp : p ≠ "") (q : String) :
    isAbsolute (p ++ q) = isAbsolute p := by
  have hne : p.toList ≠ [] := by simpa using hp
  obtain ⟨c, cs, hcs⟩ := List.exists_cons_of_ne_nil hne
  simp [isAbsolute, hcs]

/-- **Paths compose.** To follow a path, and from where it leads a relative one, is to follow the
two with a slash between them: an ascent takes back a step of either, and at the root none. -/
theorem resolve_append {p q : String} (hp : p ≠ "") (hq : isAbsolute q = false) (cwd : String) :
    resolve (p ++ "/" ++ q) cwd = resolve q (canonical p cwd) := by
  have habsolute : isAbsolute (p ++ "/" ++ q) = isAbsolute p := by
    rw [String.append_assoc, isAbsolute_append hp]
  have hreached : follow [] (canonical p cwd) = resolve p cwd :=
    follow_render fun _ h => isName_of_mem_resolve h
  calc resolve (p ++ "/" ++ q) cwd
      = follow (resolve p cwd) q := by rw [resolve, habsolute, follow_append, resolve]
    _ = follow (follow [] (canonical p cwd)) q := by rw [hreached]
    _ = resolve q (canonical p cwd) := by simp [resolve, hq]

end DiskShell.Path
