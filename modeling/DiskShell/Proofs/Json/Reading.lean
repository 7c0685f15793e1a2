import DiskShell.Proofs.Json.Depth

/-!
Texts read from the front. A parser that takes each token as soon as it is complete stands at some
stage after every part of a text that it has not refused (`reached?`); the parser of whole texts
reads nothing that this one refuses, and the count of brackets is that of the brackets that are open
(`counted_reached`).
-/

namespace DiskShell.Json

/-! ## Tokens one after another -/

/-- The stage after these tokens, if they can all be read. -/
def Stage.after? (limit : Option Nat) (s : Stage) (ts : List Token) : Option Stage :=
  ts.foldlM (Stage.step limit) s

def Stage.document? : Stage → Option Json
  | .done j => some j
  | _ => none

theorem Stage.after?_cons_eq_some_iff {limit : Option Nat} {s s' : Stage} {t : Token}
    {ts : List Token} : s.after? limit (t :: ts) = some s' ↔
      ∃ m, s.step limit t = some m ∧ m.after? limit ts = some s' := by
  rw [after?, List.foldlM_cons]
  exact Option.bind_eq_some_iff

theorem Stage.run_eq (limit : Option Nat) (s : Stage) (ts : List Token) :
    s.run limit ts = (s.after? limit ts).bind document? := by
  induction ts generalizing s with
  | nil => cases s <;> rfl
  | cons t ts ih =>
    rw [Stage.run, Stage.after?, List.foldlM_cons]
    cases h : s.step limit t with
    | none => rfl
    | some s' => exact ih s'

/-! ## Characters one after another -/

/-- The lexer after these characters, if they can all be read. -/
def Lexer.after? (l : Lexer) (cs : List Char) : Option Lexer := cs.foldlM Lexer.step l

theorem Lexer.after?_cons_eq_some_iff {l l' : Lexer} {c : Char} {cs : List Char} :
    l.after? (c :: cs) = some l' ↔ ∃ m, l.step c = some m ∧ m.after? cs = some l' := by
  rw [after?, List.foldlM_cons]
  exact Option.bind_eq_some_iff

theorem Lexer.run_eq (l : Lexer) (cs : List Char) : l.run cs = (l.after? cs).bind finish := by
  induction cs generalizing l with
  | nil => rfl
  | cons c cs ih =>
    rw [Lexer.run, Lexer.after?, List.foldlM_cons]
    cases h : l.step c with
    | none => rfl
    | some l' => exact ih l'

section

variable {done : List Token} {c : Char} {l : Lexer}

/-- Complete tokens stay. -/
theorem suffix_begin (h : begin done c = some l) : done <:+ l.done := by
  unfold begin at h
  split at h
  · cases h
    exact List.suffix_refl _
  · split at h
    case h_12 =>
      obtain ⟨d, -, rfl⟩ := Option.map_eq_some_iff.mp h
      exact List.suffix_refl _
    all_goals
      cases h
      simp

theorem suffix_endNumeral {m : Mode} (h : endNumeral m done c = some l) : done <:+ l.done := by
  obtain ⟨n, -, hb⟩ := Option.bind_eq_some_iff.mp h
  exact (List.suffix_cons _ _).trans (suffix_begin hb)

end

theorem Lexer.suffix_step {l l' : Lexer} {c : Char} (h : l.step c = some l') :
    l.done <:+ l'.done := by
  obtain ⟨mode, done⟩ := l
  cases mode with
  | word rest token =>
    cases rest <;> simp only [Lexer.step] at h <;>
      grind [→ suffix_begin, List.suffix_cons]
  | _ =>
    simp only [Lexer.step] at h
    grind [→ suffix_begin, → suffix_endNumeral, Option.map_eq_some_iff]

theorem Lexer.suffix_after {l l' : Lexer} {cs : List Char} (h : l.after? cs = some l') :
    l.done <:+ l'.done := by
  induction cs generalizing l with
  | nil =>
    cases h
    exact List.suffix_refl _
  | cons c cs ih =>
    obtain ⟨m, hm, hrest⟩ := Lexer.after?_cons_eq_some_iff.mp h
    exact (Lexer.suffix_step hm).trans (ih hrest)

theorem Lexer.prefix_finish {l : Lexer} {ts : List Token} (h : l.finish = some ts) :
    l.done.reverse <+: ts := by
  unfold Lexer.finish at h
  split at h
  · cases h
    exact List.prefix_refl _
  · obtain ⟨n, -, rfl⟩ := Option.map_eq_some_iff.mp h
    simp

/-! ## Parts of a text -/

/-- Where a parser stands after these characters, if it has not refused one of them yet. It has
taken the tokens that are complete. -/
def reached? (limit : Option Nat) (cs : List Char) : Option Stage :=
  (Lexer.after? ⟨.between, []⟩ cs).bind fun l => Stage.after? limit (.value []) l.done.reverse

/-- A parser that has refused a part of a text reads nothing from it. -/
theorem parse?_of_reached?_eq_none {limit : Option Nat} {part : List Char} {s : String}
    (hpart : part <+: s.toList) (h : reached? limit part = none) : parse? limit s = none := by
  obtain ⟨rest, hrest⟩ := hpart
  rw [parse?, tokens?, Lexer.run_eq, Lexer.after?, ← hrest, List.foldlM_append, ← Lexer.after?]
  rw [reached?] at h
  cases hl : Lexer.after? ⟨.between, []⟩ part with
  | none => rfl
  | some l =>
    have hrefused : Stage.after? limit (.value []) l.done.reverse = none := by
      rw [hl] at h
      exact h
    show Option.bind (Option.bind (l.after? rest) Lexer.finish) _ = none
    refine Option.bind_eq_none_iff.mpr fun ts hts => ?_
    obtain ⟨l', hl', hts⟩ := Option.bind_eq_some_iff.mp hts
    have hdone : l.done.reverse <+: l'.done.reverse :=
      List.reverse_prefix.mpr (Lexer.suffix_after hl')
    obtain ⟨more, rfl⟩ := hdone.trans (Lexer.prefix_finish hts)
    rw [Stage.run_eq, Stage.after?, List.foldlM_append, ← Stage.after?, hrefused]
    rfl

/-! ## The count at every point -/

theorem Lexer.Counted.after {l l' : Lexer} {n : Nesting} {cs : List Char} (hl : l.Counted n)
    (h : l.after? cs = some l') : l'.Counted (cs.foldl Nesting.step n) := by
  induction cs generalizing l n with
  | nil =>
    cases h
    exact hl
  | cons c cs ih =>
    obtain ⟨m, hm, hrest⟩ := Lexer.after?_cons_eq_some_iff.mp h
    exact ih (hl.step hm) hrest

theorem Stage.Counted.after {limit : Option Nat} {s s' : Stage} {n : Nesting} {ts : List Token}
    (hs : s.Counted n) (h : s.after? limit ts = some s') :
    s'.Counted (ts.foldl Nesting.token n) := by
  induction ts generalizing s n with
  | nil =>
    cases h
    exact hs
  | cons t ts ih =>
    obtain ⟨m, hm, hrest⟩ := Stage.after?_cons_eq_some_iff.mp h
    exact ih (hs.step hm) hrest

/-- **The parser and the count stand at the same depth** after every part of a text that the parser
can read. -/
theorem counted_reached {limit : Option Nat} {cs : List Char} {s : Stage}
    (h : reached? limit cs = some s) : s.Counted (cs.foldl Nesting.step .start) := by
  obtain ⟨l, hl, hs⟩ := Option.bind_eq_some_iff.mp h
  have hlexer : Lexer.Counted ⟨.between, []⟩ .start := ⟨rfl, trivial⟩
  have hstage : Stage.Counted (.value []) .start := ⟨rfl, rfl⟩
  have hcount := hstage.after hs
  rw [← tally_eq_foldl] at hcount
  rw [(hlexer.after hl).1]
  exact hcount

theorem Stage.length_frames_le_deepest (s : Stage) : s.frames.length ≤ s.deepest := by
  cases s with
  | done j => exact Nat.zero_le _
  | _ => exact outer_length_le_deepestOf _

end DiskShell.Json
