import DiskShell.Json.Nesting
import DiskShell.Json.Parser

/-!
The nesting of a text is the depth of the document that it holds (`nesting_eq_depth`). Between the
two stand the tokens: the lexer keeps step with the count on characters, and the parser with the
same count on tokens.
-/

namespace DiskShell.Json

/-! ## Counting on tokens -/

namespace Nesting

def start : Nesting := ⟨.outside, 0, 0⟩

def push (n : Nesting) : Nesting :=
  { n with depth := n.depth + 1, deepest := max n.deepest (n.depth + 1) }

def pop (n : Nesting) : Nesting := { n with depth := n.depth - 1 }

def token (n : Nesting) : Token → Nesting
  | .openArray | .openObject => n.push
  | .closeArray | .closeObject => n.pop
  | _ => n

/-- A character that the count passes over outside strings. -/
def Plain (c : Char) : Prop :=
  c ≠ '"' ∧ c ≠ '[' ∧ c ≠ '\x7b' ∧ c ≠ ']' ∧ c ≠ '\x7d'

theorem step_outside {d m : Nat} {c : Char} (h : Plain c) :
    step ⟨.outside, d, m⟩ c = ⟨.outside, d, m⟩ := by
  obtain ⟨h₁, h₂, h₃, h₄, h₅⟩ := h
  simp [step, h₁, h₂, h₃, h₄, h₅]

end Nesting

/-! ## The lexer -/

/-- Where the count stands while a token is being read. -/
def Mode.place : Mode → Place
  | .text _ => .inside
  | .escape _ => .escaped
  | .hex _ _ _ => .inside
  | _ => .outside

/-- A word that is being read has no brackets and no quotes, and does not become a bracket. -/
def Mode.PlainWord : Mode → Prop
  | .word rest token => (∀ c ∈ rest, Nesting.Plain c) ∧ ∀ n : Nesting, n.token token = n
  | _ => True

/-- The count on complete tokens, the latest first. -/
def tally (done : List Token) : Nesting := done.foldr (fun t n => n.token t) .start

/-- The count on characters stands at `n` when the lexer stands at `l`. -/
def Lexer.Counted (l : Lexer) (n : Nesting) : Prop :=
  n = { tally l.done with place := l.mode.place } ∧ l.mode.PlainWord

theorem plain_of_digit {c : Char} {d : Fin 10} (h : digit? c = some d) : Nesting.Plain c := by
  refine ⟨?_, ?_, ?_, ?_, ?_⟩ <;> rintro rfl <;> cases h

theorem plain_of_space {c : Char} (h : isSpace c = true) : Nesting.Plain c := by
  refine ⟨?_, ?_, ?_, ?_, ?_⟩ <;> rintro rfl <;> exact absurd h (by decide)

theorem plain_of_exponentMark {c : Char} (h : (c = 'e' || c = 'E') = true) : Nesting.Plain c := by
  refine ⟨?_, ?_, ?_, ?_, ?_⟩ <;> rintro rfl <;> exact absurd h (by decide)

theorem ne_of_hexDigit {c : Char} {d : Nat} (h : hexDigit? c = some d) : c ≠ '"' ∧ c ≠ '\\' := by
  constructor <;> rintro rfl <;> cases h

section

variable {done : List Token} {c : Char} {l : Lexer}

/-- The count on characters right after the tokens in `done`. -/
def outside (done : List Token) : Nesting := { tally done with place := .outside }

theorem counted_plain {m : Mode} (hc : Nesting.Plain c) (hp : m.place = .outside)
    (hw : m.PlainWord) : Lexer.Counted ⟨m, done⟩ ((outside done).step c) := by
  refine ⟨?_, hw⟩
  rw [outside, Nesting.step_outside hc, hp]

/-- A numeral that goes on with a digit and with nothing else. -/
theorem counted_digit {f : Nat → Mode}
    (h : ((digit? c).map fun d => Lexer.mk (f d) done) = some l)
    (hp : ∀ d, (f d).place = .outside) (hw : ∀ d, (f d).PlainWord) :
    l.Counted ((outside done).step c) := by
  obtain ⟨d, hd, rfl⟩ := Option.map_eq_some_iff.mp h
  obtain ⟨e, he, -⟩ := Option.bind_eq_some_iff.mp hd
  exact counted_plain (plain_of_digit he) (hp d) (hw d)

theorem counted_begin (h : begin done c = some l) : l.Counted ((outside done).step c) := by
  unfold begin at h
  split at h
  · next hs =>
    cases h
    exact counted_plain (plain_of_space hs) rfl trivial
  · split at h
    case h_12 => exact counted_digit h (fun _ => rfl) (fun _ => trivial)
    case h_8 | h_9 | h_10 =>
      cases h
      refine ⟨rfl, ?_, fun n => rfl⟩
      simp [Nesting.Plain]
    all_goals
      cases h
      exact ⟨rfl, trivial⟩

/-- The end of a numeral moves the count only by the character that comes after it. -/
theorem counted_endNumeral {m : Mode} (h : endNumeral m done c = some l) :
    l.Counted ((outside done).step c) := by
  obtain ⟨n, -, hb⟩ := Option.bind_eq_some_iff.mp h
  have hn := counted_begin hb
  exact hn

theorem counted_word {rest : List Char} {token : Token}
    (hw : Mode.PlainWord (.word rest token)) (h : Lexer.step ⟨.word rest token, done⟩ c = some l) :
    l.Counted ((outside done).step c) := by
  obtain ⟨hr, ht⟩ := hw
  have htally : tally (token :: done) = tally done := ht (tally done)
  cases rest with
  | nil =>
    have hb := counted_begin h
    rwa [outside, htally] at hb
  | cons x rest =>
    simp only [Lexer.step] at h
    split at h
    · next hx =>
      subst hx
      have hc : Nesting.Plain c := hr c (List.mem_cons_self ..)
      split at h
      · cases h
        have hp : Lexer.Counted ⟨.between, token :: done⟩ ((outside (token :: done)).step c) :=
          counted_plain hc rfl trivial
        rwa [outside, htally] at hp
      · cases h
        exact counted_plain hc rfl ⟨fun y hy => hr y (List.mem_cons_of_mem _ hy), ht⟩
    · cases h

theorem counted_whole {n : Numeral} (h : Lexer.step ⟨.whole n, done⟩ c = some l) :
    l.Counted ((outside done).step c) := by
  simp only [Lexer.step] at h
  split at h
  · next d hd =>
    split at h
    · cases h
    · cases h
      exact counted_plain (plain_of_digit hd) rfl trivial
  · split at h
    · next hc =>
      subst hc
      cases h
      exact ⟨rfl, trivial⟩
    · split at h
      · next hc =>
        cases h
        exact counted_plain (plain_of_exponentMark hc) rfl trivial
      · exact counted_endNumeral h

theorem counted_fraction {n : Numeral} {digits : List (Fin 10)}
    (h : Lexer.step ⟨.fraction n digits, done⟩ c = some l) :
    l.Counted ((outside done).step c) := by
  simp only [Lexer.step] at h
  split at h
  · next d hd =>
    cases h
    exact counted_plain (plain_of_digit hd) rfl trivial
  · split at h
    · next hc =>
      cases h
      exact counted_plain (plain_of_exponentMark hc) rfl trivial
    · exact counted_endNumeral h

theorem counted_exponent {n : Numeral} {negative : Bool} {e : Nat}
    (h : Lexer.step ⟨.exponent n negative e, done⟩ c = some l) :
    l.Counted ((outside done).step c) := by
  simp only [Lexer.step] at h
  split at h
  · next d hd =>
    cases h
    exact counted_plain (plain_of_digit hd) rfl trivial
  · exact counted_endNumeral h

theorem counted_mark {n : Numeral} (h : Lexer.step ⟨.mark n, done⟩ c = some l) :
    l.Counted ((outside done).step c) := by
  simp only [Lexer.step] at h
  split at h
  · next hc =>
    subst hc
    cases h
    exact ⟨rfl, trivial⟩
  · split at h
    · next hc =>
      subst hc
      cases h
      exact ⟨rfl, trivial⟩
    · exact counted_digit h (fun _ => rfl) (fun _ => trivial)

theorem counted_text {units : List Nat} (h : Lexer.step ⟨.text units, done⟩ c = some l) :
    l.Counted (Nesting.step { tally done with place := .inside } c) := by
  simp only [Lexer.step] at h
  split at h
  · next hc =>
    subst hc
    cases h
    exact ⟨rfl, trivial⟩
  · next hq =>
    split at h
    · next hc =>
      subst hc
      cases h
      exact ⟨rfl, trivial⟩
    · next hb =>
      split at h
      · cases h
      · cases h
        exact ⟨by simp [Nesting.step, Mode.place, hq, hb], trivial⟩

theorem counted_escape {units : List Nat} (h : Lexer.step ⟨.escape units, done⟩ c = some l) :
    l.Counted (Nesting.step { tally done with place := .escaped } c) := by
  simp only [Lexer.step] at h
  split at h
  · cases h
    exact ⟨rfl, trivial⟩
  · obtain ⟨u, -, rfl⟩ := Option.map_eq_some_iff.mp h
    exact ⟨rfl, trivial⟩

theorem counted_hex {units : List Nat} {missing value : Nat}
    (h : Lexer.step ⟨.hex units missing value, done⟩ c = some l) :
    l.Counted (Nesting.step { tally done with place := .inside } c) := by
  obtain ⟨d, hd, rfl⟩ := Option.map_eq_some_iff.mp h
  obtain ⟨hq, hb⟩ := ne_of_hexDigit hd
  by_cases hm : missing ≤ 1
  · exact ⟨by simp [Nesting.step, Mode.place, hq, hb, hm], by simp [hm, Mode.PlainWord]⟩
  · exact ⟨by simp [Nesting.step, Mode.place, hq, hb, hm], by simp [hm, Mode.PlainWord]⟩

end

/-- **The lexer and the count on characters keep step.** -/
theorem Lexer.Counted.step {l l' : Lexer} {n : Nesting} {c : Char} (hl : l.Counted n)
    (h : l.step c = some l') : l'.Counted (n.step c) := by
  obtain ⟨mode, done⟩ := l
  obtain ⟨rfl, hw⟩ := hl
  cases mode with
  | between => exact counted_begin h
  | word rest token => exact counted_word hw h
  | minus => exact counted_digit h (fun _ => rfl) (fun _ => trivial)
  | whole n => exact counted_whole h
  | point n =>
    obtain ⟨d, hd, rfl⟩ := Option.map_eq_some_iff.mp h
    exact counted_plain (plain_of_digit hd) rfl trivial
  | fraction n digits => exact counted_fraction h
  | mark n => exact counted_mark h
  | markSign n negative => exact counted_digit h (fun _ => rfl) (fun _ => trivial)
  | exponent n negative e => exact counted_exponent h
  | text units => exact counted_text h
  | escape units => exact counted_escape h
  | hex units missing value => exact counted_hex h

theorem tally_eq_foldl (done : List Token) :
    tally done = done.reverse.foldl Nesting.token .start := by
  rw [List.foldl_reverse]
  rfl

theorem Lexer.Counted.finish {l : Lexer} {n : Nesting} {ts : List Token} (hl : l.Counted n)
    (h : l.finish = some ts) : n.deepest = (ts.foldl Nesting.token .start).deepest := by
  obtain ⟨mode, done⟩ := l
  obtain ⟨rfl, -⟩ := hl
  have hn : ∀ x : Numeral, (tally done).deepest = (tally (.number x :: done)).deepest :=
    fun x => rfl
  unfold Lexer.finish at h
  split at h
  · cases h
    rw [tally_eq_foldl]
  · obtain ⟨x, -, rfl⟩ := Option.map_eq_some_iff.mp h
    rw [← tally_eq_foldl]
    exact hn x

theorem Lexer.Counted.run {l : Lexer} {n : Nesting} {cs : List Char} {ts : List Token}
    (hl : l.Counted n) (h : l.run cs = some ts) :
    (cs.foldl Nesting.step n).deepest = (ts.foldl Nesting.token .start).deepest := by
  induction cs generalizing l n with
  | nil => exact hl.finish h
  | cons c cs ih =>
    simp only [Lexer.run] at h
    split at h
    · next l' hs => exact ih (hl.step hs) h
    · cases h

theorem nesting_eq_foldl {cs : List Char} {ts : List Token} (h : tokens? cs = some ts) :
    nesting cs = (ts.foldl Nesting.token .start).deepest := by
  have hl : Lexer.Counted ⟨.between, []⟩ .start := ⟨rfl, trivial⟩
  exact hl.run h

/-! ## The parser -/

theorem depthOfItems_append (xs ys : List Json) :
    depthOfItems (xs ++ ys) = max (depthOfItems xs) (depthOfItems ys) := by
  induction xs with
  | nil => simp [depthOfItems]
  | cons j rest ih => simp [depthOfItems, ih, Nat.max_assoc]

theorem depthOfItems_reverse (items : List Json) :
    depthOfItems items.reverse = depthOfItems items := by
  induction items with
  | nil => rfl
  | cons j rest ih => simp [depthOfItems, depthOfItems_append, ih, Nat.max_comm]

theorem depthOfMembers_append (xs ys : Members) :
    depthOfMembers (xs ++ ys) = max (depthOfMembers xs) (depthOfMembers ys) := by
  induction xs with
  | nil => simp [depthOfMembers]
  | cons m rest ih => simp [depthOfMembers, ih, Nat.max_assoc]

theorem depthOfMembers_reverse (members : Members) :
    depthOfMembers members.reverse = depthOfMembers members := by
  induction members with
  | nil => rfl
  | cons m rest ih => simp [depthOfMembers, depthOfMembers_append, ih, Nat.max_comm]

/-- How deep the values inside an open bracket are. -/
def Frame.depth : Frame → Nat
  | .array items => depthOfItems items
  | .object members _ => depthOfMembers members

/-- The most brackets that were open at once while these frames were read. -/
def deepestOf : List Frame → Nat
  | [] => 0
  | f :: outer => max (deepestOf outer) (outer.length + 1 + f.depth)

namespace Stage

/-- The brackets that are open, innermost first. -/
def frames : Stage → List Frame
  | .value outer => outer
  | .firstItem outer => .array [] :: outer
  | .afterItem outer items => .array items :: outer
  | .firstKey outer => .object [] none :: outer
  | .key outer members => .object members none :: outer
  | .colon outer members k => .object members k :: outer
  | .afterMember outer members => .object members none :: outer
  | .done _ => []

def deepest : Stage → Nat
  | .done j => j.depth
  | s => deepestOf s.frames

/-- The count on tokens when the parser stands at `s`. -/
def Counted (s : Stage) (n : Nesting) : Prop :=
  n.depth = s.frames.length ∧ n.deepest = s.deepest

end Stage

theorem deepest_deliver (j : Json) (outer : List Frame) :
    (deliver j outer).frames.length = outer.length ∧
      (deliver j outer).deepest = max (deepestOf outer) (outer.length + j.depth) := by
  cases outer with
  | nil => simp [deliver, Stage.frames, Stage.deepest, deepestOf]
  | cons f outer =>
    cases f with
    | array items =>
      refine ⟨rfl, ?_⟩
      simp only [deliver, Stage.deepest, Stage.frames, deepestOf, Frame.depth, depthOfItems,
        List.length_cons]
      omega
    | object members key =>
      refine ⟨rfl, ?_⟩
      simp only [deliver, Stage.deepest, Stage.frames, deepestOf, Frame.depth, depthOfMembers,
        List.length_cons]
      omega

theorem outer_length_le_deepestOf (outer : List Frame) : outer.length ≤ deepestOf outer := by
  cases outer with
  | nil => simp
  | cons f outer =>
    simp only [List.length_cons, deepestOf]
    omega

theorem counted_deliver {j : Json} {outer : List Frame} {n : Nesting}
    (hd : n.depth = outer.length)
    (hm : n.deepest = max (deepestOf outer) (outer.length + j.depth)) :
    (deliver j outer).Counted n := by
  obtain ⟨hf, hj⟩ := deepest_deliver j outer
  exact ⟨by rw [hd, hf], by rw [hm, hj]⟩

/-- A value without brackets leaves the count where it is. -/
theorem counted_scalar {j : Json} {outer : List Frame} {n : Nesting} (hj : j.depth = 0)
    (hd : n.depth = outer.length) (hm : n.deepest = deepestOf outer) :
    (deliver j outer).Counted n := by
  have hl := outer_length_le_deepestOf outer
  refine counted_deliver hd ?_
  rw [hm, hj]
  omega

theorem counted_readValue {limit : Option Nat} {outer : List Frame} {t : Token} {s : Stage}
    {n : Nesting} (hd : n.depth = outer.length) (hm : n.deepest = deepestOf outer)
    (h : readValue limit outer t = some s) : s.Counted (n.token t) := by
  unfold readValue at h
  split at h
  case h_5 | h_6 =>
    split at h
    · cases h
      refine ⟨by simp [Nesting.token, Nesting.push, Stage.frames, hd], ?_⟩
      simp only [Nesting.token, Nesting.push, Stage.deepest, Stage.frames, deepestOf, Frame.depth,
        depthOfItems, depthOfMembers, hm, hd, Nat.add_zero]
    · cases h
  case h_7 => cases h
  all_goals
    cases h
    exact counted_scalar rfl hd hm

/-- A closing bracket delivers what was read between it and its opening bracket. -/
theorem counted_close {j : Json} {outer : List Frame} {n : Nesting}
    (hd : n.depth = outer.length + 1)
    (hm : n.deepest = max (deepestOf outer) (outer.length + j.depth)) :
    (deliver j outer).Counted n.pop := by
  have hp : n.pop.depth = outer.length := by simp [Nesting.pop, hd]
  exact counted_deliver hp hm

/-- **The parser and the count on tokens keep step.** -/
theorem Stage.Counted.step {limit : Option Nat} {s s' : Stage} {n : Nesting} {t : Token}
    (hs : s.Counted n) (h : s.step limit t = some s') : s'.Counted (n.token t) := by
  obtain ⟨hd, hm⟩ := hs
  cases s with
  | value outer => exact counted_readValue hd hm h
  | firstItem outer =>
    by_cases ht : t = .closeArray
    · subst ht
      have he : deliver (.array []) outer = s' := Option.some.inj h
      subst he
      exact counted_close hd (by rw [hm]; rfl)
    · have hr : readValue limit (.array [] :: outer) t = some s' := by
        cases t <;> first | exact h | contradiction
      exact counted_readValue hd hm hr
  | afterItem outer items =>
    cases t <;> cases h
    · refine counted_close hd ?_
      rw [hm, depth, depthOfItems_reverse, ← Nat.add_assoc]
      rfl
    · exact ⟨hd, hm⟩
  | firstKey outer =>
    cases t <;> cases h
    · exact counted_close hd (by rw [hm]; rfl)
    · exact ⟨hd, hm⟩
  | key outer members =>
    cases t <;> cases h
    exact ⟨hd, hm⟩
  | colon outer members k =>
    cases t <;> cases h
    exact ⟨hd, hm⟩
  | afterMember outer members =>
    cases t <;> cases h
    · refine counted_close hd ?_
      rw [hm, depth, depthOfMembers_reverse, ← Nat.add_assoc]
      rfl
    · exact ⟨hd, hm⟩
  | done j => cases t <;> cases h

theorem Stage.Counted.run {limit : Option Nat} {s : Stage} {n : Nesting} {ts : List Token}
    {j : Json} (hs : s.Counted n) (h : s.run limit ts = some j) :
    (ts.foldl Nesting.token n).deepest = j.depth := by
  induction ts generalizing s n with
  | nil =>
    unfold Stage.run at h
    split at h
    · cases h
      exact hs.2
    · cases h
  | cons t ts ih =>
    simp only [Stage.run] at h
    split at h
    · next s' ht => exact ih (hs.step ht) h
    · cases h

/-- The brackets of a text tell the depth of the document that is read from it. -/
theorem nesting_eq_depth {limit : Option Nat} {s : String} {j : Json}
    (h : parse? limit s = some j) : nesting s.toList = j.depth := by
  obtain ⟨ts, ht, hj⟩ := Option.bind_eq_some_iff.mp h
  have hs : Stage.Counted (.value []) .start := ⟨rfl, rfl⟩
  rw [nesting_eq_foldl ht]
  exact hs.run hj

end DiskShell.Json
