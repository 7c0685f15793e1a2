import DiskShell.Proofs.Document
import DiskShell.Proofs.Json.Bytes
import DiskShell.Proofs.Json.Reading

/-!
The count of brackets as a bound on the parser. With a limit on open brackets just those documents
are read that are not deeper (`parse?_limit`); so a limit makes no difference to a text whose count
is within it (`nesting_bounds_parsing`), whether the text holds a document or breaks off anywhere.
-/

namespace DiskShell.Json

/-! ## The limit at every step -/

def Token.opens : Token → Bool
  | .openArray | .openObject => true
  | _ => false

theorem Nesting.deepest_le_token (n : Nesting) (t : Token) : n.deepest ≤ (n.token t).deepest := by
  cases t with
  | openArray => exact Nat.le_max_left ..
  | openObject => exact Nat.le_max_left ..
  | _ => exact Nat.le_refl _

theorem Nesting.deepest_token {t : Token} (h : t.opens = false) (n : Nesting) :
    (n.token t).deepest = n.deepest := by
  cases t with
  | openArray => cases h
  | openObject => cases h
  | _ => rfl

namespace Stage

variable {s s' : Stage} {t : Token} {ts : List Token}

theorem counted_self (s : Stage) : s.Counted ⟨.outside, s.frames.length, s.deepest⟩ := ⟨rfl, rfl⟩

/-- What has been open once stays counted. -/
theorem deepest_le_step {limit : Option Nat} (h : s.step limit t = some s') :
    s.deepest ≤ s'.deepest := by
  rw [← (s.counted_self.step h).2]
  exact Nesting.deepest_le_token ⟨.outside, s.frames.length, s.deepest⟩ t

theorem deepest_step {limit : Option Nat} (ht : t.opens = false) (h : s.step limit t = some s') :
    s'.deepest = s.deepest := by
  rw [← (s.counted_self.step h).2]
  exact Nesting.deepest_token ht _

theorem deepest_le_after {limit : Option Nat} (h : s.after? limit ts = some s') :
    s.deepest ≤ s'.deepest := by
  induction ts generalizing s with
  | nil =>
    cases h
    exact Nat.le_refl _
  | cons t ts ih =>
    obtain ⟨m, hm, hrest⟩ := after?_cons_eq_some_iff.mp h
    exact Nat.le_trans (deepest_le_step hm) (ih hrest)

/-- Only for opening brackets the limit is looked at. -/
theorem step_eq_of_not_opens (ht : t.opens = false) (s : Stage) (limit : Option Nat) :
    s.step limit t = s.step none t := by
  cases t with
  | openArray => cases ht
  | openObject => cases ht
  | _ => cases s <;> rfl

end Stage

/-! ## The limit over a whole text -/

section

variable {n : Nat} {outer : List Frame} {t : Token} {ts : List Token} {s : Stage}

/-- There is room for a bracket if the brackets are within the limit with it. -/
theorem hasRoom_iff (h : deepestOf outer ≤ n) {f : Frame} (hf : f.depth = 0) :
    hasRoom (some n) outer = true ↔ decide (deepestOf (f :: outer) ≤ n) = true := by
  simp only [hasRoom, decide_eq_true_eq, deepestOf, hf]
  omega

theorem readValue_limit (ht : t.opens = true) (h : deepestOf outer ≤ n) :
    readValue (some n) outer t = (readValue none outer t).filter fun s => s.deepest ≤ n := by
  cases t with
  | openArray =>
    simp only [readValue, hasRoom_iff h (f := .array []) rfl]
    rfl
  | openObject =>
    simp only [readValue, hasRoom_iff h (f := .object [] none) rfl]
    rfl
  | _ => cases ht

/-- **A limit refuses the brackets that are too many, and nothing else.** -/
theorem Stage.step_limit (t : Token) (hs : s.deepest ≤ n) :
    s.step (some n) t = (s.step none t).filter fun s' => s'.deepest ≤ n := by
  cases ht : t.opens with
  | false =>
    rw [step_eq_of_not_opens ht]
    cases h : s.step none t with
    | none => rfl
    | some s' => simp [Option.filter_some, deepest_step ht h, hs]
  | true =>
    cases s with
    | value outer => exact readValue_limit ht hs
    | firstItem outer =>
      have hvalue (limit : Option Nat) :
          step limit (.firstItem outer) t = readValue limit (.array [] :: outer) t := by
        cases t <;> first | rfl | cases ht
      rw [hvalue, hvalue]
      exact readValue_limit ht hs
    | _ => cases t <;> first | rfl | cases ht

theorem Stage.after?_limit (ts : List Token) (hs : s.deepest ≤ n) :
    s.after? (some n) ts = (s.after? none ts).filter fun s' => s'.deepest ≤ n := by
  induction ts generalizing s with
  | nil =>
    have hroom : decide (s.deepest ≤ n) = true := decide_eq_true hs
    show some s = (some s).filter _
    rw [Option.filter_some, if_pos hroom]
  | cons t ts ih =>
    rw [after?, List.foldlM_cons, after?, List.foldlM_cons, step_limit t hs]
    cases h : s.step none t with
    | none => rfl
    | some s' =>
      rw [Option.filter_some]
      by_cases hroom : s'.deepest ≤ n
      · rw [if_pos (decide_eq_true hroom)]
        exact ih hroom
      · rw [if_neg (by simpa using hroom)]
        -- what is open too deep once stays counted
        symm
        refine Option.filter_eq_none_iff.mpr fun r hr => ?_
        have hle := deepest_le_after hr
        simp only [decide_eq_true_eq]
        omega

end

theorem reached?_limit (n : Nat) (cs : List Char) :
    reached? (some n) cs = (reached? none cs).filter fun s => s.deepest ≤ n := by
  have hstart : Stage.deepest (.value []) ≤ n := Nat.zero_le n
  rw [reached?, reached?]
  cases Lexer.after? ⟨.between, []⟩ cs with
  | none => rfl
  | some l => exact Stage.after?_limit l.done.reverse hstart

/-- **With a limit, those documents are read that are not deeper**, and they are read the same. -/
theorem parse?_limit (n : Nat) (s : String) :
    parse? (some n) s = (parse? none s).filter fun j => j.depth ≤ n := by
  have hstart : Stage.deepest (.value []) ≤ n := Nat.zero_le n
  rw [parse?, parse?]
  cases tokens? s.toList with
  | none => rfl
  | some ts =>
    show Stage.run (some n) (.value []) ts = (Stage.run none (.value []) ts).filter _
    rw [Stage.run_eq, Stage.run_eq, Stage.after?_limit ts hstart]
    cases Stage.after? none (.value []) ts with
    | none => rfl
    | some r =>
      rw [Option.filter_some]
      cases r with
      | done j =>
        show Option.bind (if decide (j.depth ≤ n) = true then some (Stage.done j) else none) _ =
          (some j).filter _
        rw [Option.filter_some]
        split <;> rfl
      | _ => split <;> rfl

/-! ## The count before anything is read -/

theorem Nesting.deepest_le_step (n : Nesting) (c : Char) : n.deepest ≤ (n.step c).deepest := by
  unfold step
  split
  · exact Nat.le_refl _
  · split
    · exact Nat.le_refl _
    · split <;> exact Nat.le_refl _
  · split
    · exact Nat.le_refl _
    · split
      · exact Nat.le_max_left ..
      · split <;> exact Nat.le_refl _

/-- A part of a text counts no more than the whole. -/
theorem Nesting.deepest_le_foldl (n : Nesting) (cs : List Char) :
    n.deepest ≤ (cs.foldl step n).deepest := by
  induction cs generalizing n with
  | nil => exact Nat.le_refl _
  | cons c cs ih => exact Nat.le_trans (n.deepest_le_step c) (ih (n.step c))

theorem deepest_reached_le {s : Stage} {part cs : List Char} (hpart : part <+: cs)
    (h : reached? none part = some s) : s.deepest ≤ nesting cs := by
  obtain ⟨rest, rfl⟩ := hpart
  rw [← (counted_reached h).2, nesting, List.foldl_append]
  exact Nesting.deepest_le_foldl _ rest

theorem reached?_eq_of_nesting_le {part cs : List Char} {n : Nat} (hpart : part <+: cs)
    (hn : nesting cs ≤ n) : reached? (some n) part = reached? none part := by
  rw [reached?_limit]
  cases h : reached? none part with
  | none => rfl
  | some s =>
    have hle := Nat.le_trans (deepest_reached_le hpart h) hn
    rw [Option.filter_some, if_pos (decide_eq_true hle)]

theorem parse?_eq_of_nesting_le {s : String} {n : Nat} (hn : nesting s.toList ≤ n) :
    parse? (some n) s = parse? none s := by
  rw [parse?_limit]
  cases h : parse? none s with
  | none => rfl
  | some j =>
    have hle : j.depth ≤ n := by
      rw [← nesting_eq_depth h]
      exact hn
    rw [Option.filter_some, if_pos (decide_eq_true hle)]

theorem decode_eq_tooDeep_iff (s : String) (n : Nat) :
    Tree.decode s = .error (.tooDeep n) ↔ n = nesting s.toList ∧ nestingLimit < n := by
  simp only [Tree.decode]
  constructor
  · intro h
    split at h
    · next hdeep =>
      cases h
      exact ⟨rfl, hdeep⟩
    · split at h
      · cases h
      · split at h
        · cases h
        · next r _ => cases r <;> cases h
  · rintro ⟨rfl, hdeep⟩
    exact if_pos hdeep

/-- **The count of brackets bounds the parser.** It is made on the bytes of a text before anything
is read. If the text holds a document, it is the depth of that document. Whatever the text holds, a
limit on open brackets that is no less than the count makes no difference: with it and without it
the text is refused or holds the same document, and so is every part of it read to the same point,
with no more brackets open. So no text that is not refused for its depth opens more than 386
brackets, and a document is refused for its depth exactly if it is deeper than that. -/
theorem nesting_bounds_parsing (s : String) :
    let count := nestingOfBytes s.toUTF8
    (∀ j, parse? none s = some j → count = j.depth) ∧
    (∀ limit, count ≤ limit →
      parse? (some limit) s = parse? none s ∧
      parseValue? (some limit) s = parseValue? none s ∧
      ∀ part, part <+: s.toList →
        reached? (some limit) part = reached? none part ∧
        (reached? none part = none → parse? none s = none) ∧
        ∀ stage, reached? none part = some stage → stage.frames.length ≤ limit) ∧
    ((∃ n, Tree.decode s = .error (.tooDeep n)) ∨
      ∀ part stage, part <+: s.toList → reached? none part = some stage →
        stage.frames.length ≤ 386) ∧
    (∀ j, parse? none s = some j →
      ((∃ n, Tree.decode s = .error (.tooDeep n)) ↔ 386 < j.depth)) := by
  intro count
  have hcount : count = nesting s.toList := nestingOfBytes_utf8 s
  have hframes {part : List Char} {stage : Stage} (hpart : part <+: s.toList)
      (h : reached? none part = some stage) : stage.frames.length ≤ count := by
    rw [hcount]
    exact Nat.le_trans stage.length_frames_le_deepest (deepest_reached_le hpart h)
  have hdepth {j : Json} (h : parse? none s = some j) : count = j.depth := by
    rw [hcount]
    exact nesting_eq_depth h
  have hdeep : (∃ n, Tree.decode s = .error (.tooDeep n)) ↔ 386 < count := by
    simp only [decode_eq_tooDeep_iff, hcount, exists_eq_left]
    rfl
  refine ⟨fun j => hdepth, fun limit hlimit => ?_, ?_, fun j hj => ?_⟩
  · have hle : nesting s.toList ≤ limit := by rwa [← hcount]
    have hparse := parse?_eq_of_nesting_le hle
    refine ⟨hparse, by rw [parseValue?, parseValue?, hparse], fun part hpart => ?_⟩
    exact ⟨reached?_eq_of_nesting_le hpart hle, parse?_of_reached?_eq_none hpart,
      fun stage h => Nat.le_trans (hframes hpart h) hlimit⟩
  · rw [hdeep]
    by_cases hmany : 386 < count
    · exact Or.inl hmany
    · refine Or.inr fun part stage hpart h => ?_
      exact Nat.le_trans (hframes hpart h) (Nat.not_lt.mp hmany)
  · rw [hdeep, hdepth hj]

/-- Three brackets at once, in a document with more brackets in a string, and in a text that is no
document: a limit of three is no obstacle to either. -/
theorem three_brackets_counted :
    let s := "[[\x7b\"[[\":null\x7d]]"
    let j : Json := .array [.array [.object [(some "[[", .null)]]]
    let part := "[[\x7b".toList
    let other := "[[\x7b]] ]]] [\"[[\""
    (parse? none s = some j ∧ nestingOfBytes s.toUTF8 = j.depth ∧ j.depth = 3) ∧
      parse? (some 3) s = some j ∧
      (∃ stage, part <+: s.toList ∧ reached? none part = some stage ∧
        reached? (some 3) part = some stage ∧ stage.frames.length ≤ 3) ∧
      (¬ ∃ n, Tree.decode s = .error (.tooDeep n)) ∧
      nestingOfBytes other.toUTF8 = 3 ∧ reached? none (part ++ "]".toList) = none ∧
        parse? none other = none ∧ parse? (some 3) other = none := by
  intro s j part other
  have htext : s = j.print := by decide +kernel
  have hs : parse? none s = some j := by rw [htext, parse?_print]
  have hpart : part <+: s.toList := by decide
  have hother : nestingOfBytes other.toUTF8 = 3 := by
    rw [nestingOfBytes_utf8]
    decide
  have hrefused : reached? none (part ++ "]".toList) = none := by rfl
  obtain ⟨stage, hstage⟩ : ∃ stage, reached? none part = some stage := ⟨_, rfl⟩
  obtain ⟨hcount, hlimit, -, hdeep⟩ := nesting_bounds_parsing s
  have hdepth := hcount j hs
  obtain ⟨hparse, -, hparts⟩ := hlimit 3 (Nat.le_of_eq hdepth)
  obtain ⟨hreached, -, hframes⟩ := hparts part hpart
  obtain ⟨-, hlimit', -, -⟩ := nesting_bounds_parsing other
  obtain ⟨hparse', -, hparts'⟩ := hlimit' 3 (Nat.le_of_eq hother)
  obtain ⟨-, hnone, -⟩ := hparts' (part ++ "]".toList) (by decide)
  refine ⟨⟨hs, hdepth, rfl⟩, hparse.trans hs,
    ⟨stage, hpart, hstage, hreached.trans hstage, hframes stage hstage⟩, fun h => ?_, hother,
    hrefused, hnone hrefused, hparse'.trans (hnone hrefused)⟩
  exact absurd ((hdeep j hs).mp h) (by decide)

end DiskShell.Json
