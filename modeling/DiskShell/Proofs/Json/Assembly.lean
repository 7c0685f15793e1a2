import Mathlib.Data.List.Forall2
import DiskShell.Proofs.Json.RoundTrip

/-!
Texts put together from texts. What a text is read as does not depend on what stands around it, so
an object may be spelled with any spelling of its keys and values, and with blanks between the tokens
(`parse?_objectText`).
-/

namespace DiskShell.Json

/-! ## Tokens in front of others -/

/-- The lexer with these tokens complete before all others. -/
def Lexer.above (done : List Token) (l : Lexer) : Lexer := ⟨l.mode, l.done ++ done⟩

section

variable {below : List Token}

theorem begin_above (done : List Token) (c : Char) :
    begin (done ++ below) c = (begin done c).map (Lexer.above below) := by
  unfold begin
  split
  · rfl
  · split
    case h_12 =>
      rw [Option.map_map]
      rfl
    all_goals rfl

theorem endNumeral_above (m : Mode) (done : List Token) (c : Char) :
    endNumeral m (done ++ below) c = (endNumeral m done c).map (Lexer.above below) := by
  unfold endNumeral
  cases m.numeral? with
  | none => rfl
  | some n => exact begin_above (.number n :: done) c

theorem Lexer.step_above (l : Lexer) (c : Char) :
    (l.above below).step c = (l.step c).map (Lexer.above below) := by
  obtain ⟨mode, done⟩ := l
  cases mode with
  | between => exact begin_above done c
  | word rest token =>
    cases rest with
    | nil => exact begin_above (token :: done) c
    | cons x rest =>
      simp only [Lexer.step, Lexer.above]
      repeat' split
      all_goals rfl
  | minus | point | markSign =>
    simp only [Lexer.step, Lexer.above, Option.map_map]
    rfl
  | hex units missing value =>
    simp only [Lexer.step, Lexer.above, Option.map_map]
    congr 1
    funext d
    simp only [Function.comp_apply, Lexer.above]
    split <;> rfl
  | whole | fraction | exponent =>
    simp only [Lexer.step, Lexer.above]
    repeat' split
    all_goals first
      | rfl
      | exact endNumeral_above _ done c
  | mark | text | escape =>
    simp only [Lexer.step, Lexer.above]
    repeat' split
    all_goals first
      | rfl
      | (rw [Option.map_map]; rfl)

/-- A text that is read whole is read to the same tokens inside another, in front of something that
ends a numeral. -/
theorem Lexer.run_above {l : Lexer} {cs rest : List Char} {ts : List Token}
    (h : l.run cs = some ts) (hrest : EndsNumeral rest) :
    (l.above below).run (cs ++ rest) = Lexer.run ⟨.between, ts.reverse ++ below⟩ rest := by
  induction cs generalizing l with
  | nil =>
    obtain ⟨mode, done⟩ := l
    have hend (n : Numeral) (hn : mode.numeral? = some n) (hts : (.number n :: done).reverse = ts) :
        Lexer.run ⟨mode, done ++ below⟩ rest =
          Lexer.run ⟨.between, ts.reverse ++ below⟩ rest := by
      rw [run_endNumeral hn hrest, ← hts, List.reverse_reverse]
      rfl
    rw [Lexer.run, Lexer.finish] at h
    split at h
    · next hmode =>
      cases h
      cases hmode
      rw [List.reverse_reverse]
      rfl
    · obtain ⟨n, hn, hts⟩ := Option.map_eq_some_iff.mp h
      exact hend n hn hts
  | cons c cs ih =>
    rw [Lexer.run] at h
    rw [List.cons_append, Lexer.run, Lexer.step_above]
    cases hstep : l.step c with
    | none =>
      rw [hstep] at h
      cases h
    | some l' =>
      rw [hstep] at h
      exact ih h

theorem run_of_tokens? {cs rest : List Char} {ts : List Token} (h : tokens? cs = some ts)
    (hrest : EndsNumeral rest) :
    Lexer.run ⟨.between, below⟩ (cs ++ rest) = Lexer.run ⟨.between, ts.reverse ++ below⟩ rest :=
  Lexer.run_above h hrest

end

/-! ## Documents inside others -/

/-- The stage with these brackets open around it. -/
def Stage.inside (around : List Frame) : Stage → Stage
  | .value outer => .value (outer ++ around)
  | .firstItem outer => .firstItem (outer ++ around)
  | .afterItem outer items => .afterItem (outer ++ around) items
  | .firstKey outer => .firstKey (outer ++ around)
  | .key outer members => .key (outer ++ around) members
  | .colon outer members name => .colon (outer ++ around) members name
  | .afterMember outer members => .afterMember (outer ++ around) members
  | .done j => deliver j around

section

variable {around : List Frame}

theorem deliver_inside (j : Json) (outer : List Frame) :
    deliver j (outer ++ around) = (deliver j outer).inside around := by
  cases outer with
  | nil => rfl
  | cons f outer => cases f <;> rfl

theorem readValue_inside {outer : List Frame} {t : Token} {s : Stage}
    (h : readValue none outer t = some s) :
    readValue none (outer ++ around) t = some (s.inside around) := by
  cases t with
  | openArray | openObject =>
    cases h
    rfl
  | null | bool | number | text =>
    cases h
    exact congrArg some (deliver_inside _ outer)
  | closeArray | closeObject | comma | colon => cases h

theorem Stage.step_firstItem {limit : Option Nat} {outer : List Frame} {t : Token}
    (h : t ≠ .closeArray) :
    Stage.step limit (.firstItem outer) t = readValue limit (.array [] :: outer) t := by
  cases t with
  | closeArray => exact absurd rfl h
  | _ => rfl

theorem Stage.step_inside {s s' : Stage} {t : Token} (h : s.step none t = some s') :
    (s.inside around).step none t = some (s'.inside around) := by
  cases s with
  | value outer => exact readValue_inside h
  | firstItem outer =>
    by_cases ht : t = .closeArray
    · subst ht
      cases h
      exact congrArg some (deliver_inside _ outer)
    · rw [step_firstItem ht] at h
      exact (step_firstItem ht).trans (readValue_inside h)
  | done j => cases t <;> cases h
  | _ outer =>
    cases t <;> cases h
    all_goals first
      | rfl
      | exact congrArg some (deliver_inside _ outer)

/-- A document that is read from tokens is read from them inside others as well. -/
theorem Stage.run_inside {s : Stage} {ts rest : List Token} {j : Json}
    (h : s.run none ts = some j) :
    (s.inside around).run none (ts ++ rest) = (deliver j around).run none rest := by
  induction ts generalizing s with
  | nil =>
    cases s with
    | done => cases h; rfl
    | _ => cases h
  | cons t ts ih =>
    rw [Stage.run] at h
    cases hstep : s.step none t with
    | none =>
      rw [hstep] at h
      cases h
    | some s' =>
      rw [hstep] at h
      rw [List.cons_append, run_token (step_inside hstep)]
      exact ih h

theorem run_of_run {ts rest : List Token} {j : Json} (h : Stage.run none (.value []) ts = some j) :
    Stage.run none (.value around) (ts ++ rest) = Stage.run none (deliver j around) rest :=
  Stage.run_inside h

end

/-! ## Objects spelled member by member -/

/-- These texts spell the key and the value of a member, each perhaps with blanks around it. -/
structure Spells (piece : String × String) (m : Option String × Json) : Prop where
  key : tokens? piece.1.toList = some [.text m.1]
  value : parse? none piece.2 = some m.2

/-- Every member is spelled by the texts that are printed for its key and its value. -/
theorem spells_print (key : String) (j : Json) :
    Spells ((ofString key).print, j.print) (some key, j) where
  key := by
    rw [print, String.toList_ofList, tokens?_chars]
    rfl
  value := parse?_print j

def memberText (piece : String × String) : String := piece.1 ++ ":" ++ piece.2

/-- An object with a blank text in front of it, one before its first member and one after it. -/
def objectText (before inside after : String) (pieces : List (String × String)) : String :=
  before ++ "\x7b" ++ inside ++ ",".intercalate (pieces.map memberText) ++ "\x7d" ++ after

def IsBlank (s : String) : Prop := ∀ c ∈ s.toList, isSpace c = true

section

variable {below : List Token} {rest : List Char}

theorem run_blanks {cs : List Char} (h : ∀ c ∈ cs, isSpace c = true) :
    Lexer.run ⟨.between, below⟩ (cs ++ rest) = Lexer.run ⟨.between, below⟩ rest := by
  induction cs with
  | nil => rfl
  | cons c cs ih =>
    have hstep : Lexer.step ⟨.between, below⟩ c = some ⟨.between, below⟩ :=
      if_pos (h c (List.mem_cons_self ..))
    rw [List.cons_append, run_cons hstep]
    exact ih fun d hd => h d (List.mem_cons_of_mem _ hd)

theorem endsNumeral_cons {c : Char} (h : digit? c = none ∧ c ≠ '.' ∧ c ≠ 'e' ∧ c ≠ 'E') :
    EndsNumeral (c :: rest) := by
  intro d hd
  cases hd
  exact h

theorem Spells.exists_tokens {piece : String × String} {m : Option String × Json}
    (h : Spells piece m) :
    ∃ ts, Stage.run none (.value []) ts = some m.2 ∧ ∀ below rest, EndsNumeral rest →
      Lexer.run ⟨.between, below⟩ ((memberText piece).toList ++ rest) =
        Lexer.run ⟨.between, ts.reverse ++ .colon :: .text m.1 :: below⟩ rest := by
  obtain ⟨ts, hts, hj⟩ := Option.bind_eq_some_iff.mp h.value
  refine ⟨ts, hj, fun below rest hrest => ?_⟩
  have hcolon : Lexer.step ⟨.between, .text m.1 :: below⟩ ':' =
      some ⟨.between, .colon :: .text m.1 :: below⟩ := rfl
  have hmember : (memberText piece).toList ++ rest =
      piece.1.toList ++ ':' :: (piece.2.toList ++ rest) := by
    simp [memberText]
  rw [hmember, run_of_tokens? h.key (endsNumeral_cons (by decide))]
  show Lexer.run ⟨.between, .text m.1 :: below⟩ _ = _
  rw [run_cons hcolon, run_of_tokens? hts hrest]

theorem endsNumeral_later (pieces : List (String × String)) (rest : List Char) :
    EndsNumeral (pieces.flatMap (fun p => ',' :: (memberText p).toList) ++ '\x7d' :: rest) := by
  cases pieces with
  | nil => exact endsNumeral_cons (by decide)
  | cons => exact endsNumeral_cons (by decide)

/-- Members after others, up to the closing brace. -/
theorem exists_laterTokens {pieces : List (String × String)} {members : Members}
    (h : List.Forall₂ Spells pieces members) :
    ∃ ts, (∀ read, Stage.run none (.afterMember [] read) (ts ++ [.closeObject]) =
        some (.object (read.reverse ++ members))) ∧
      ∀ below rest, Lexer.run ⟨.between, below⟩
          (pieces.flatMap (fun p => ',' :: (memberText p).toList) ++ '\x7d' :: rest) =
        Lexer.run ⟨.between, ts.reverse ++ below⟩ ('\x7d' :: rest) := by
  induction h with
  | nil =>
    refine ⟨[], fun read => ?_, fun below rest => rfl⟩
    rw [List.append_nil]
    rfl
  | @cons piece m pieces members hm hrest ih =>
    obtain ⟨ts, hstage, hlexer⟩ := hm.exists_tokens
    obtain ⟨later, hstages, hlexers⟩ := ih
    refine ⟨.comma :: .text m.1 :: .colon :: ts ++ later, fun read => ?_, fun below rest => ?_⟩
    · have hcomma : Stage.step none (.afterMember [] read) .comma = some (.key [] read) := rfl
      have hkey : Stage.step none (.key [] read) (.text m.1) = some (.colon [] read m.1) := rfl
      have hcolon : Stage.step none (.colon [] read m.1) .colon =
          some (.value [.object read m.1]) := rfl
      simp only [List.cons_append, List.append_assoc]
      rw [run_token hcomma, run_token hkey, run_token hcolon, run_of_run hstage]
      have hlater := hstages (m :: read)
      simpa [deliver] using hlater
    · have hcomma : Lexer.step ⟨.between, below⟩ ',' = some ⟨.between, .comma :: below⟩ := rfl
      simp only [List.flatMap_cons, List.cons_append, List.append_assoc]
      rw [run_cons hcomma, hlexer _ _ (endsNumeral_later pieces rest), hlexers]
      simp

theorem toList_intercalate_comma (texts : List String) :
    (",".intercalate texts).toList =
      match texts with
      | [] => []
      | s :: rest => s.toList ++ rest.flatMap fun t => ',' :: t.toList := by
  rw [String.toList_intercalate]
  cases texts with
  | nil => rfl
  | cons s rest =>
    show [','].intercalate (s.toList :: rest.map String.toList) = _
    induction rest generalizing s with
    | nil => simp
    | cons t rest ih => rw [List.map_cons, List.intercalate_cons_cons, ih]; simp

theorem exists_objectTokens {pieces : List (String × String)} {members : Members}
    (h : List.Forall₂ Spells pieces members) :
    ∃ ts, Stage.run none (.firstKey []) (ts ++ [.closeObject]) = some (.object members) ∧
      ∀ below rest, Lexer.run ⟨.between, below⟩
          ((",".intercalate (pieces.map memberText)).toList ++ '\x7d' :: rest) =
        Lexer.run ⟨.between, ts.reverse ++ below⟩ ('\x7d' :: rest) := by
  rw [toList_intercalate_comma]
  cases h with
  | nil => exact ⟨[], rfl, fun below rest => rfl⟩
  | @cons piece m pieces members hm hrest =>
    obtain ⟨ts, hstage, hlexer⟩ := hm.exists_tokens
    obtain ⟨later, hstages, hlexers⟩ := exists_laterTokens hrest
    refine ⟨.text m.1 :: .colon :: ts ++ later, ?_, fun below rest => ?_⟩
    · have hkey : Stage.step none (.firstKey []) (.text m.1) = some (.colon [] [] m.1) := rfl
      have hcolon : Stage.step none (.colon [] [] m.1) .colon =
          some (.value [.object [] m.1]) := rfl
      simp only [List.cons_append, List.append_assoc]
      rw [run_token hkey, run_token hcolon, run_of_run hstage]
      exact hstages [m]
    · simp only [List.map_cons, List.flatMap_map, List.append_assoc]
      rw [hlexer _ _ (endsNumeral_later pieces rest), hlexers]
      simp

end

/-- **An object may be spelled with any spelling of its members**, and with blanks around them. -/
theorem parse?_objectText {before inside after : String} {pieces : List (String × String)}
    {members : Members} (hbefore : IsBlank before) (hinside : IsBlank inside)
    (hafter : IsBlank after) (h : List.Forall₂ Spells pieces members) :
    parse? none (objectText before inside after pieces) = some (.object members) := by
  obtain ⟨ts, hstage, hlexer⟩ := exists_objectTokens h
  have hopen : Lexer.step ⟨.between, []⟩ '\x7b' = some ⟨.between, [.openObject]⟩ := rfl
  have hclose (done : List Token) :
      Lexer.step ⟨.between, done⟩ '\x7d' = some ⟨.between, .closeObject :: done⟩ := rfl
  have hobject : Stage.step none (.value []) .openObject = some (.firstKey []) := rfl
  have htext : (objectText before inside after pieces).toList =
      before.toList ++ '\x7b' :: (inside.toList ++
        ((",".intercalate (pieces.map memberText)).toList ++
          '\x7d' :: (after.toList ++ []))) := by
    simp [objectText]
  have htokens : tokens? (objectText before inside after pieces).toList =
      some (.openObject :: (ts ++ [.closeObject])) := by
    rw [htext, tokens?, run_blanks hbefore, run_cons hopen, run_blanks hinside, hlexer,
      run_cons (hclose _), run_blanks hafter]
    simp [Lexer.run, Lexer.finish]
  rw [parse?, htokens, Option.bind_some, run_token hobject, hstage]

end DiskShell.Json
