import DiskShell.Json.Parser
import DiskShell.Json.Printer

/-!
Every document is read back from its text (`parse?_print`), numerals as they are written and texts
with every character. The tokens of a document stand between the two directions.
-/

namespace DiskShell.Json

/-! ## Texts -/

section

variable {units : List Nat} {done : List Token} {c : Char} {cs rest : List Char}

theorem run_cons {l l' : Lexer} (h : l.step c = some l') : l.run (c :: cs) = l'.run cs := by
  simp [Lexer.run, h]

theorem hexDigit?_digitChar {d : Nat} (h : d < 16) : hexDigit? d.digitChar = some d := by
  have hall : ∀ k : Fin 16, hexDigit? (Nat.digitChar k) = some k.val := by decide
  exact hall ⟨d, h⟩

/-- A control character is read from the two digits that it is written with. -/
theorem run_controlEscape (h : c.toNat < 0x20) :
    Lexer.run ⟨.text units, done⟩ ('\\' :: 'u' :: '0' :: '0' :: Nat.digitChar (c.toNat / 16) ::
      Nat.digitChar (c.toNat % 16) :: rest) = Lexer.run ⟨.text (c.toNat :: units), done⟩ rest := by
  have hhigh : hexDigit? (Nat.digitChar (c.toNat / 16)) = some (c.toNat / 16) :=
    hexDigit?_digitChar (by omega)
  have hlow : hexDigit? (Nat.digitChar (c.toNat % 16)) = some (c.toNat % 16) :=
    hexDigit?_digitChar (by omega)
  have hsum : c.toNat / 16 * 16 + c.toNat % 16 = c.toNat := by omega
  have hzero : hexDigit? '0' = some 0 := by decide
  simp [Lexer.run, Lexer.step, hhigh, hlow, hzero, hsum]

theorem run_escape :
    Lexer.run ⟨.text units, done⟩ (escape c ++ rest) =
      Lexer.run ⟨.text (c.toNat :: units), done⟩ rest := by
  unfold escape
  by_cases h₁ : c = '"'
  · subst h₁; rfl
  by_cases h₂ : c = '\\'
  · subst h₂; rfl
  by_cases h₃ : c = '\x08'
  · subst h₃; rfl
  by_cases h₄ : c = '\t'
  · subst h₄; rfl
  by_cases h₅ : c = '\n'
  · subst h₅; rfl
  by_cases h₆ : c = '\x0c'
  · subst h₆; rfl
  by_cases h₇ : c = '\r'
  · subst h₇; rfl
  simp only [h₁, h₂, h₃, h₄, h₅, h₆, h₇, ↓reduceIte]
  by_cases h₈ : c.toNat < 0x20
  · simpa [h₈] using run_controlEscape h₈
  · rw [if_neg h₈]
    apply run_cons
    simp [Lexer.step, h₁, h₂, h₈]

theorem run_escapes :
    Lexer.run ⟨.text units, done⟩ (cs.flatMap escape ++ rest) =
      Lexer.run ⟨.text ((cs.map Char.toNat).reverse ++ units), done⟩ rest := by
  induction cs generalizing units with
  | nil => rfl
  | cons c cs ih =>
    rw [List.flatMap_cons, List.append_assoc, run_escape, ih]
    simp

/-- No character is half of a surrogate pair. -/
theorem not_surrogate (c : Char) :
    isLowSurrogate c.toNat = false ∧ isHighSurrogate c.toNat = false := by
  have hv : c.toNat < 0xD800 ∨ 0xDFFF < c.toNat ∧ c.toNat < 0x110000 := c.valid
  simp only [isLowSurrogate, isHighSurrogate, Bool.and_eq_false_iff, decide_eq_false_iff_not]
  omega

theorem joinUnits_toNat (cs after : List Char) :
    joinUnits after (cs.map Char.toNat) = some (cs.reverse ++ after) := by
  induction cs generalizing after with
  | nil => rfl
  | cons c cs ih =>
    obtain ⟨hlow, hhigh⟩ := not_surrogate c
    rw [List.map_cons, joinUnits.eq_def]
    simp [hlow, hhigh, ih, Char.ofNat_toNat]

theorem textOfUnits_toNat (s : String) :
    textOfUnits ((s.toList.map Char.toNat).reverse) = some s := by
  rw [textOfUnits, ← List.map_reverse, joinUnits_toNat]
  simp

/-- A text is read up to its closing quote; the unpaired escape stands for the missing one. -/
theorem run_textChars (s : Option String) :
    Lexer.run ⟨.between, done⟩ (textChars s ++ rest) =
      Lexer.run ⟨.between, .text s :: done⟩ rest := by
  cases s with
  | none => rfl
  | some s =>
    have hopen : Lexer.step ⟨.between, done⟩ '"' = some ⟨.text [], done⟩ := rfl
    have hclose (units : List Nat) : Lexer.step ⟨.text units, done⟩ '"' =
        some ⟨.between, .text (textOfUnits units) :: done⟩ := rfl
    simp only [textChars, List.cons_append, List.append_assoc]
    rw [run_cons hopen, run_escapes, List.append_nil, List.nil_append, run_cons (hclose _),
      textOfUnits_toNat]

end

/-! ## Numerals -/

/-- The text goes on with something that ends a numeral. -/
def EndsNumeral (cs : List Char) : Prop :=
  ∀ c ∈ cs.head?, digit? c = none ∧ c ≠ '.' ∧ c ≠ 'e' ∧ c ≠ 'E'

theorem digit?_digitChar {d : Nat} (h : d < 10) : digit? d.digitChar = some (Fin.ofNat 10 d) := by
  have hall : ∀ k : Fin 10, digit? (Nat.digitChar k) = some (Fin.ofNat 10 k) := by decide
  exact hall ⟨d, h⟩

section

variable {done : List Token} {rest : List Char}

/-- A numeral that may end is complete when something comes that ends it. -/
theorem run_endNumeral {m : Mode} {n : Numeral} (hm : m.numeral? = some n)
    (hrest : EndsNumeral rest) :
    Lexer.run ⟨m, done⟩ rest = Lexer.run ⟨.between, .number n :: done⟩ rest := by
  cases rest with
  | nil => cases m <;> cases hm <;> rfl
  | cons c cs =>
    obtain ⟨hd, hdot, he, hE⟩ := hrest c rfl
    have hstep : Lexer.step ⟨m, done⟩ c = Lexer.step ⟨.between, .number n :: done⟩ c := by
      cases m <;> cases hm <;> simp [Lexer.step, hd, hdot, he, hE, endNumeral, Mode.numeral?]
    simp only [Lexer.run, hstep]

theorem begin_digit {c : Char} {d : Fin 10} (h : digit? c = some d) :
    begin done c = some ⟨.whole ⟨false, d, [], none⟩, done⟩ := by
  have hs : isSpace c = false := by
    cases hs : isSpace c with
    | false => rfl
    | true =>
      simp only [isSpace, Bool.or_eq_true, decide_eq_true_eq] at hs
      rcases hs with ((rfl | rfl) | rfl) | rfl <;> cases h
  simp only [begin, hs, Bool.false_eq_true, ↓reduceIte]
  split
  case h_12 =>
    rw [h]
    rfl
  all_goals cases h

/-- Digits are read one by one into a mode that holds the number so far. -/
theorem run_toDigits {m : Mode} {f : Nat → Mode}
    (first : ∀ d < 10, Lexer.step ⟨m, done⟩ d.digitChar = some ⟨f d, done⟩)
    (next : ∀ w d, 0 < w → d < 10 →
      Lexer.step ⟨f w, done⟩ d.digitChar = some ⟨f (w * 10 + d), done⟩) (w : Nat) :
    Lexer.run ⟨m, done⟩ (Nat.toDigits 10 w ++ rest) = Lexer.run ⟨f w, done⟩ rest := by
  induction w using Nat.strongRecOn generalizing rest with
  | ind w ih =>
    by_cases hw : w < 10
    · rw [Nat.toDigits_of_lt_base hw]
      exact run_cons (first w hw)
    · have hstep := next (w / 10) (w % 10) (by omega) (by omega)
      have hsum : w / 10 * 10 + w % 10 = w := by omega
      rw [hsum] at hstep
      rw [Nat.toDigits_of_base_le (by decide) (by omega), List.append_assoc,
        ih (w / 10) (by omega)]
      exact run_cons hstep

theorem run_whole (negative : Bool) (w : Nat) :
    Lexer.run ⟨.between, done⟩ ((if negative then ['-'] else []) ++ (Nat.toDigits 10 w ++ rest)) =
      Lexer.run ⟨.whole ⟨negative, w, [], none⟩, done⟩ rest := by
  have next : ∀ w d, 0 < w → d < 10 → Lexer.step ⟨.whole ⟨negative, w, [], none⟩, done⟩
      d.digitChar = some ⟨.whole ⟨negative, w * 10 + d, [], none⟩, done⟩ := by
    intro w d hw hd
    have hne : w ≠ 0 := by omega
    simp [Lexer.step, digit?_digitChar hd, hne, Nat.mod_eq_of_lt hd]
  cases negative with
  | false =>
    refine run_toDigits (fun d hd => ?_) next w
    have hb := @begin_digit done _ _ (digit?_digitChar hd)
    simpa [Lexer.step, Nat.mod_eq_of_lt hd] using hb
  | true =>
    have hminus : Lexer.step ⟨.between, done⟩ '-' = some ⟨.minus, done⟩ := rfl
    simp only [↓reduceIte, List.cons_append, List.nil_append]
    rw [run_cons hminus]
    refine run_toDigits (fun d hd => ?_) next w
    simp [Lexer.step, digit?_digitChar hd, Nat.mod_eq_of_lt hd]

theorem run_exponent {m : Mode} {n : Numeral} {negative : Bool}
    (first : ∀ d < 10, Lexer.step ⟨m, done⟩ d.digitChar = some ⟨.exponent n negative d, done⟩)
    (e : Nat) :
    Lexer.run ⟨m, done⟩ (Nat.toDigits 10 e ++ rest) =
      Lexer.run ⟨.exponent n negative e, done⟩ rest := by
  refine run_toDigits first (fun w d _ hd => ?_) e
  simp [Lexer.step, digit?_digitChar hd, Nat.mod_eq_of_lt hd]

theorem run_digits (n : Numeral) (digits ds : List (Fin 10)) :
    Lexer.run ⟨.fraction n digits, done⟩ (ds.map (fun d => d.val.digitChar) ++ rest) =
      Lexer.run ⟨.fraction n (ds.reverse ++ digits), done⟩ rest := by
  induction ds generalizing digits with
  | nil => rfl
  | cons d ds ih =>
    have hd := digit?_digitChar d.isLt
    have hstep : Lexer.step ⟨.fraction n digits, done⟩ d.val.digitChar =
        some ⟨.fraction n (d :: digits), done⟩ := by
      simp [Lexer.step, hd]
    rw [List.map_cons, List.cons_append, run_cons hstep, ih]
    simp

/-- Where the lexer stands after the whole part and the fraction. -/
def Numeral.afterFraction (n : Numeral) : Mode :=
  match n.fraction with
  | [] => .whole ⟨n.negative, n.whole, [], none⟩
  | ds => .fraction ⟨n.negative, n.whole, [], none⟩ ds.reverse

theorem run_fraction (n : Numeral) :
    Lexer.run ⟨.whole ⟨n.negative, n.whole, [], none⟩, done⟩
        ((if n.fraction.isEmpty then [] else '.' :: n.fraction.map fun d => d.val.digitChar) ++
          rest) =
      Lexer.run ⟨n.afterFraction, done⟩ rest := by
  unfold Numeral.afterFraction
  cases n.fraction with
  | nil => rfl
  | cons d ds =>
    have hdot : Lexer.step ⟨.whole ⟨n.negative, n.whole, [], none⟩, done⟩ '.' =
        some ⟨.point ⟨n.negative, n.whole, [], none⟩, done⟩ := rfl
    have hd : Lexer.step ⟨.point ⟨n.negative, n.whole, [], none⟩, done⟩ d.val.digitChar =
        some ⟨.fraction ⟨n.negative, n.whole, [], none⟩ [d], done⟩ := by
      simp [Lexer.step, digit?_digitChar d.isLt]
    simp only [List.isEmpty_cons, Bool.false_eq_true, ↓reduceIte, List.map_cons, List.cons_append]
    rw [run_cons hdot, run_cons hd, run_digits, List.reverse_cons]

theorem numeral?_afterFraction (n : Numeral) :
    n.afterFraction.numeral? = some { n with exponent := none } := by
  obtain ⟨negative, whole, fraction, exponent⟩ := n
  cases fraction <;> simp [Numeral.afterFraction, Mode.numeral?]

theorem step_exponentMark (n : Numeral) :
    Lexer.step ⟨n.afterFraction, done⟩ 'e' = some ⟨.mark { n with exponent := none }, done⟩ := by
  obtain ⟨negative, whole, fraction, exponent⟩ := n
  have he : digit? 'e' = none := rfl
  cases fraction <;> simp [Numeral.afterFraction, Lexer.step, he]

theorem step_mark (n : Numeral) {d : Nat} (h : d < 10) :
    Lexer.step ⟨.mark n, done⟩ d.digitChar = some ⟨.exponent n false d, done⟩ := by
  have hd := digit?_digitChar h
  have hplus : d.digitChar ≠ '+' := by
    intro he
    rw [he] at hd
    cases hd
  have hminus : d.digitChar ≠ '-' := by
    intro he
    rw [he] at hd
    cases hd
  simp [Lexer.step, hd, hplus, hminus, Nat.mod_eq_of_lt h]

theorem step_markSign (n : Numeral) {d : Nat} (h : d < 10) :
    Lexer.step ⟨.markSign n true, done⟩ d.digitChar = some ⟨.exponent n true d, done⟩ := by
  simp [Lexer.step, digit?_digitChar h, Nat.mod_eq_of_lt h]

/-- A numeral is complete when something comes that ends it. -/
theorem run_numeral (n : Numeral) (hrest : EndsNumeral rest) :
    Lexer.run ⟨.between, done⟩ (n.chars ++ rest) =
      Lexer.run ⟨.between, .number n :: done⟩ rest := by
  simp only [Numeral.chars, List.append_assoc]
  rw [run_whole, run_fraction]
  have hbase := numeral?_afterFraction n
  obtain ⟨negative, whole, fraction, exponent⟩ := n
  cases exponent with
  | none => exact run_endNumeral hbase hrest
  | some e =>
    cases e with
    | ofNat e =>
      simp only [List.cons_append]
      rw [run_cons (step_exponentMark _), run_exponent (fun d hd => step_mark _ hd)]
      exact run_endNumeral rfl hrest
    | negSucc e =>
      have hsign (n : Numeral) : Lexer.step ⟨.mark n, done⟩ '-' = some ⟨.markSign n true, done⟩ :=
        rfl
      simp only [List.cons_append]
      rw [run_cons (step_exponentMark _), run_cons (hsign _),
        run_exponent (fun d hd => step_markSign _ hd)]
      exact run_endNumeral rfl hrest

end

/-! ## Documents -/

mutual

/-- The tokens of the text that is printed for a document. -/
def tokens : Json → List Token
  | .null => [.null]
  | .bool b => [.bool b]
  | .number n => [.number n]
  | .text s => [.text s]
  | .array [] => [.openArray, .closeArray]
  | .array (j :: rest) => .openArray :: j.tokens ++ itemTokens rest
  | .object [] => [.openObject, .closeObject]
  | .object ((key, j) :: rest) =>
    .openObject :: .text key :: .colon :: j.tokens ++ memberTokens rest

/-- The tokens after the first item. -/
def itemTokens : List Json → List Token
  | [] => [.closeArray]
  | j :: rest => .comma :: j.tokens ++ itemTokens rest

/-- The tokens after the first member. -/
def memberTokens : Members → List Token
  | [] => [.closeObject]
  | (key, j) :: rest => .comma :: .text key :: .colon :: j.tokens ++ memberTokens rest

end

theorem endsNumeral_itemChars (items : List Json) (rest : List Char) :
    EndsNumeral (itemChars items ++ rest) := by
  intro c hc
  cases items <;> cases hc <;> decide

theorem endsNumeral_memberChars (members : Members) (rest : List Char) :
    EndsNumeral (memberChars members ++ rest) := by
  intro c hc
  cases members <;> cases hc <;> decide

mutual

theorem run_chars : ∀ (j : Json) (done : List Token) (rest : List Char), EndsNumeral rest →
    Lexer.run ⟨.between, done⟩ (j.chars ++ rest) =
      Lexer.run ⟨.between, j.tokens.reverse ++ done⟩ rest
  | .null, _, _, _ => rfl
  | .bool true, _, _, _ => rfl
  | .bool false, _, _, _ => rfl
  | .number n, _, _, hrest => run_numeral n hrest
  | .text s, _, _, _ => run_textChars s
  | .array [], _, _, _ => rfl
  | .object [], _, _, _ => rfl
  | .array (j :: items), done, rest, _ => by
    have hopen : Lexer.step ⟨.between, done⟩ '[' = some ⟨.between, .openArray :: done⟩ := rfl
    simp only [chars, tokens, List.cons_append, List.append_assoc, List.reverse_cons,
      List.reverse_append]
    rw [run_cons hopen, run_chars j _ _ (endsNumeral_itemChars items rest),
      run_itemChars items]
    simp
  | .object ((key, j) :: members), done, rest, _ => by
    have hopen : Lexer.step ⟨.between, done⟩ '\x7b' = some ⟨.between, .openObject :: done⟩ := rfl
    have hcolon (done : List Token) :
        Lexer.step ⟨.between, done⟩ ':' = some ⟨.between, .colon :: done⟩ := rfl
    simp only [chars, tokens, List.cons_append, List.append_assoc, List.reverse_cons,
      List.reverse_append]
    rw [run_cons hopen, run_textChars, run_cons (hcolon _),
      run_chars j _ _ (endsNumeral_memberChars members rest), run_memberChars members]
    simp

theorem run_itemChars : ∀ (items : List Json) (done : List Token) (rest : List Char),
    Lexer.run ⟨.between, done⟩ (itemChars items ++ rest) =
      Lexer.run ⟨.between, (itemTokens items).reverse ++ done⟩ rest
  | [], _, _ => rfl
  | j :: items, done, rest => by
    have hcomma : Lexer.step ⟨.between, done⟩ ',' = some ⟨.between, .comma :: done⟩ := rfl
    simp only [itemChars, itemTokens, List.cons_append, List.append_assoc, List.reverse_cons,
      List.reverse_append]
    rw [run_cons hcomma, run_chars j _ _ (endsNumeral_itemChars items rest), run_itemChars items]
    simp

theorem run_memberChars : ∀ (members : Members) (done : List Token) (rest : List Char),
    Lexer.run ⟨.between, done⟩ (memberChars members ++ rest) =
      Lexer.run ⟨.between, (memberTokens members).reverse ++ done⟩ rest
  | [], _, _ => rfl
  | (key, j) :: members, done, rest => by
    have hcomma : Lexer.step ⟨.between, done⟩ ',' = some ⟨.between, .comma :: done⟩ := rfl
    have hcolon (done : List Token) :
        Lexer.step ⟨.between, done⟩ ':' = some ⟨.between, .colon :: done⟩ := rfl
    simp only [memberChars, memberTokens, List.cons_append, List.append_assoc, List.reverse_cons,
      List.reverse_append]
    rw [run_cons hcomma, run_textChars, run_cons (hcolon _),
      run_chars j _ _ (endsNumeral_memberChars members rest), run_memberChars members]
    simp

end

theorem tokens?_chars (j : Json) : tokens? j.chars = some j.tokens := by
  have hrun := run_chars j [] [] (by intro c hc; cases hc)
  rw [List.append_nil, List.append_nil] at hrun
  rw [tokens?, hrun]
  simp [Lexer.run, Lexer.finish]

/-! ## Reading -/

theorem run_token {limit : Option Nat} {s s' : Stage} {t : Token} {ts : List Token}
    (h : s.step limit t = some s') : s.run limit (t :: ts) = s'.run limit ts := by
  simp [Stage.run, h]

/-- No document begins with a closing bracket, so the first item is read like any value. -/
theorem run_firstItem (j : Json) (outer : List Frame) (ts : List Token) :
    Stage.run none (.firstItem outer) (j.tokens ++ ts) =
      Stage.run none (.value (.array [] :: outer)) (j.tokens ++ ts) := by
  cases j with
  | array items => cases items <;> rfl
  | object members => cases members <;> rfl
  | _ => rfl

mutual

theorem run_tokens : ∀ (j : Json) (outer : List Frame) (ts : List Token),
    Stage.run none (.value outer) (j.tokens ++ ts) = Stage.run none (deliver j outer) ts
  | .null, _, _ => rfl
  | .bool _, _, _ => rfl
  | .number _, _, _ => rfl
  | .text _, _, _ => rfl
  | .array [], _, _ => rfl
  | .object [], _, _ => rfl
  | .array (j :: items), outer, ts => by
    have hopen : Stage.step none (.value outer) .openArray = some (.firstItem outer) := rfl
    simp only [tokens, List.cons_append, List.append_assoc]
    rw [run_token hopen, run_firstItem, run_tokens j]
    exact run_itemTokens items [j] outer ts
  | .object ((key, j) :: members), outer, ts => by
    have hopen : Stage.step none (.value outer) .openObject = some (.firstKey outer) := rfl
    have hkey : Stage.step none (.firstKey outer) (.text key) = some (.colon outer [] key) := rfl
    have hcolon : Stage.step none (.colon outer [] key) .colon =
        some (.value (.object [] key :: outer)) := rfl
    simp only [tokens, List.cons_append, List.append_assoc]
    rw [run_token hopen, run_token hkey, run_token hcolon, run_tokens j]
    exact run_memberTokens members [(key, j)] outer ts

theorem run_itemTokens : ∀ (items read : List Json) (outer : List Frame) (ts : List Token),
    Stage.run none (.afterItem outer read) (itemTokens items ++ ts) =
      Stage.run none (deliver (.array (read.reverse ++ items)) outer) ts
  | [], read, outer, ts => by
    rw [List.append_nil]
    rfl
  | j :: items, read, outer, ts => by
    have hcomma : Stage.step none (.afterItem outer read) .comma =
        some (.value (.array read :: outer)) := rfl
    simp only [itemTokens, List.cons_append, List.append_assoc]
    rw [run_token hcomma, run_tokens j]
    have hrest := run_itemTokens items (j :: read) outer ts
    simpa [deliver] using hrest

theorem run_memberTokens : ∀ (members read : Members) (outer : List Frame) (ts : List Token),
    Stage.run none (.afterMember outer read) (memberTokens members ++ ts) =
      Stage.run none (deliver (.object (read.reverse ++ members)) outer) ts
  | [], read, outer, ts => by
    rw [List.append_nil]
    rfl
  | (key, j) :: members, read, outer, ts => by
    have hcomma : Stage.step none (.afterMember outer read) .comma = some (.key outer read) := rfl
    have hkey : Stage.step none (.key outer read) (.text key) = some (.colon outer read key) := rfl
    have hcolon : Stage.step none (.colon outer read key) .colon =
        some (.value (.object read key :: outer)) := rfl
    simp only [memberTokens, List.cons_append, List.append_assoc]
    rw [run_token hcomma, run_token hkey, run_token hcolon, run_tokens j]
    have hrest := run_memberTokens members ((key, j) :: read) outer ts
    simpa [deliver] using hrest

end

/-- **Every document is read back from its text.** -/
theorem parse?_print (j : Json) : parse? none j.print = some j := by
  have hread := run_tokens j [] []
  rw [List.append_nil] at hread
  rw [parse?, print, String.toList_ofList, tokens?_chars, Option.bind_some, hread]
  rfl

end DiskShell.Json
