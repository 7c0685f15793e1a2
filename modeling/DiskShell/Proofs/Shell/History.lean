import DiskShell.Proofs.Shell.Session
import DiskShell.Proofs.Text.Trim
import Mathlib.Data.List.Destutter
import Mathlib.Data.List.DropRight

/-!
What a history holds: of the entries that were pushed since it was last cleared those remain that
are neither blank nor a repetition (`remaining`), and of these it keeps the latest (`after_empty`).
An entry that is pushed out is never the newest, so it makes no difference to what is a repetition.
In a session one entry is pushed for each line, and a reset clears the history (`history_after`).
-/

namespace DiskShell.Shell

/-! ## Lists -/

section Lists

variable {α : Type} (l : List α)

theorem getLast?_rtake {n : Nat} (hn : 0 < n) : (l.rtake n).getLast? = l.getLast? := by
  rcases List.eq_nil_or_concat l with rfl | ⟨before, last, rfl⟩
  · rw [List.rtake_nil]
  · obtain ⟨n, rfl⟩ := Nat.exists_eq_succ_of_ne_zero hn.ne'
    rw [List.concat_eq_append, List.rtake_concat_succ, List.getLast?_concat, List.getLast?_concat]

theorem length_rtake (n : Nat) : (l.rtake n).length = min n l.length := by
  rw [List.rtake, List.length_drop]
  omega

theorem rtake_rtake {m n : Nat} (h : m ≤ n) : (l.rtake n).rtake m = l.rtake m := by
  rw [List.rtake, List.rtake, List.rtake, List.drop_drop, List.length_drop]
  congr 1
  omega

/-- Of a list with one more at the end the latest are found among the latest of the list. -/
theorem rtake_concat_rtake (a : α) (n : Nat) :
    (l.rtake n ++ [a]).rtake n = (l ++ [a]).rtake n := by
  cases n with
  | zero => rw [List.rtake_zero, List.rtake_zero]
  | succ n => rw [List.rtake_concat_succ, List.rtake_concat_succ, rtake_rtake l n.le_succ]

variable (R : α → α → Prop) [DecidableRel R]

/-- Whether one more is kept depends on the last that is kept. -/
theorem destutter'_concat (a x : α) :
    (l ++ [x]).destutter' R a =
      if (l.destutter' R a).getLast?.all fun last => R last x then l.destutter' R a ++ [x]
      else l.destutter' R a := by
  induction l generalizing a with
  | nil => simp [List.destutter'_cons]
  | cons b l ih =>
    rw [List.cons_append, List.destutter'_cons, List.destutter'_cons]
    by_cases hab : R a b
    · have hne : l.destutter' R b ≠ [] := List.destutter'_ne_nil l R
      have hlast : (a :: l.destutter' R b).getLast? = (l.destutter' R b).getLast? := by
        rw [List.getLast?_cons, List.getLast?_eq_some_getLast hne, Option.getD_some]
      rw [if_pos hab, if_pos hab, hlast, ih, apply_ite (List.cons a), List.cons_append]
    · rw [if_neg hab, if_neg hab, ih]

theorem destutter_concat (x : α) :
    (l ++ [x]).destutter R =
      if (l.destutter R).getLast?.all fun last => R last x then l.destutter R ++ [x]
      else l.destutter R := by
  cases l with
  | nil => rfl
  | cons a l => exact destutter'_concat l R a x

end Lists

/-! ## Entries that are kept -/

/-- An entry is blank if its input holds nothing but blanks. -/
theorem HistoryEntry.isBlank_eq (e : HistoryEntry) : e.isBlank = Text.isBlanks e.input := by
  rw [Bool.eq_iff_iff, isBlank, String.isEmpty_iff, Text.trim_eq_empty_iff]

namespace History

/-- The entries that are not blank, and of several in a row with the same input the first. -/
def remaining (es : List HistoryEntry) : List HistoryEntry :=
  (es.filter fun e => !Text.isBlanks e.input).destutter fun a b => a.input ≠ b.input

/-- Whether an entry is kept after others: it is not blank, and it does not repeat the input of the
one that was kept last. -/
def isKept (es : List HistoryEntry) (e : HistoryEntry) : Bool :=
  !Text.isBlanks e.input && (remaining es).getLast?.all fun last => last.input != e.input

theorem remaining_concat (es : List HistoryEntry) (e : HistoryEntry) :
    remaining (es ++ [e]) = if isKept es e then remaining es ++ [e] else remaining es := by
  cases hblank : Text.isBlanks e.input with
  | true => simp [remaining, isKept, hblank]
  | false =>
    have hfilter : (es ++ [e]).filter (fun e => !Text.isBlanks e.input) =
        (es.filter fun e => !Text.isBlanks e.input) ++ [e] := by
      simp [hblank]
    rw [remaining, hfilter, destutter_concat, ← remaining, isKept, hblank]
    simp [bne, beq_eq_decide]

/-! ## Pushes and clears -/

/-- What is done with a history. -/
inductive Step where
  | push (e : HistoryEntry)
  | clear
  deriving DecidableEq, Repr

def Step.entry? : Step → Option HistoryEntry
  | push e => some e
  | clear => none

/-- The entries that were pushed since the history was last cleared. -/
def pushed (steps : List Step) : List HistoryEntry :=
  (steps.rtakeWhile fun s => s.entry?.isSome).filterMap Step.entry?

theorem pushed_concat_push (steps : List Step) (e : HistoryEntry) :
    pushed (steps ++ [.push e]) = pushed steps ++ [e] := by
  rw [pushed, List.rtakeWhile_concat_pos _ _ _ rfl, List.filterMap_append]
  rfl

theorem pushed_concat_clear (steps : List Step) : pushed (steps ++ [.clear]) = [] := by
  rw [pushed, List.rtakeWhile_concat_neg _ _ _ (by simp [Step.entry?])]
  rfl

def perform (h : History) : Step → History
  | .push e => (h.push e).1
  | .clear => h.clear

def after (h : History) (steps : List Step) : History := steps.foldl perform h

/-- The history with the latest of the entries that are kept. -/
def latest (capacity : Nat) (es : List HistoryEntry) : History :=
  ⟨capacity, (remaining es).rtake capacity⟩

/-- What has been pushed out makes no difference to what is accepted. -/
theorem accepts_latest (capacity : Nat) (es : List HistoryEntry) (e : HistoryEntry) :
    (latest capacity es).accepts e = (decide (0 < capacity) && isKept es e) := by
  cases capacity with
  | zero => rfl
  | succ n =>
    rw [accepts, last?, latest, getLast?_rtake _ n.succ_pos, e.isBlank_eq, Bool.and_assoc,
      ← isKept]
    rfl

/-- **One push**: the latest of the entries that are kept stay the latest. -/
theorem push_latest (capacity : Nat) (es : List HistoryEntry) (e : HistoryEntry) :
    (latest capacity es).push e =
      (latest capacity (es ++ [e]), decide (0 < capacity) && isKept es e) := by
  rw [push, accepts_latest, latest, latest, remaining_concat]
  cases hkept : isKept es e with
  | false => simp
  | true =>
    cases capacity with
    | zero => simp [List.rtake_zero]
    | succ n =>
      have hlatest := rtake_concat_rtake (remaining es) e (n + 1)
      rw [List.rtake] at hlatest
      simpa using hlatest

/-- **After any pushes and clears** a history holds the latest of the entries that are kept. -/
theorem after_empty (capacity : Nat) (steps : List Step) :
    (empty capacity).after steps = latest capacity (pushed steps) := by
  induction steps using List.reverseRecOn with
  | nil => simp [after, latest, pushed, remaining, empty]
  | append_singleton steps s ih =>
    have hstep : (empty capacity).after (steps ++ [s]) =
        ((empty capacity).after steps).perform s := List.foldl_append ..
    rw [hstep, ih]
    cases s with
    | push e =>
      rw [pushed_concat_push]
      exact congrArg Prod.fst (push_latest capacity (pushed steps) e)
    | clear =>
      rw [pushed_concat_clear]
      simp [perform, clear, latest, remaining]

end History

/-! ## Sessions -/

namespace Session

variable {σ : Type} [Store σ]

/-- What an action does with the history: a line is pushed with the directory in which it was run
and the lines that it printed, a reset clears. -/
def historyStep (s : Session σ) : Action → History.Step
  | .line text => .push ⟨s.cwd, Text.trim text, (s.run text).2.lines⟩
  | .reset => .clear

/-- What actions do with the history, each in the session that the ones before have left. -/
def historySteps (s : Session σ) (actions : List Action) : List History.Step :=
  actions.mapIdx fun i a => (s.after (actions.take i)).historyStep a

theorem historySteps_cons (s : Session σ) (a : Action) (rest : List Action) :
    s.historySteps (a :: rest) = s.historyStep a :: (s.perform a).historySteps rest := by
  rw [historySteps, List.mapIdx_cons]
  rfl

theorem history_perform (s : Session σ) (a : Action) :
    (s.perform a).history = s.history.perform (s.historyStep a) := by
  cases a <;> rfl

theorem history_after (s : Session σ) (actions : List Action) :
    (s.after actions).history = s.history.after (s.historySteps actions) := by
  induction actions generalizing s with
  | nil => rfl
  | cons a rest ih =>
    rw [historySteps_cons]
    show ((s.perform a).after rest).history = (s.history.perform (s.historyStep a)).after _
    rw [ih, history_perform]

theorem config_after (s : Session σ) (actions : List Action) :
    (s.after actions).config = s.config :=
  after_induction (P := fun s' => s'.config = s.config) rfl
    (fun s' a h => by cases a <;> exact h) actions

open History in
/-- **A history is the latest of what is worth keeping.** After any pushes and clears it holds, in
their order, the latest of the entries kept since the last clear, as many as it has room for. A push
tells whether its entry is among those that are kept, unless there is no room for any. In a session
the entries are the lines run since the last reset, each with the directory in which it was run and
the lines that it printed; an agent is told the latest of them. -/
theorem history_holds_latest_kept :
    (∀ capacity steps,
      let h := (History.empty capacity).after steps
      let es := pushed steps
      h.entries = (remaining es).rtake capacity ∧
        h.entries.length = min capacity (remaining es).length ∧
        (∀ e, remaining (es ++ [e]) = if isKept es e then remaining es ++ [e] else remaining es) ∧
        (∀ e, (h.push e).2 = (decide (0 < capacity) && isKept es e)) ∧
        ∀ n, h.recent n <:+ h.entries ∧ (h.recent n).length = min n h.entries.length) ∧
    ∀ (d : Disk σ) config actions,
      let s := (start d config).after actions
      let es := pushed ((start d config).historySteps actions)
      s.history.entries = (remaining es).rtake config.historyCapacity ∧
        s.briefing.history =
          ((remaining es).rtake config.historyCapacity).rtake config.agentHistory := by
  refine ⟨fun capacity steps => ?_, fun d config actions => ?_⟩
  · intro h es
    have hh : h = .latest capacity es := History.after_empty capacity steps
    have hentries : h.entries = (remaining es).rtake capacity := by rw [hh, History.latest]
    refine ⟨hentries, ?_, remaining_concat es, fun e => ?_, fun n => ?_⟩
    · rw [hentries, length_rtake]
    · rw [hh, History.push_latest]
    · exact ⟨List.drop_suffix _ _, length_rtake h.entries n⟩
  · intro s es
    have hhistory : s.history = .latest config.historyCapacity es :=
      (history_after (start d config) actions).trans (History.after_empty _ _)
    have hconfig : s.config = config := config_after (start d config) actions
    have hentries : s.history.entries = (remaining es).rtake config.historyCapacity := by
      rw [hhistory, History.latest]
    refine ⟨hentries, ?_⟩
    rw [briefing, Briefing.ofDisk, History.recent, ← List.rtake, hentries, hconfig]

end Session

end DiskShell.Shell
