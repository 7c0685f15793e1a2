import Mathlib.Data.Set.Card
import DiskShell.Proofs.Node.Directory

/-!
Directories that come about by insertions and removals. Such a directory is a map that keeps the
order of its names (`insertion_ordered_map`): what it holds under a name, and which names come before
which, is read off the log of the edits, without the directory. A time is a position in the log.
-/

namespace DiskShell.Directory

/-! ## Logs -/

inductive Edit where
  | insert (name : String) (n : Node)
  | remove (name : String)
  deriving DecidableEq, Repr

def Edit.name : Edit → String
  | insert name _ => name
  | remove name => name

/-- A name that is missing can be removed, and then nothing changes. -/
def perform (d : Directory) : Edit → Directory
  | .insert name n => d.insert name n
  | .remove name => ((d.remove? name).map Prod.snd).getD d

/-- The directory that was empty before the first edit. -/
def ofLog (log : List Edit) : Directory := log.foldl perform []

/-- The node of the latest insertion under the name, if no edit under that name came after it. -/
def IsLatest (log : List Edit) (name : String) (n : Node) : Prop :=
  ∃ time : Nat, log[time]? = some (.insert name n) ∧
    ∀ later e, time < later → log[later]? = some e → e.name ≠ name

/-- The time at which a name came in: the first insertion under it since its last removal. -/
structure EnteredAt (log : List Edit) (name : String) (time : Nat) : Prop where
  inserted : ∃ n, log[time]? = some (.insert name n)
  kept : ∀ later, time < later → log[later]? ≠ some (.remove name)
  first : ∀ earlier n, earlier < time → log[earlier]? = some (.insert name n) →
    ∃ between, earlier < between ∧ between < time ∧ log[between]? = some (.remove name)

def EnteredBefore (log : List Edit) (a b : String) : Prop :=
  ∃ s t, EnteredAt log a s ∧ EnteredAt log b t ∧ s < t

/-- The directory holds, and lists, what the log says. -/
structure AsLogged (log : List Edit) (d : Directory) : Prop where
  nodup : d.names.Nodup
  child?_eq_some_iff : ∀ name n, d.child? name = some n ↔ IsLatest log name n
  mem_names_iff : ∀ name, name ∈ d.names ↔ ∃! time, EnteredAt log name time
  ordered : d.names.Pairwise (EnteredBefore log)

variable {log : List Edit} {e e' : Edit} {name : String} {n : Node} {time s t : Nat}

/-! ## One more edit -/

theorem ofLog_concat (log : List Edit) (e : Edit) :
    ofLog (log ++ [e]) = (ofLog log).perform e := by
  rw [ofLog, List.foldl_append]
  rfl

theorem perform_remove (d : Directory) (name : String) :
    d.perform (.remove name) = d.eraseP fun e => e.1 == name := by
  rw [perform, remove?_eq]
  cases hchild : d.child? name with
  | some n => rfl
  | none =>
    have hmissing := not_mem_names_iff.mpr hchild
    refine (List.eraseP_of_forall_not fun e he heq => hmissing ?_).symm
    rw [← beq_iff_eq.mp heq]
    exact List.mem_map_of_mem he

theorem names_perform_remove (d : Directory) (name : String) :
    (d.perform (.remove name)).names = d.names.erase name := by
  rw [perform_remove, names_eraseP]

theorem lt_length_of_getElem? (h : log[time]? = some e) : time < log.length :=
  (List.getElem?_eq_some_iff.mp h).1

theorem getElem?_concat_eq_some_iff :
    (log ++ [e])[time]? = some e' ↔ log[time]? = some e' ∨ (time = log.length ∧ e = e') := by
  rcases Nat.lt_trichotomy time log.length with hlt | heq | hgt
  · simp [List.getElem?_append_left hlt, Nat.ne_of_lt hlt]
  · simp [heq]
  · have hnone : log[time]? = none := List.getElem?_eq_none (Nat.le_of_lt hgt)
    have hnone' : (log ++ [e])[time]? = none := List.getElem?_eq_none (by simp; omega)
    simp [hnone, hnone', Nat.ne_of_gt hgt]

theorem getElem?_concat_of_some (h : log[time]? = some e') : (log ++ [e])[time]? = some e' :=
  getElem?_concat_eq_some_iff.mpr (Or.inl h)

/-- After the last edit of a log there is none. -/
theorem not_getElem?_concat (h : log.length < time) : (log ++ [e])[time]? ≠ some e' := by
  intro he
  have hlt := lt_length_of_getElem? he
  rw [List.length_append, List.length_singleton] at hlt
  omega

theorem isLatest_concat_iff :
    IsLatest (log ++ [e]) name n ↔
      e = .insert name n ∨ (e.name ≠ name ∧ IsLatest log name n) := by
  constructor
  · rintro ⟨time, htime, hlater⟩
    rcases getElem?_concat_eq_some_iff.mp htime with hold | ⟨-, rfl⟩
    · refine Or.inr ⟨hlater log.length e (lt_length_of_getElem? hold) (by simp), time, hold, ?_⟩
      intro later e' hlt he'
      exact hlater later e' hlt (getElem?_concat_of_some he')
    · exact Or.inl rfl
  · rintro (rfl | ⟨hne, time, htime, hlater⟩)
    · exact ⟨log.length, by simp, fun later e hlt he => absurd he (not_getElem?_concat hlt)⟩
    · refine ⟨time, getElem?_concat_of_some htime, fun later e' hlt he' => ?_⟩
      rcases getElem?_concat_eq_some_iff.mp he' with hold | ⟨-, rfl⟩
      · exact hlater later e' hlt hold
      · exact hne

/-! ## Nodes -/

theorem nodup_names_ofLog (log : List Edit) : (ofLog log).names.Nodup := by
  induction log using List.reverseRecOn with
  | nil => exact List.nodup_nil
  | append_singleton log e ih =>
    rw [ofLog_concat]
    cases e with
    | insert name n => exact nodup_names_insert ih name n
    | remove name =>
      rw [names_perform_remove]
      exact ih.erase name

/-- **Under a name lies what the latest insertion has put there**, unless the name was removed. -/
theorem child?_ofLog_eq_some_iff (log : List Edit) (name : String) (n : Node) :
    (ofLog log).child? name = some n ↔ IsLatest log name n := by
  induction log using List.reverseRecOn with
  | nil => simp [ofLog, child?, IsLatest]
  | append_singleton log e ih =>
    rw [ofLog_concat, isLatest_concat_iff, ← ih]
    cases e with
    | insert m x =>
      by_cases hm : m = name
      · subst hm
        simp [perform, child?_insert_self, Edit.name]
      · have hne : name ≠ m := fun he => hm he.symm
        simp [perform, child?_insert_of_ne hne, Edit.name, hm]
    | remove m =>
      rw [perform_remove]
      by_cases hm : m = name
      · subst hm
        simp [child?_eraseP_self (nodup_names_ofLog log), Edit.name]
      · have hne : name ≠ m := fun he => hm he.symm
        simp [child?_eraseP_of_ne hne, Edit.name, hm]

/-! ## Times -/

theorem EnteredAt.lt_length (h : EnteredAt log name time) : time < log.length := by
  obtain ⟨n, hn⟩ := h.inserted
  exact lt_length_of_getElem? hn

theorem EnteredAt.unique (hs : EnteredAt log name s) (ht : EnteredAt log name t) : s = t := by
  have hnot : ∀ {s t}, EnteredAt log name s → EnteredAt log name t → ¬ s < t := by
    intro s t hs ht hlt
    obtain ⟨n, hn⟩ := hs.inserted
    obtain ⟨between, hafter, -, hremoved⟩ := ht.first s n hlt hn
    exact hs.kept between hafter hremoved
  exact Nat.le_antisymm (Nat.not_lt.mp (hnot ht hs)) (Nat.not_lt.mp (hnot hs ht))

theorem insert_ne_remove (m : String) (x : Node) (name : String) :
    Edit.insert m x ≠ .remove name := by
  intro h
  cases h

/-- Only its removal makes a name come in anew. -/
theorem EnteredAt.concat (h : EnteredAt log name time) (he : e ≠ .remove name) :
    EnteredAt (log ++ [e]) name time := by
  constructor
  case inserted =>
    exact h.inserted.imp fun n hn => getElem?_concat_of_some hn
  case kept =>
    intro later hlt hlater
    rcases getElem?_concat_eq_some_iff.mp hlater with hold | ⟨-, hnew⟩
    · exact h.kept later hlt hold
    · exact he hnew
  case first =>
    intro earlier n hlt hearlier
    rcases getElem?_concat_eq_some_iff.mp hearlier with hold | ⟨heq, -⟩
    · obtain ⟨between, hafter, hbefore, hremoved⟩ := h.first earlier n hlt hold
      exact ⟨between, hafter, hbefore, getElem?_concat_of_some hremoved⟩
    · have hlength := h.lt_length
      omega

theorem EnteredBefore.concat {a b : String} (h : EnteredBefore log a b) (ha : e ≠ .remove a)
    (hb : e ≠ .remove b) : EnteredBefore (log ++ [e]) a b := by
  obtain ⟨s, t, hs, ht, hlt⟩ := h
  exact ⟨s, t, hs.concat ha, ht.concat hb, hlt⟩

/-- Where a name is missing, each insertion under it has been undone. -/
theorem exists_removal (hname : name ∉ (ofLog log).names)
    (htime : log[time]? = some (.insert name n)) :
    ∃ later, time < later ∧ log[later]? = some (.remove name) := by
  induction log using List.reverseRecOn with
  | nil => cases htime
  | append_singleton log e ih =>
    have hearlier (hmissing : name ∉ (ofLog log).names) (hold : log[time]? = some (.insert name n)) :
        ∃ later, time < later ∧ (log ++ [e])[later]? = some (.remove name) := by
      obtain ⟨later, hlt, hremoved⟩ := ih hmissing hold
      exact ⟨later, hlt, getElem?_concat_of_some hremoved⟩
    rw [ofLog_concat] at hname
    rcases getElem?_concat_eq_some_iff.mp htime with hold | ⟨-, rfl⟩
    · cases e with
      | insert m x =>
        rw [perform, names_insert, enlist, List.mem_append, not_or] at hname
        exact hearlier hname.1 hold
      | remove m =>
        by_cases hm : m = name
        · subst hm
          exact ⟨log.length, lt_length_of_getElem? hold, by simp⟩
        · have hne : name ≠ m := fun he => hm he.symm
          rw [names_perform_remove, List.mem_erase_of_ne hne] at hname
          exact hearlier hname hold
    · -- the last edit inserts the name, so it is not missing
      have hfound := child?_insert_self (ofLog log) name n
      rw [perform, not_mem_names_iff, hfound] at hname
      cases hname

theorem EnteredAt.mem_names (h : EnteredAt log name time) : name ∈ (ofLog log).names := by
  obtain ⟨n, hn⟩ := h.inserted
  by_contra hmissing
  obtain ⟨later, hlt, hremoved⟩ := exists_removal hmissing hn
  exact h.kept later hlt hremoved

/-- A name that is missing comes in with the edit that inserts it. -/
theorem enteredAt_length (hname : name ∉ (ofLog log).names) (n : Node) :
    EnteredAt (log ++ [.insert name n]) name log.length := by
  refine ⟨⟨n, by simp⟩, fun later hlt => not_getElem?_concat hlt, ?_⟩
  intro earlier x hlt hearlier
  rcases getElem?_concat_eq_some_iff.mp hearlier with hold | ⟨heq, -⟩
  · obtain ⟨later, hafter, hremoved⟩ := exists_removal hname hold
    exact ⟨later, hafter, lt_length_of_getElem? hremoved,
      getElem?_concat_of_some hremoved⟩
  · omega

theorem exists_enteredAt (h : name ∈ (ofLog log).names) : ∃ time, EnteredAt log name time := by
  induction log using List.reverseRecOn with
  | nil => cases h
  | append_singleton log e ih =>
    rw [ofLog_concat] at h
    cases e with
    | insert m x =>
      by_cases hold : name ∈ (ofLog log).names
      · obtain ⟨time, htime⟩ := ih hold
        exact ⟨time, htime.concat (insert_ne_remove m x name)⟩
      · rw [perform, names_insert, enlist, List.mem_append] at h
        obtain ⟨hm, -⟩ := List.mem_filter.mp (h.resolve_left hold)
        rw [List.mem_singleton.mp hm] at hold ⊢
        exact ⟨log.length, enteredAt_length hold x⟩
    | remove m =>
      rw [names_perform_remove, (nodup_names_ofLog log).mem_erase_iff] at h
      obtain ⟨time, htime⟩ := ih h.2
      refine ⟨time, htime.concat fun he => h.1 ?_⟩
      cases he
      rfl

/-- **The names stand in the order in which they came in.** A new one is put at the end, one that is
there keeps its place, and a removal leaves the others as they stand. -/
theorem pairwise_names_ofLog (log : List Edit) :
    (ofLog log).names.Pairwise (EnteredBefore log) := by
  induction log using List.reverseRecOn with
  | nil => exact List.Pairwise.nil
  | append_singleton log e ih =>
    rw [ofLog_concat]
    cases e with
    | insert name n =>
      have hne := insert_ne_remove name n
      have hold := ih.imp fun {a b} h => h.concat (hne a) (hne b)
      by_cases hname : name ∈ (ofLog log).names
      · rw [perform, names_insert_of_mem hname]
        exact hold
      · rw [perform, insert_of_not_mem hname, names, List.map_append, List.pairwise_append]
        refine ⟨hold, List.pairwise_singleton _ _, fun a ha b hb => ?_⟩
        obtain rfl : b = name := List.mem_singleton.mp hb
        obtain ⟨time, htime⟩ := exists_enteredAt ha
        exact ⟨time, log.length, htime.concat (hne a), enteredAt_length hname n, htime.lt_length⟩
    | remove name =>
      have hnodup := nodup_names_ofLog log
      rw [names_perform_remove]
      refine (ih.sublist List.erase_sublist).imp_of_mem fun ha hb h => h.concat ?_ ?_
      · rintro ⟨⟩
        exact (hnodup.mem_erase_iff.mp ha).1 rfl
      · rintro ⟨⟩
        exact (hnodup.mem_erase_iff.mp hb).1 rfl

theorem asLogged_ofLog (log : List Edit) : AsLogged log (ofLog log) where
  nodup := nodup_names_ofLog log
  child?_eq_some_iff := child?_ofLog_eq_some_iff log
  mem_names_iff name := by
    constructor
    · intro h
      obtain ⟨time, htime⟩ := exists_enteredAt h
      exact ⟨time, htime, fun other hother => hother.unique htime⟩
    · rintro ⟨time, htime, -⟩
      exact htime.mem_names
  ordered := pairwise_names_ofLog log

/-! ## An ordered map -/

theorem contains_eq_true_iff {d : Directory} :
    d.contains name = true ↔ ∃ n, d.child? name = some n := by
  rw [contains_eq_isSome, Option.isSome_iff_exists]

/-- There are as many entries as there are names that a look-up finds. -/
theorem length_eq_ncard {d : Directory} (hd : d.names.Nodup) :
    List.length d = {name | ∃ n, d.child? name = some n}.ncard := by
  have hset : {name | ∃ n, d.child? name = some n} = (d.names.toFinset : Set String) := by
    ext name
    have hmem : name ∈ d.names ↔ ¬ d.child? name = none := by
      rw [← not_mem_names_iff, not_not]
    simp [hmem, Option.ne_none_iff_exists']
  rw [hset, Set.ncard_coe_finset, List.toFinset_card_of_nodup hd, names, List.length_map]

/-- **A directory that comes about by insertions and removals is an insertion-ordered map.** Its names
differ. Under each lies the node of its latest insertion, unless it was removed after that; they stand
in the order of their first insertion since their last removal. What is removed is what a look-up
finds. The other ways to ask, and the way to a node that can be replaced, agree with the look-up. -/
theorem insertion_ordered_map (log : List Edit) :
    AsLogged log (ofLog log) ∧
      (∀ name, (ofLog log).remove? name =
        ((ofLog log).child? name).map fun n => (n, ofLog (log ++ [.remove name]))) ∧
      (∀ name, ((ofLog log).slot? name).map Slot.found = (ofLog log).child? name) ∧
      (∀ name n, ((ofLog log).slot? name).map (fun s => s.put (name, n)) =
        ((ofLog log).child? name).map fun _ => ofLog (log ++ [.insert name n])) ∧
      (∀ name, (ofLog log).contains name = true ↔ ∃ n, IsLatest log name n) ∧
      List.length (ofLog log) = {name | ∃ n, IsLatest log name n}.ncard := by
  have hmap := asLogged_ofLog log
  refine ⟨hmap, fun name => ?_, map_found_slot? (ofLog log), fun name n => ?_, fun name => ?_, ?_⟩
  · rw [ofLog_concat, perform_remove, remove?_eq]
  · rw [ofLog_concat, ← map_found_slot?, Option.map_map]
    exact Option.map_congr fun s hs => put_slot? hs n
  · simp only [contains_eq_true_iff, hmap.child?_eq_some_iff]
  · simp only [length_eq_ncard hmap.nodup, hmap.child?_eq_some_iff]

/-- A name that is inserted again keeps its place; one that was removed goes to the end. -/
example :
    ofLog [.insert "b" (.file "1"), .insert "a" (.file "2"), .insert "c" (.directory []),
      .insert "a" (.file "3"), .remove "b", .insert "b" (.file "4")] =
      [("a", .file "3"), ("c", .directory []), ("b", .file "4")] := by decide

end DiskShell.Directory
