import DiskShell.Node
import DiskShell.Proofs.Lookup

/-!
Directories as maps that keep the order of their names: what looking up, inserting and removing say
about each other, and about the names. Nothing here assumes that the names differ.
-/

namespace DiskShell.Directory

/-! ## Looking up -/

theorem child?_cons (m name : String) (x : Node) (rest : Directory) :
    child? ((m, x) :: rest) name = if m = name then some x else child? rest name :=
  lookup_cons_eq m name x rest

theorem mem_of_child? {d : Directory} {name : String} {n : Node} (h : d.child? name = some n) :
    (name, n) ∈ d := mem_of_lookup h

/-- Where no two names are the same, every entry is found under its name. -/
theorem child?_eq_some_iff_mem {d : Directory} (hd : d.names.Nodup) {name : String} {n : Node} :
    d.child? name = some n ↔ (name, n) ∈ d := lookup_eq_some_iff_mem hd

theorem not_mem_names_iff {d : Directory} {name : String} :
    name ∉ d.names ↔ d.child? name = none := by
  induction d with
  | nil => simp [names, child?]
  | cons e rest ih =>
    obtain ⟨m, x⟩ := e
    rw [child?_cons]
    by_cases h : m = name
    · simp [names, h]
    · have hne : name ≠ m := fun he => h he.symm
      rw [if_neg h, ← ih]
      simp [names, hne]

theorem contains_eq_isSome (d : Directory) (name : String) :
    d.contains name = (d.child? name).isSome := by
  induction d with
  | nil => rfl
  | cons e rest ih =>
    obtain ⟨m, x⟩ := e
    rw [child?_cons]
    by_cases h : m = name
    · simp [contains, h]
    · rw [if_neg h, ← ih]
      simp [contains, h]

/-! ## Inserting -/

theorem mem_insert {d : Directory} {name : String} {n : Node} {e : String × Node}
    (h : e ∈ d.insert name n) : e = (name, n) ∨ e ∈ d := by
  induction d with
  | nil => exact Or.inl (List.mem_singleton.mp h)
  | cons x rest ih =>
    obtain ⟨m, y⟩ := x
    unfold insert at h
    split at h
    · rcases List.mem_cons.mp h with h | h
      · exact Or.inl h
      · exact Or.inr (List.mem_cons_of_mem _ h)
    · rcases List.mem_cons.mp h with h | h
      · exact Or.inr (List.mem_cons.mpr (Or.inl h))
      · rcases ih h with h | h
        · exact Or.inl h
        · exact Or.inr (List.mem_cons_of_mem _ h)

theorem insert_of_not_mem {d : Directory} {name : String} (h : name ∉ d.names) (n : Node) :
    d.insert name n = d ++ [(name, n)] := by
  induction d with
  | nil => rfl
  | cons e rest ih =>
    obtain ⟨m, x⟩ := e
    have hm : m ≠ name := by
      rintro rfl
      exact h (List.mem_cons_self ..)
    have hrest : name ∉ names rest := fun hr => h (List.mem_cons_of_mem _ hr)
    simp [insert, hm, ih hrest]

theorem names_insert_of_mem {d : Directory} {name : String} (h : name ∈ d.names) (n : Node) :
    (d.insert name n).names = d.names := by
  induction d with
  | nil => cases h
  | cons e rest ih =>
    obtain ⟨m, x⟩ := e
    by_cases hm : m = name
    · simp [insert, names, hm]
    · have hrest : name ∈ names rest := by
        rcases List.mem_cons.mp h with he | hr
        · exact absurd he.symm hm
        · exact hr
      simpa [insert, names, hm] using ih hrest

/-- The names with those new ones at the end that were missing. -/
def enlist (names new : List String) : List String := names ++ new.filter (· ∉ names)

theorem names_insert (d : Directory) (name : String) (n : Node) :
    (d.insert name n).names = enlist d.names [name] := by
  by_cases h : name ∈ d.names
  · rw [names_insert_of_mem h]
    simp [enlist, h]
  · have hmissing : [name].filter (· ∉ d.names) = [name] := by simp [h]
    rw [insert_of_not_mem h, enlist, hmissing, names, List.map_append]
    rfl

theorem nodup_names_insert {d : Directory} (h : d.names.Nodup) (name : String) (n : Node) :
    (d.insert name n).names.Nodup := by
  by_cases hm : name ∈ d.names
  · rw [names_insert_of_mem hm]
    exact h
  · rw [insert_of_not_mem hm, names, List.map_append]
    refine List.nodup_append.mpr ⟨h, by simp, ?_⟩
    intro a ha b hb he
    have hname : b = name := by simpa using hb
    rw [he, hname] at ha
    exact hm ha

theorem child?_insert_self (d : Directory) (name : String) (n : Node) :
    (d.insert name n).child? name = some n := by
  induction d with
  | nil => simp [insert, child?_cons]
  | cons e rest ih =>
    obtain ⟨m, x⟩ := e
    by_cases hm : m = name <;> simp [insert, child?_cons, hm, ih]

theorem child?_insert_of_ne {m name : String} (h : m ≠ name) (d : Directory) (n : Node) :
    (d.insert name n).child? m = d.child? m := by
  have hne : name ≠ m := fun he => h he.symm
  induction d with
  | nil => simp [insert, child?_cons, hne]
  | cons e rest ih =>
    obtain ⟨k, x⟩ := e
    by_cases hk : k = name
    · subst hk
      simp [insert, child?_cons, hne]
    · simp [insert, child?_cons, hk, ih]

/-- To put a node back where it was found changes nothing. -/
theorem insert_child? {d : Directory} {name : String} {n : Node} (h : d.child? name = some n) :
    d.insert name n = d := by
  induction d with
  | nil => cases h
  | cons e rest ih =>
    obtain ⟨m, x⟩ := e
    rw [child?_cons] at h
    by_cases hm : m = name
    · rw [if_pos hm] at h
      cases h
      simp [insert, hm]
    · rw [if_neg hm] at h
      simp [insert, hm, ih h]

theorem insert_insert (d : Directory) (name : String) (x y : Node) :
    (d.insert name x).insert name y = d.insert name y := by
  induction d with
  | nil => simp [insert]
  | cons e rest ih =>
    obtain ⟨m, z⟩ := e
    by_cases hm : m = name <;> simp [insert, hm, ih]

/-! ## Places -/

/-- The place of a name holds the node that a look-up finds. -/
theorem map_found_slot? (d : Directory) (name : String) :
    (d.slot? name).map Slot.found = d.child? name := by
  induction d with
  | nil => rfl
  | cons e rest ih =>
    obtain ⟨m, x⟩ := e
    rw [slot?, child?_cons, ← ih]
    by_cases hm : m = name <;> simp [hm, Function.comp_def]

/-- To put another node in a place, under the same name, is to insert it. -/
theorem put_slot? {d : Directory} {name : String} {s : Slot} (h : d.slot? name = some s)
    (n : Node) : s.put (name, n) = d.insert name n := by
  induction d generalizing s with
  | nil => cases h
  | cons e rest ih =>
    obtain ⟨m, x⟩ := e
    rw [slot?] at h
    by_cases hm : m = name
    · rw [if_pos hm] at h
      cases h
      simp [insert, hm]
    · rw [if_neg hm] at h
      obtain ⟨r, hr, rfl⟩ := Option.map_eq_some_iff.mp h
      simp [insert, hm, ih hr]

/-! ## Inserting one after another -/

def insertEach (d : Directory) (es : List (String × Node)) : Directory :=
  es.foldl (fun d e => d.insert e.1 e.2) d

/-- New names come in the order in which each is given first. -/
theorem names_insertEach (d : Directory) (es : List (String × Node)) :
    (d.insertEach es).names =
      d.names ++ ((es.map Prod.fst).filter (· ∉ d.names)).eraseDups := by
  induction es generalizing d with
  | nil => simp [insertEach]
  | cons e rest ih =>
    obtain ⟨name, n⟩ := e
    rw [insertEach, List.foldl_cons, ← insertEach, ih]
    by_cases h : name ∈ d.names
    · rw [names_insert_of_mem h]
      simp [h]
    · have hnames : (d.insert name n).names = d.names ++ [name] := by
        rw [insert_of_not_mem h, names, List.map_append]
        rfl
      have hfilter : (rest.map Prod.fst).filter (· ∉ d.names ++ [name]) =
          ((rest.map Prod.fst).filter (· ∉ d.names)).filter fun m => !m == name := by
        rw [List.filter_filter]
        refine List.filter_congr fun m _ => ?_
        by_cases hm : m = name <;> simp [hm]
      rw [hnames, hfilter, List.map_cons, List.filter_cons_of_pos (by simpa using h),
        List.eraseDups_cons, List.append_assoc]
      rfl

/-- Of several nodes given under one name the last is kept. -/
theorem child?_insertEach (d : Directory) (es : List (String × Node)) (name : String) :
    (d.insertEach es).child? name = (es.reverse.lookup name).or (d.child? name) := by
  induction es generalizing d with
  | nil => rfl
  | cons e rest ih =>
    obtain ⟨m, n⟩ := e
    rw [insertEach, List.foldl_cons, ← insertEach, ih, List.reverse_cons, List.lookup_append,
      Option.or_assoc, lookup_cons_eq, List.lookup_nil]
    congr 1
    by_cases hm : m = name
    · subst hm
      simp [child?_insert_self]
    · have hne : name ≠ m := fun he => hm he.symm
      rw [child?_insert_of_ne hne, if_neg hm, Option.none_or]

theorem nodup_names_insertEach {d : Directory} (h : d.names.Nodup) (es : List (String × Node)) :
    (d.insertEach es).names.Nodup := by
  induction es generalizing d with
  | nil => exact h
  | cons e rest ih => exact ih (nodup_names_insert h e.1 e.2)

/-! ## Removing -/

/-- Removal finds the node that a look-up finds, and takes its entry out. -/
theorem remove?_eq (d : Directory) (name : String) :
    d.remove? name = (d.child? name).map fun n => (n, d.eraseP fun e => e.1 == name) := by
  induction d with
  | nil => rfl
  | cons e rest ih =>
    obtain ⟨m, x⟩ := e
    rw [remove?, child?_cons]
    by_cases hm : m = name
    · simp [hm]
    · rw [if_neg hm, if_neg hm, ih]
      cases child? rest name <;> simp [hm]

theorem names_eraseP (d : Directory) (name : String) :
    names (d.eraseP fun e => e.1 == name) = d.names.erase name := by
  rw [names, names, List.erase_eq_eraseP', List.eraseP_map]
  rfl

theorem child?_eraseP_of_ne {m name : String} (h : m ≠ name) (d : Directory) :
    child? (d.eraseP fun e => e.1 == name) m = d.child? m := by
  induction d with
  | nil => rfl
  | cons e rest ih =>
    obtain ⟨k, x⟩ := e
    by_cases hk : k = name
    · subst hk
      have hne : k ≠ m := fun he => h he.symm
      simp [child?_cons, hne]
    · simp [child?_cons, hk, ih]

/-- With the entry the name is gone, where it stands once. -/
theorem child?_eraseP_self {d : Directory} (h : d.names.Nodup) (name : String) :
    child? (d.eraseP fun e => e.1 == name) name = none := by
  rw [← not_mem_names_iff, names_eraseP]
  exact h.not_mem_erase

end DiskShell.Directory
