import DiskShell.Json.Basic
import DiskShell.Proofs.Lookup

/-!
Members of objects by key. The last member with a key counts, so what is put in front of it, or
stands under another key, does not.
-/

namespace DiskShell.Json

variable {name : String} {members before after : Members}

theorem field?_append (name : String) (xs ys : Members) :
    field? name (xs ++ ys) = (field? name ys).or (field? name xs) := by
  rw [field?, List.reverse_append, List.lookup_append]
  rfl

theorem field?_cons (name : String) (key : Option String) (j : Json) (rest : Members) :
    field? name ((key, j) :: rest) =
      (field? name rest).or (if key = some name then some j else none) := by
  rw [field?, List.reverse_cons, List.lookup_append, field?, lookup_cons_eq, List.lookup_nil]

theorem field?_eq_none (h : some name ∉ members.map Prod.fst) :
    field? name members = none := by
  rw [field?, List.lookup_eq_none_iff]
  intro m hm
  have hne : some name ≠ m.1 := by
    rintro he
    exact h (he ▸ List.mem_map_of_mem (List.mem_reverse.mp hm))
  simpa using hne

theorem field?_insert_of_ne {key : Option String} (h : key ≠ some name) (j : Json)
    (before after : Members) :
    field? name (before ++ (key, j) :: after) = field? name (before ++ after) := by
  rw [field?_append, field?_append, field?_cons, if_neg h, Option.or_none]

theorem field?_insert_self (hmissing : some name ∉ (before ++ after).map Prod.fst) (j : Json) :
    field? name (before ++ (some name, j) :: after) = some j := by
  have hafter : field? name after = none := by
    refine field?_eq_none fun h => hmissing ?_
    rw [List.map_append]
    exact List.mem_append_right _ h
  rw [field?_append, field?_cons, hafter, if_pos rfl]
  rfl

theorem any_eq_isSome (name : String) (members : Members) :
    (members.any fun m => m.1 == some name) = (field? name members).isSome := by
  induction members with
  | nil => rfl
  | cons m rest ih =>
    rw [List.any_cons, ih, field?_cons, Option.isSome_or, Bool.or_comm]
    by_cases h : m.1 = some name <;> simp [h]

theorem text?_eq_some_iff {j : Json} {s : String} : j.text? = some s ↔ j = .ofString s := by
  cases j with
  | text o => exact (Json.text.injEq o (some s)).to_iff.symm
  | _ => simp [Json.text?, Json.ofString]

end DiskShell.Json
