import Mathlib.Tactic

/-!
The logic of SQL. A condition over columns that may be null is true, false or
unknown; a filter keeps what is true, and a case expression takes the first branch
whose condition is true.
-/

namespace Sql

/-- A condition, unknown where a null keeps it from being decided. -/
abbrev Truth := Option Bool

/-- `a | b`: true beats unknown, unknown beats false. -/
def either : Truth → Truth → Truth
  | some true, _ => some true
  | _, some true => some true
  | some false, some false => some false
  | _, _ => none

/-- A filter keeps the row. -/
def holds : Truth → Bool
  | some b => b
  | none => false

/-- `when(c, v).when(...).otherwise(None)`. -/
def caseWhen {α : Type*} : List (Truth × Option α) → Option α
  | [] => none
  | (condition, value) :: rest => if holds condition then value else caseWhen rest

/-- A comparison is unknown for a null. -/
def test {α : Type*} (p : α → Bool) (column : Option α) : Truth := column.map p

@[simp] theorem holds_either (a b : Truth) : holds (either a b) = (holds a || holds b) := by
  rcases a with _ | _ | _ <;> rcases b with _ | _ | _ <;> rfl

theorem holds_test {α : Type*} {p : α → Bool} {column : Option α} :
    holds (test p column) = true ↔ ∃ x, column = some x ∧ p x = true := by
  cases column <;> simp [test, holds]

/-- A case expression whose branches have a value is null exactly when no condition
is true. -/
theorem isSome_caseWhen {α : Type*} {branches : List (Truth × Option α)}
    (hvalues : ∀ branch ∈ branches, holds branch.1 = true → branch.2.isSome) :
    (caseWhen branches).isSome = branches.any (fun branch => holds branch.1) := by
  induction branches with
  | nil => rfl
  | cons branch rest ih =>
      obtain ⟨hfirst, hrest⟩ := List.forall_mem_cons.mp hvalues
      rw [caseWhen, List.any_cons]
      cases hbranch : holds branch.1 with
      | true => rw [if_pos rfl, hfirst hbranch, Bool.true_or]
      | false => rw [if_neg Bool.false_ne_true, ih hrest, Bool.false_or]

/-- The value of a case expression is that of one of its true branches. -/
theorem caseWhen_mem {α : Type*} {branches : List (Truth × Option α)} {value : α}
    (h : caseWhen branches = some value) :
    ∃ branch ∈ branches, holds branch.1 = true ∧ branch.2 = some value := by
  induction branches with
  | nil => cases h
  | cons branch rest ih =>
      rw [caseWhen] at h
      split_ifs at h with hbranch
      · exact ⟨branch, List.mem_cons_self, hbranch, h⟩
      · obtain ⟨found, hmem, hfound⟩ := ih h
        exact ⟨found, List.mem_cons_of_mem _ hmem, hfound⟩

end Sql
