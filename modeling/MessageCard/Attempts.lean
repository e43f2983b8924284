import MessageCard.Table

/-!
# Attempts

Each thing that is fetched has a budget of failures, counted under its key. When the budget is spent
nothing is tried any more until the key's count is forgotten.
-/
namespace MessageCard

namespace Attempts

/-- How many failures are allowed where nothing else is said. -/
def defaultLimit : Nat := 10

/-- The greatest count, at which counting stops: the greatest number of 32 bits. -/
def countLimit : Nat := 4294967295

end Attempts

/-- The failures so far, by key, and how many of them are allowed. All are numbers of 32 bits. -/
structure Attempts where
  limit : Nat
  failures : Table String Nat
  limit_le : limit ≤ Attempts.countLimit
  failures_le : ∀ key, (failures.find? key).getD 0 ≤ Attempts.countLimit

namespace Attempts

def ofLimit (limit : Nat) : Attempts where
  limit := min limit countLimit
  failures := .empty
  limit_le := Nat.min_le_right _ _
  failures_le _ := Nat.zero_le _

/-- The number of failures of a key. -/
def count (a : Attempts) (key : String) : Nat := (a.failures.find? key).getD 0

/-- Whether a key may be tried again. -/
def allows (a : Attempts) (key : String) : Bool := a.count key < a.limit

/-- One more failure of a key. -/
def fail (a : Attempts) (key : String) : Attempts :=
  { a with
    failures := a.failures.insert key (min (a.count key + 1) countLimit)
    failures_le := fun other => by
      rw [Table.find?_insert]
      split
      · exact Nat.min_le_right _ _
      · exact a.failures_le other }

/-- The failures of a key are forgotten. -/
def reset (a : Attempts) (key : String) : Attempts :=
  { a with
    failures := a.failures.erase key
    failures_le := fun other => by
      rw [Table.find?_erase]
      split
      · exact Nat.zero_le _
      · exact a.failures_le other }

@[simp] theorem count_ofLimit (limit : Nat) (key : String) : (ofLimit limit).count key = 0 := rfl

@[simp] theorem limit_ofLimit (limit : Nat) : (ofLimit limit).limit = min limit countLimit := rfl

@[simp] theorem limit_fail (a : Attempts) (key : String) : (a.fail key).limit = a.limit := rfl

@[simp] theorem limit_reset (a : Attempts) (key : String) : (a.reset key).limit = a.limit := rfl

theorem count_le (a : Attempts) (key : String) : a.count key ≤ countLimit := a.failures_le key

theorem allows_iff {a : Attempts} {key : String} : a.allows key = true ↔ a.count key < a.limit :=
  decide_eq_true_iff

theorem allows_eq_false_iff {a : Attempts} {key : String} :
    a.allows key = false ↔ a.limit ≤ a.count key := by
  rw [allows, decide_eq_false_iff_not, Nat.not_lt]

theorem count_fail (a : Attempts) (key other : String) :
    (a.fail key).count other =
      if key = other then min (a.count key + 1) countLimit else a.count other := by
  simp only [count, fail, Table.find?_insert]
  split <;> rfl

theorem count_reset (a : Attempts) (key other : String) :
    (a.reset key).count other = if key = other then 0 else a.count other := by
  simp only [count, reset, Table.find?_erase]
  split <;> rfl

theorem count_le_count_fail (a : Attempts) (key other : String) :
    a.count other ≤ (a.fail key).count other := by
  have hle := a.count_le other
  rw [count_fail]
  split
  · next h =>
    subst h
    omega
  · exact Nat.le_refl _

theorem count_fail_self (a : Attempts) (key : String) :
    (a.fail key).count key = min (a.count key + 1) countLimit := by
  rw [count_fail, if_pos rfl]

theorem count_fail_of_ne {key other : String} (h : key ≠ other) (a : Attempts) :
    (a.fail key).count other = a.count other := by
  rw [count_fail, if_neg h]

/-- While a key may be tried again its failures are counted one by one. -/
theorem count_fail_of_allows {a : Attempts} {key : String} (h : a.allows key = true) :
    (a.fail key).count key = a.count key + 1 := by
  have hlt := allows_iff.mp h
  have hle := a.limit_le
  rw [count_fail_self]
  omega

end Attempts
end MessageCard
