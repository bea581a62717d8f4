import Mathlib.Data.List.Basic
import Mathlib.Logic.Function.Basic
import Mathlib.Algebra.Order.Ring.Int

/-!
A circular buffer of `cap` slots indexed by integers. The value written `back` writes
before the latest one lies `back + 1` slots behind the next free slot.
-/
namespace RingHistory
variable {α : Type}

/-- The slots hold the latest `cap` values of a history given newest first. -/
structure Remembers (cap : ℤ) (slots : ℤ → α) (idx : ℤ) (recent : List α) : Prop where
  low : 0 ≤ idx
  high : idx < cap
  read : ∀ back : ℕ, (back : ℤ) < cap → ∀ x, recent[back]? = some x →
    slots ((idx - 1 - back) % cap) = x

variable {cap idx : ℤ} {slots : ℤ → α} {recent : List α}

theorem remembers_nothing (positive : 0 < cap) (slots : ℤ → α) : Remembers cap slots 0 [] :=
  ⟨le_rfl, positive, fun _ _ _ absent => by simp at absent⟩

theorem behind_next (back : ℕ) :
    ((idx + 1) % cap - 1 - ((back + 1 : ℕ) : ℤ)) % cap = (idx - 1 - back) % cap := by
  rw [Int.sub_sub, Int.emod_sub_emod]
  congr 1
  omega

theorem next_slot_distinct (low : 0 ≤ idx) (high : idx < cap) {back : ℕ}
    (inside : ((back + 1 : ℕ) : ℤ) < cap) : (idx - 1 - back) % cap ≠ idx := by
  have shift : idx - 1 - back = idx - ((back + 1 : ℕ) : ℤ) := by omega
  rw [shift]
  by_cases wraps : idx < ((back + 1 : ℕ) : ℤ)
  · rw [← Int.add_emod_right, Int.emod_eq_of_lt (by omega) (by omega)]
    omega
  · rw [Int.emod_eq_of_lt (by omega) (by omega)]
    omega

/-- One write moves every remembered value one place back. -/
theorem remembers_push (holds : Remembers cap slots idx recent) (x : α) :
    Remembers cap (Function.update slots idx x) ((idx + 1) % cap) (x :: recent) := by
  have positive : 0 < cap := lt_of_le_of_lt holds.low holds.high
  refine ⟨Int.emod_nonneg _ positive.ne', Int.emod_lt_of_pos _ positive, ?_⟩
  intro back inside y found
  cases back with
  | zero =>
    have same : ((idx + 1) % cap - 1 - ((0 : ℕ) : ℤ)) % cap = idx := by
      rw [Int.sub_sub, Int.emod_sub_emod]
      simpa using Int.emod_eq_of_lt holds.low holds.high
    rw [same, Function.update_self]
    simpa using found
  | succ back =>
    rw [behind_next, Function.update_of_ne (next_slot_distinct holds.low holds.high inside)]
    exact holds.read back (by omega) y (by simpa using found)

end RingHistory
