import Mathlib.Algebra.Order.Group.MinMax
import Mathlib.Algebra.BigOperators.Group.List.Basic
import Mathlib.Algebra.Order.Monoid.Unbundled.Pow

/-!
Spending an amount in slices of at most one tick each, until the whole amount is spent
or a flag, read before every slice, is seen set. The amounts are those of any linearly
ordered additive group. The readings of the flag are an arbitrary sequence, since the
flag may change between any two of them.
-/
namespace Slices
variable {α : Type} [AddCommGroup α] [LinearOrder α]

/-- Whether the whole amount was spent, and the slices in order. `none` while the loop
    is still running after `fuel` tests of its condition. -/
def spend (tick : α) (flag : ℕ → Bool) : ℕ → ℕ → α → Option (Bool × List α)
  | 0, _, _ => none
  | fuel + 1, seen, remaining =>
    if 0 < remaining then
      if flag seen then some (false, [])
      else
        (spend tick flag fuel (seen + 1) (remaining - min remaining tick)).map
          fun later => (later.1, min remaining tick :: later.2)
    else some (true, [])

/-- The slices of an amount: small, and adding up to all of it or to less. -/
structure Spent (tick amount : α) (outcome : Bool × List α) : Prop where
  small : ∀ slice ∈ outcome.2, 0 < slice ∧ slice ≤ tick
  whole : outcome.1 = true → outcome.2.sum = amount
  part : outcome.1 = false → outcome.2.sum < amount

variable [IsOrderedAddMonoid α] {tick : α} {flag : ℕ → Bool}

theorem rest_eq_max (amount : α) : amount - min amount tick = max 0 (amount - tick) := by
  rw [← max_sub_sub_left, sub_self]

theorem ticks_lt_rest_iff (positive : 0 < tick) (i : ℕ) (amount : α) :
    i • tick < amount - min amount tick ↔ (i + 1) • tick < amount := by
  rw [rest_eq_max, lt_max_iff, succ_nsmul, ← lt_sub_iff_add_lt]
  exact or_iff_right (not_lt.mpr (nsmul_nonneg positive.le i))

theorem spend_spent (positive : 0 < tick) {fuel seen : ℕ} {amount : α} {outcome : Bool × List α}
    (nonneg : 0 ≤ amount) (returned : spend tick flag fuel seen amount = some outcome) :
    Spent tick amount outcome := by
  fun_induction spend tick flag fuel seen amount generalizing outcome with
  | case1 => cases returned
  | case2 fuel seen amount owed stopped =>
    cases returned
    exact ⟨by simp, by simp, fun _ => by simpa using owed⟩
  | case3 fuel seen amount owed running ih =>
    obtain ⟨later, rest, rfl⟩ := Option.map_eq_some_iff.mp returned
    have tail := ih (sub_nonneg.mpr (min_le_left amount tick)) rest
    refine ⟨?_, ?_, ?_⟩
    · intro piece member
      rcases List.mem_cons.mp member with rfl | member
      · exact ⟨lt_min owed positive, min_le_right amount tick⟩
      · exact tail.small piece member
    · intro finished
      rw [List.sum_cons, tail.whole finished, add_sub_cancel]
    · intro stopped
      rw [List.sum_cons]
      exact lt_sub_iff_add_lt'.mp (tail.part stopped)
  | case4 fuel seen amount nothing =>
    cases returned
    have zero : amount = 0 := le_antisymm (not_lt.mp nothing) nonneg
    exact ⟨by simp, by simp [zero], by simp⟩

/-- The loop returns: an amount of at most `n` ticks is spent in at most `n` slices. -/
theorem spend_returns (positive : 0 < tick) {n fuel seen : ℕ} {amount : α}
    (bound : amount ≤ n • tick) (enough : n < fuel) :
    ∃ outcome, spend tick flag fuel seen amount = some outcome := by
  fun_induction spend tick flag fuel seen amount generalizing n with
  | case1 => exact absurd enough (Nat.not_lt_zero n)
  | case2 fuel seen amount owed stopped => exact ⟨_, rfl⟩
  | case3 fuel seen amount owed running ih =>
    cases n with
    | zero => exact absurd owed (by simpa using bound)
    | succ n =>
      have less : amount - min amount tick ≤ n • tick := by
        rw [← not_lt, ticks_lt_rest_iff positive n amount]
        exact not_lt.mpr bound
      obtain ⟨later, rest⟩ := ih less (Nat.lt_of_succ_lt_succ enough)
      exact ⟨_, by rw [rest]; rfl⟩
  | case4 fuel seen amount nothing => exact ⟨_, rfl⟩

/-- The loop is cut short exactly when the flag is set at one of the readings made before
    the amount is spent, the i-th of which comes after `i` whole ticks. -/
theorem spend_stopped_iff (positive : 0 < tick) {fuel seen : ℕ} {amount : α}
    {outcome : Bool × List α} (returned : spend tick flag fuel seen amount = some outcome) :
    outcome.1 = false ↔ ∃ i : ℕ, i • tick < amount ∧ flag (seen + i) = true := by
  fun_induction spend tick flag fuel seen amount generalizing outcome with
  | case1 => cases returned
  | case2 fuel seen amount owed stopped =>
    cases returned
    exact iff_of_true rfl ⟨0, by simpa using owed, stopped⟩
  | case3 fuel seen amount owed running ih =>
    obtain ⟨later, rest, rfl⟩ := Option.map_eq_some_iff.mp returned
    rw [ih rest]
    have index (i : ℕ) : seen + 1 + i = seen + (i + 1) := by omega
    constructor
    · rintro ⟨i, early, set⟩
      exact ⟨i + 1, (ticks_lt_rest_iff positive i amount).mp early, index i ▸ set⟩
    · rintro ⟨i, early, set⟩
      cases i with
      | zero => exact absurd set running
      | succ i =>
        exact ⟨i, (ticks_lt_rest_iff positive i amount).mpr early, (index i).symm ▸ set⟩
  | case4 fuel seen amount nothing =>
    cases returned
    refine iff_of_false (by simp) ?_
    rintro ⟨i, early, set⟩
    exact nothing ((nsmul_nonneg positive.le i).trans_lt early)

end Slices
