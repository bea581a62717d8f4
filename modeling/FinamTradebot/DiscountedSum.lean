import Mathlib.Algebra.BigOperators.Intervals
import Mathlib.Algebra.BigOperators.Ring.Finset
import Mathlib.Algebra.Order.Ring.Int
import Mathlib.Data.List.GetD
import Mathlib.Data.List.Induction

/-!
Sums of values discounted to a clock that never goes back. Each entry may carry a
stamp; the clock is the largest stamp seen, and the discount from one time to a later
one is multiplicative in the time between them.
-/
namespace DiscountedSum
variable {C R : Type} [CommSemiring R]

/-- The largest stamp of the entries, 0 before the first one. -/
def clock (stamp : C → Option ℤ) (entries : List C) : ℤ :=
  (entries.filterMap stamp).foldl max 0

/-- Every entry's value, discounted from the clock at its arrival to the clock now. -/
def discounted (stamp : C → Option ℤ) (value : C → R) (D : ℤ → R) (entries : List C) : R :=
  ∑ i ∈ Finset.range entries.length, (entries.map value).getD i 0 *
    D (clock stamp entries - clock stamp (entries.take (i + 1)))

structure Multiplicative (D : ℤ → R) : Prop where
  zero : D 0 = 1
  add : ∀ a b, 0 ≤ a → 0 ≤ b → D (a + b) = D a * D b

variable {stamp : C → Option ℤ} {value : C → R} {D : ℤ → R}

theorem clock_append (first later : List C) : clock stamp (first ++ later) =
    (later.filterMap stamp).foldl max (clock stamp first) := by
  rw [clock, List.filterMap_append, List.foldl_append]
  rfl

theorem clock_snoc (entries : List C) (c : C) : clock stamp (entries ++ [c]) =
    (stamp c).elim (clock stamp entries) (max (clock stamp entries)) := by
  rw [clock_append]
  cases found : stamp c <;> simp [found]

theorem foldl_max_le (stamps : List ℤ) (t : ℤ) : t ≤ stamps.foldl max t := by
  induction stamps generalizing t with
  | nil => exact le_rfl
  | cons u rest ih => exact (le_max_left t u).trans (ih (max t u))

theorem clock_mono (first later : List C) : clock stamp first ≤ clock stamp (first ++ later) := by
  rw [clock_append]
  exact foldl_max_le _ _

theorem clock_take (entries : List C) (n : ℕ) : clock stamp (entries.take n) ≤ clock stamp entries := by
  conv_rhs => rw [← List.take_append_drop n entries]
  exact clock_mono _ _

/-- A new entry discounts all earlier ones by the advance of the clock. -/
theorem discounted_snoc (multiplicative : Multiplicative D) (entries : List C) (c : C) :
    discounted stamp value D (entries ++ [c]) = discounted stamp value D entries *
      D (clock stamp (entries ++ [c]) - clock stamp entries) + value c := by
  have length : (entries ++ [c]).length = entries.length + 1 := by simp
  have whole : (entries ++ [c]).take (entries.length + 1) = entries ++ [c] :=
    List.take_of_length_le length.le
  rw [discounted, length, Finset.sum_range_succ, whole, sub_self, multiplicative.zero, mul_one,
    discounted, Finset.sum_mul]
  congr 1
  · apply Finset.sum_congr rfl
    intro i member
    have below : i < entries.length := Finset.mem_range.mp member
    have older : (entries ++ [c]).take (i + 1) = entries.take (i + 1) :=
      List.take_append_of_le_length below
    have same : ((entries ++ [c]).map value).getD i 0 = (entries.map value).getD i 0 := by
      rw [List.map_append, List.getD_append _ _ _ _ (by simpa using below)]
    have advance := multiplicative.add (clock stamp entries - clock stamp (entries.take (i + 1)))
      (clock stamp (entries ++ [c]) - clock stamp entries)
      (sub_nonneg.mpr (clock_take entries _)) (sub_nonneg.mpr (clock_mono entries [c]))
    rw [older, same, mul_assoc, ← advance]
    congr 2
    omega
  · simp

end DiscountedSum
