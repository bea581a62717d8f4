import FinamTradebot.DiscountedSum
import FinamTradebot.OrderBookState
import FinamTradebot.Runs
import Mathlib.Algebra.Order.Field.Rat

/-!
The closed form of the imbalance. The scores decay in place whenever the clock moves
forward, so each is the sum of the flow of its level, discounted to the latest time seen.
-/
namespace FinamFlowDecay
open FinamInterfaces FinamOrderBook DiscountedSum Runs

inductive BookCall where
  | event (e : BookLevelEvent)
  | tick (now : ℤ)

def bookStep (libm : Libm) (s : OrderBookState) : BookCall → OrderBookState
  | .event e => (s.onBookEvent libm e).1
  | .tick now => (s.decayTick libm now).1

def inRange (e : BookLevelEvent) : Prop := 0 ≤ e.level ∧ e.level < kBookLevels

instance (e : BookLevelEvent) : Decidable (inRange e) :=
  inferInstanceAs (Decidable (_ ∧ _))

/-- The time a call shows to the clock; an event outside the levels shows none. -/
def BookCall.stamp : BookCall → Option ℤ
  | .event e => if inRange e then some e.ts else none
  | .tick now => some now

def ofiDelta (e : BookLevelEvent) : ℚ :=
  (e.newBidSize - e.oldBidSize) - (e.newAskSize - e.oldAskSize)

def flowAt (k : Fin kBookLevels) : BookCall → ℚ
  | .event e => if e.level = k.val then ofiDelta e else 0
  | .tick _ => 0

/-- The decay over a time in nanoseconds. -/
def decayOver (libm : Libm) (cfg : OrderBookStateConfig) (elapsed : ℤ) : ℚ :=
  libm.pow cfg.timeDecayPerSec (elapsed / nsPerSec)

def weighted (s : OrderBookState) : ℚ := ∑ k, s.weights k * s.levelScores k

/-- The state that the calls since construction or reset leave behind. -/
structure ClosedForm (libm : Libm) (start s : OrderBookState) (calls : List BookCall) : Prop where
  config : s.cfg = start.cfg
  weights : s.weights = start.weights
  clock : s.lastEventTs = clock BookCall.stamp calls
  levels : ∀ k, s.levelScores k =
    discounted BookCall.stamp (flowAt k) (decayOver libm start.cfg) calls
  score : s.score = weighted s

section Step
variable {libm : Libm} {start s : OrderBookState} {calls : List BookCall}

/-- What the decay does to a state that is empty before its first event. -/
theorem decay_spec (multiplicative : Multiplicative (decayOver libm s.cfg))
    (empty : s.lastEventTs = 0 → s.score = 0 ∧ ∀ k, s.levelScores k = 0) {now : ℤ} (after : 0 < now) :
    let decay := decayOver libm s.cfg (max s.lastEventTs now - s.lastEventTs)
    s.applyTimeDecay libm now =
      { s with
        score := s.score * decay
        levelScores := fun k => s.levelScores k * decay
        lastEventTs := max s.lastEventTs now } := by
  intro decay
  dsimp only [OrderBookState.applyTimeDecay]
  split_ifs with none stale
  · obtain ⟨score, levels⟩ := empty none
    have first : max s.lastEventTs now = now := max_eq_right (by omega)
    simp only [first, score, levels, zero_mul]
    rw [← funext levels]
  · have kept : max s.lastEventTs now = s.lastEventTs := max_eq_left ((elapsed_iff _ _).mp stale)
    have one : decay = 1 := by
      simp only [decay, kept, sub_self]
      exact multiplicative.zero
    simp only [kept, one, mul_one]
  · have moved : max s.lastEventTs now = now := by
      rw [elapsed_iff, not_le] at stale
      exact max_eq_right stale.le
    simp only [decay, moved, decayOver]

theorem clock_positive (after : ∀ t ∈ calls.filterMap BookCall.stamp, 0 < t) :
    clock BookCall.stamp calls = 0 → calls.filterMap BookCall.stamp = [] := by
  intro zero
  cases stamps : calls.filterMap BookCall.stamp with
  | nil => rfl
  | cons t rest =>
    have positive := after t (by rw [stamps]; exact List.mem_cons_self)
    have grows := foldl_max_le rest (max 0 t)
    rw [DiscountedSum.clock, stamps, List.foldl_cons] at zero
    omega

theorem flow_outside {e : BookLevelEvent} (outside : ¬inRange e) (k : Fin kBookLevels) :
    flowAt k (.event e) = 0 := by
  rw [flowAt, if_neg]
  intro level
  apply outside
  have bound := k.isLt
  unfold inRange
  omega

/-- Without a stamp there was no event inside the levels, so no flow. -/
theorem no_flow (none : calls.filterMap BookCall.stamp = []) (k : Fin kBookLevels) (D : ℤ → ℚ) :
    discounted BookCall.stamp (flowAt k) D calls = 0 := by
  apply Finset.sum_eq_zero
  intro i member
  have below : i < calls.length := Finset.mem_range.mp member
  have silent : flowAt k calls[i] = 0 := by
    have unstamped := List.filterMap_eq_nil_iff.mp none calls[i] (List.getElem_mem below)
    cases call : calls[i] with
    | tick now => rfl
    | event e =>
      apply flow_outside
      intro inside
      simp [call, BookCall.stamp, inside] at unstamped
  rw [List.getD_eq_getElem _ _ (by simpa using below), List.getElem_map, silent, zero_mul]

theorem weighted_scaled (s : OrderBookState) (decay : ℚ) :
    (∑ k, s.weights k * (s.levelScores k * decay)) = weighted s * decay := by
  rw [weighted, Finset.sum_mul]
  exact Finset.sum_congr rfl fun k _ => (mul_assoc _ _ _).symm

theorem weighted_update (s : OrderBookState) (k : Fin kBookLevels) (delta : ℚ) :
    (∑ j, s.weights j * Function.update s.levelScores k (s.levelScores k + delta) j) =
      weighted s + s.weights k * delta := by
  have each : ∀ j, s.weights j * Function.update s.levelScores k (s.levelScores k + delta) j =
      s.weights j * s.levelScores j + if j = k then s.weights k * delta else 0 := by
    intro j
    by_cases same : j = k
    · subst same
      rw [Function.update_self, if_pos rfl, mul_add]
    · rw [Function.update_of_ne same, if_neg same, add_zero]
  rw [Finset.sum_congr rfl fun j _ => each j, Finset.sum_add_distrib, Finset.sum_ite_eq',
    if_pos (Finset.mem_univ k)]
  rfl

/-- The decay brings every score to the new clock and changes nothing else. -/
theorem decayed (multiplicative : Multiplicative (decayOver libm start.cfg))
    (closed : ClosedForm libm start s calls)
    (stamped : ∀ t ∈ calls.filterMap BookCall.stamp, 0 < t) {now : ℤ} (after : 0 < now) :
    let t := s.applyTimeDecay libm now
    let time := max (clock BookCall.stamp calls) now
    t.cfg = start.cfg ∧ t.weights = start.weights ∧ t.lastEventTs = time ∧
      (∀ k, t.levelScores k = discounted BookCall.stamp (flowAt k) (decayOver libm start.cfg) calls *
        decayOver libm start.cfg (time - clock BookCall.stamp calls)) ∧
      t.score = weighted t := by
  obtain ⟨config, weights, time, levels, score⟩ := closed
  have empty : s.lastEventTs = 0 → s.score = 0 ∧ ∀ k, s.levelScores k = 0 := by
    intro zero
    have quiet : ∀ k, s.levelScores k = 0 := fun k =>
      (levels k).trans (no_flow (clock_positive stamped (time ▸ zero)) k _)
    exact ⟨by simp [score, weighted, quiet], quiet⟩
  have spec := decay_spec (s := s) (by rw [config]; exact multiplicative) empty after
  simp only [spec, config, time]
  refine ⟨trivial, weights, trivial, fun k => by rw [levels k], ?_⟩
  rw [score]
  exact (weighted_scaled s _).symm

theorem level_bound {e : BookLevelEvent} (inside : inRange e) : e.level.toNat < kBookLevels := by
  unfold inRange at inside
  omega

def levelOf {e : BookLevelEvent} (inside : inRange e) : Fin kBookLevels :=
  ⟨e.level.toNat, level_bound inside⟩

theorem event_outside {e : BookLevelEvent} (outside : ¬inRange e) :
    (s.onBookEvent libm e).1 = s := by
  unfold inRange at outside
  unfold OrderBookState.onBookEvent
  rw [dif_neg outside]

theorem event_inside (libm : Libm) (s : OrderBookState) {e : BookLevelEvent} (inside : inRange e) :
    let k := levelOf inside
    let t := s.applyTimeDecay libm e.ts
    ∃ result, (s.onBookEvent libm e).1 =
      { t with
        levelScores := Function.update t.levelScores k (t.levelScores k + ofiDelta e)
        score := t.score + t.weights k * ofiDelta e
        lastResult := result } := by
  intro k t
  have valid : 0 ≤ e.level ∧ e.level < kBookLevels := inside
  unfold OrderBookState.onBookEvent
  rw [dif_pos valid]
  exact ⟨_, rfl⟩

theorem level_update {e : BookLevelEvent} (inside : inRange e) (scores : Fin kBookLevels → ℚ)
    (j : Fin kBookLevels) : Function.update scores (levelOf inside)
      (scores (levelOf inside) + ofiDelta e) j = scores j + flowAt j (.event e) := by
  have level : e.level = (levelOf inside).val := (Int.toNat_of_nonneg inside.1).symm
  by_cases same : j = levelOf inside
  · rw [same, Function.update_self, flowAt, if_pos level]
  · have other : e.level ≠ j.val := by
      intro eq
      exact same (Fin.ext (by omega))
    rw [Function.update_of_ne same, flowAt, if_neg other, add_zero]

theorem closed_form_step (multiplicative : Multiplicative (decayOver libm start.cfg))
    (closed : ClosedForm libm start s calls) {call : BookCall}
    (stamped : ∀ t ∈ (calls ++ [call]).filterMap BookCall.stamp, 0 < t) :
    ClosedForm libm start (bookStep libm s call) (calls ++ [call]) := by
  have before : ∀ t ∈ calls.filterMap BookCall.stamp, 0 < t := fun t member =>
    stamped t (by rw [List.filterMap_append]; exact List.mem_append_left _ member)
  have latest : ∀ t, call.stamp = some t → 0 < t := fun t found =>
    stamped t (by simp [List.filterMap_append, found])
  have sums (k : Fin kBookLevels) : discounted BookCall.stamp (flowAt k) _ (calls ++ [call]) = _ :=
    discounted_snoc multiplicative calls call
  have time : clock BookCall.stamp (calls ++ [call]) = _ := clock_snoc calls call
  cases call with
  | tick now =>
    rw [show BookCall.stamp (.tick now) = some now from rfl, Option.elim_some] at time
    obtain ⟨config, weights, moved, levels, score⟩ :=
      decayed multiplicative closed before (latest now rfl)
    refine ⟨config, weights, moved.trans time.symm, ?_, score⟩
    intro k
    rw [sums k, time, flowAt, add_zero]
    exact levels k
  | event e =>
    by_cases inside : inRange e
    · have stamp : BookCall.stamp (.event e) = some e.ts := if_pos inside
      rw [stamp, Option.elim_some] at time
      obtain ⟨config, weights, moved, levels, score⟩ :=
        decayed multiplicative closed before (latest e.ts stamp)
      obtain ⟨result, next⟩ := event_inside libm s inside
      rw [bookStep, next]
      refine ⟨config, weights, moved.trans time.symm, ?_, ?_⟩
      · intro j
        rw [sums j, time, ← levels j]
        exact level_update inside _ j
      · rw [score]
        exact (weighted_update _ _ _).symm
    · have stamp : BookCall.stamp (.event e) = none := if_neg inside
      rw [stamp, Option.elim_none] at time
      obtain ⟨config, weights, moved, levels, score⟩ := closed
      rw [bookStep, event_outside inside]
      refine ⟨config, weights, moved.trans time.symm, ?_, score⟩
      intro k
      rw [sums k, time, sub_self, multiplicative.zero, mul_one, flow_outside inside, add_zero]
      exact levels k

theorem closed_form_reset (s : OrderBookState) : ClosedForm libm s.reset s.reset [] := by
  constructor
  · rfl
  · rfl
  · rfl
  · intro k
    rfl
  · simp [weighted, OrderBookState.reset]

theorem closed_form_run (multiplicative : Multiplicative (decayOver libm s.reset.cfg))
    (stamped : ∀ t ∈ calls.filterMap BookCall.stamp, 0 < t) :
    ClosedForm libm s.reset (run (bookStep libm) s.reset calls) calls := by
  induction calls using List.reverseRecOn with
  | nil => exact closed_form_reset s
  | append_singleton calls call ih =>
    rw [run_append]
    have before := ih fun t member =>
      stamped t (by rw [List.filterMap_append]; exact List.mem_append_left _ member)
    exact closed_form_step multiplicative before stamped

end Step

/-- The powers of 0, and the exponential at 0. -/
def zeroBase : Libm := ⟨fun _ => 1, fun _ x => if x = 0 then 1 else 0⟩

def forgetful : OrderBookStateConfig := { levelDecay := 0, timeDecayPerSec := 0 }

theorem zero_base_multiplicative : Multiplicative (decayOver zeroBase forgetful) := by
  have perSec : (nsPerSec : ℚ) ≠ 0 := by norm_num [nsPerSec]
  constructor
  · simp [decayOver, zeroBase]
  · intro a b first second
    simp only [decayOver, zeroBase, div_eq_zero_iff, perSec, or_false, Int.cast_eq_zero]
    split_ifs <;> first | omega | norm_num

def bidEvent (level : ℤ) (size : ℚ) (ts : ℤ) : BookCall :=
  .event ⟨level, 100, 0, size, 0, 0, ts⟩

def best : Fin kBookLevels := ⟨0, by decide⟩

end FinamFlowDecay
