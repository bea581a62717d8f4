import FinamTradebot.OrderBookState
import FinamTradebot.Runs

/-!
The result that `last` reports against the scores that `vote` reads. An event builds the
result anew; `decay_tick` decays the scores and changes nothing of the result but its time.
-/
namespace FinamMlofiReport
open FinamInterfaces FinamOrderBook Runs

inductive BookCall where
  | event (e : BookLevelEvent)
  | tick (now : ℤ)
  | reset

/-- A call and the value it returns. -/
def perform (libm : Libm) (s : OrderBookState) : BookCall → OrderBookState × Option MlofiResult
  | .event e => ((s.onBookEvent libm e).1, some (s.onBookEvent libm e).2)
  | .tick now => ((s.decayTick libm now).1, some (s.decayTick libm now).2)
  | .reset => (s.reset, none)

def bookStep (libm : Libm) (s : OrderBookState) (c : BookCall) : OrderBookState :=
  (perform libm s c).1

def Carries (r : MlofiResult) (s : OrderBookState) : Prop :=
  r.score = s.score ∧ r.levels = s.levelScores

/-- The vote of a score. -/
def voteOf (threshold score : ℚ) : Vote :=
  if threshold < score then .long
  else if score < -threshold then .short
  else .neutral

/-- `last` carries the scores, and the vote is that of the score it reports. -/
def Reported (s : OrderBookState) : Prop :=
  Carries s.lastResult s ∧ s.vote = voteOf s.cfg.signalThreshold s.lastResult.score

/-- The value just returned carries the scores after the call. -/
def ReturnsScores (libm : Libm) (s : OrderBookState) (c : BookCall) : Prop :=
  ∀ r ∈ (perform libm s c).2, Carries r (bookStep libm s c)

/-- On the state before a call: a tick finds nothing to decay. Either no event has set the
    clock or the clock does not move, or the factor is 1 or all the scores are 0. -/
def NothingDecays (libm : Libm) (s : OrderBookState) : BookCall → Prop
  | .event _ | .reset => True
  | .tick now => s.lastEventTs = 0 ∨ now ≤ s.lastEventTs ∨
      libm.pow s.cfg.timeDecayPerSec ((now - s.lastEventTs : ℤ) / (nsPerSec : ℚ)) = 1 ∨
      (s.score = 0 ∧ s.levelScores = fun _ => 0)

section Calls
variable {libm : Libm} {s : OrderBookState}

theorem reported_iff : Reported s ↔ Carries s.lastResult s := by
  constructor
  · exact And.left
  · intro carries
    refine ⟨carries, ?_⟩
    rw [OrderBookState.vote, voteOf, carries.1]

/-- Every call returns the result that `last` reports from then on. -/
theorem returned_is_last (c : BookCall) :
    ∀ r ∈ (perform libm s c).2, r = (bookStep libm s c).lastResult := by
  intro r returned
  cases c with
  | reset => cases returned
  | tick now => exact (Option.some.inj returned).symm
  | event e =>
    have same := (Option.some.inj returned).symm
    rw [same]
    simp only [bookStep, perform, OrderBookState.onBookEvent]
    split_ifs <;> rfl

theorem event_carries (e : BookLevelEvent) (carries : Carries s.lastResult s) :
    Carries (bookStep libm s (.event e)).lastResult (bookStep libm s (.event e)) := by
  simp only [bookStep, perform, OrderBookState.onBookEvent]
  split_ifs
  · exact ⟨rfl, rfl⟩
  · exact carries

theorem reset_carries : Carries (bookStep libm s .reset).lastResult (bookStep libm s .reset) :=
  ⟨rfl, rfl⟩

theorem tick_carries_iff (now : ℤ) (carries : Carries s.lastResult s) :
    Carries (bookStep libm s (.tick now)).lastResult (bookStep libm s (.tick now)) ↔
      NothingDecays libm s (.tick now) := by
  simp only [bookStep, perform, OrderBookState.decayTick, OrderBookState.applyTimeDecay,
    NothingDecays]
  by_cases unset : s.lastEventTs = 0
  · rw [if_pos unset]
    exact iff_of_true carries (Or.inl unset)
  · rw [if_neg unset]
    by_cases stale : now ≤ s.lastEventTs
    · rw [if_pos ((elapsed_iff _ _).mpr stale)]
      exact iff_of_true carries (Or.inr (Or.inl stale))
    · rw [if_neg (fun le => stale ((elapsed_iff _ _).mp le))]
      simp only [unset, stale, false_or, Carries, carries.1, carries.2, funext_iff]
      generalize libm.pow _ _ = factor
      have scaled (x : ℚ) : x = x * factor ↔ factor = 1 ∨ x = 0 := eq_comm.trans mul_right_eq_self₀
      simp only [scaled, forall_or_left, ← or_and_left]

theorem step_exact (s : OrderBookState) (c : BookCall) (reported : Reported s) :
    ReturnsScores libm s c ∧ Reported (bookStep libm s c) ↔ NothingDecays libm s c := by
  have returned : Reported (bookStep libm s c) → ReturnsScores libm s c := by
    intro next r member
    rw [returned_is_last c r member]
    exact next.1
  rw [and_iff_right_of_imp returned, reported_iff]
  rw [reported_iff] at reported
  cases c with
  | event e => exact iff_of_true (event_carries e reported) trivial
  | tick now => exact tick_carries_iff now reported
  | reset => exact iff_of_true reset_carries trivial

end Calls

/-- Over every sequence of calls: `last`, the values returned and the vote agree with the
    scores throughout exactly if no tick of the sequence finds a score to decay. -/
theorem mlofi_reported_iff (libm : Libm) (cfg : OrderBookStateConfig) (calls : List BookCall) :
    Along (bookStep libm) (ReturnsScores libm) (.init libm cfg) calls ∧
        Visits (bookStep libm) Reported (.init libm cfg) calls ↔
      Along (bookStep libm) (NothingDecays libm) (.init libm cfg) calls := by
  refine good_run_iff (I := fun _ => True) ?_ (fun _ _ _ _ _ => trivial) trivial ⟨⟨rfl, rfl⟩, rfl⟩
  intro s c _ reported
  exact step_exact s c reported

/-- The exponential at 0 and the powers with exponent 1. -/
def atOne : Libm := ⟨fun _ => 1, fun base _ => base⟩

/-- A bid of 10 lots on the best level, and a tick one second later: the score of the level
    is 9, `last` still reports 10. -/
theorem tick_leaves_report_stale :
    ¬Visits (bookStep atOne) Reported (.init atOne { levelDecay := 0 })
      [.event ⟨0, 100, 0, 10, 0, 0, nsPerSec⟩, .tick (2 * nsPerSec)] := by
  rintro ⟨-, -, last⟩
  have level := congrFun last.1.2 ⟨0, by decide⟩
  exact absurd level (by decide +kernel)

end FinamMlofiReport
