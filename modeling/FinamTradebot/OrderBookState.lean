import FinamTradebot.Interfaces
import Mathlib.Algebra.Order.Field.Rat

/-!
strategy/ofi_types.hpp and strategy/order_book_state.hpp: the votes, the events of
the order-flow pipeline and the multi-level order flow imbalance (MLOFI).
-/
namespace FinamOrderBook
open FinamInterfaces

def kBookLevels : ℕ := 5

/-- The two `<cmath>` functions the indicator calls. Their values are irrational
    almost everywhere, so they enter the exact model as parameters. -/
structure Libm where
  exp : ℚ → ℚ
  pow : ℚ → ℚ → ℚ

inductive Vote where
  | long | short | neutral
  deriving DecidableEq, Repr

def Vote.toInt : Vote → ℤ
  | .long => 1
  | .short => -1
  | .neutral => 0

structure OfiVote where
  mlofi : Vote := .neutral
  tfi : Vote := .neutral
  confluence : ℤ := 0
  deriving DecidableEq, Repr

def OfiVote.isStrong (v : OfiVote) : Bool := v.confluence == 2 || v.confluence == -2
def OfiVote.isLong (v : OfiVote) : Bool := decide (0 < v.confluence)
def OfiVote.isShort (v : OfiVote) : Bool := decide (v.confluence < 0)

structure BookLevelEvent where
  level : ℤ
  price : ℚ
  oldBidSize : ℚ
  newBidSize : ℚ
  oldAskSize : ℚ
  newAskSize : ℚ
  ts : ℤ
  deriving DecidableEq, Repr

structure TradeEvent where
  price : ℚ
  volume : ℚ
  isBuy : Bool
  ts : ℤ
  deriving DecidableEq, Repr

structure MlofiResult where
  score : ℚ := 0
  levels : Fin kBookLevels → ℚ := fun _ => 0
  ts : ℤ := 0

structure OrderBookStateConfig where
  levelDecay : ℚ := 1 / 2
  timeDecayPerSec : ℚ := 9 / 10
  signalThreshold : ℚ := 3

structure OrderBookState where
  cfg : OrderBookStateConfig
  weights : Fin kBookLevels → ℚ
  levelScores : Fin kBookLevels → ℚ := fun _ => 0
  score : ℚ := 0
  lastEventTs : ℤ := 0
  lastResult : MlofiResult := {}

def precomputeWeights (libm : Libm) (cfg : OrderBookStateConfig) : Fin kBookLevels → ℚ :=
  let raw : Fin kBookLevels → ℚ := fun k => libm.exp (-cfg.levelDecay * (k.val : ℚ))
  let sum := ((List.finRange kBookLevels).map raw).sum
  fun k => raw k / sum

def OrderBookState.init (libm : Libm) (cfg : OrderBookStateConfig) : OrderBookState :=
  { cfg := cfg, weights := precomputeWeights libm cfg }

def OrderBookState.applyTimeDecay (libm : Libm) (s : OrderBookState) (now : ℤ) :
    OrderBookState :=
  if s.lastEventTs = 0 then { s with lastEventTs := now }
  else
    let dtSec : ℚ := (now - s.lastEventTs : ℤ) / (nsPerSec : ℚ)
    if dtSec ≤ 0 then s
    else
      let decay := libm.pow s.cfg.timeDecayPerSec dtSec
      { s with
        score := s.score * decay
        levelScores := fun k => s.levelScores k * decay
        lastEventTs := now }

def OrderBookState.buildResult (s : OrderBookState) (ts : ℤ) : MlofiResult :=
  { score := s.score, ts := ts, levels := s.levelScores }

def OrderBookState.onBookEvent (libm : Libm) (s : OrderBookState) (e : BookLevelEvent) :
    OrderBookState × MlofiResult :=
  if valid : 0 ≤ e.level ∧ e.level < kBookLevels then
    let k : Fin kBookLevels := ⟨e.level.toNat, by omega⟩
    let s := s.applyTimeDecay libm e.ts
    let bidDelta := e.newBidSize - e.oldBidSize
    let askDelta := e.newAskSize - e.oldAskSize
    let ofiDelta := bidDelta - askDelta
    let s := { s with
      levelScores := Function.update s.levelScores k (s.levelScores k + ofiDelta)
      score := s.score + s.weights k * ofiDelta }
    let s := { s with lastResult := s.buildResult e.ts }
    (s, s.lastResult)
  else (s, s.lastResult)

def OrderBookState.decayTick (libm : Libm) (s : OrderBookState) (now : ℤ) :
    OrderBookState × MlofiResult :=
  let s := s.applyTimeDecay libm now
  let s := { s with lastResult := { s.lastResult with ts := now } }
  (s, s.lastResult)

def OrderBookState.vote (s : OrderBookState) : Vote :=
  if s.cfg.signalThreshold < s.score then .long
  else if s.score < -s.cfg.signalThreshold then .short
  else .neutral

def OrderBookState.reset (s : OrderBookState) : OrderBookState :=
  { s with score := 0, levelScores := fun _ => 0, lastEventTs := 0, lastResult := {} }

/-- No time has passed exactly when the clock has not moved forward. -/
theorem elapsed_iff (now last : ℤ) : (now - last : ℤ) / (nsPerSec : ℚ) ≤ 0 ↔ now ≤ last := by
  have perSec : (0 : ℚ) < (nsPerSec : ℚ) := by norm_num [nsPerSec]
  rw [div_le_iff₀ perSec, zero_mul, ← Int.cast_zero, Int.cast_le]
  omega

end FinamOrderBook
