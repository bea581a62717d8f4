import FinamTradebot.Interfaces
import Mathlib.Order.WithBot

/-!
strategy/session_context.hpp. The sentinels `lowest()` and `max()` of the range
fields are the bottom of `WithBot ℚ` and the top of `WithTop ℚ`. The ring buffer is
indexed by integers, as the source indexes it.
-/
namespace FinamSession
open FinamInterfaces

inductive Bias where
  | long | short | none
  deriving DecidableEq, Repr

structure SessionContextConfig where
  orbDuration : ℤ := 15
  nr7Period : ℕ := 7
  atrPeriod : ℕ := 14
  atrFilterMult : ℚ := 8 / 10
  sessionOpenUtcMin : ℤ := 420

def kMaxDailyHistory : ℤ := 30

structure SessionContext where
  cfg : SessionContextConfig
  dailyRanges : ℤ → ℚ := fun _ => 0
  dailyIdx : ℤ := 0
  dailyCount : ℤ := 0
  atr : ℚ := 0
  nr7Confirmed : Bool := false
  orbHigh : WithBot ℚ := ⊥
  orbLow : WithTop ℚ := ⊤
  currentDayHigh : WithBot ℚ := ⊥
  currentDayLow : WithTop ℚ := ⊤
  bias : Bias := .none
  orbFinalized : Bool := false

def SessionContext.init (cfg : SessionContextConfig) : SessionContext := { cfg := cfg }

def SessionContext.toUtcMinutes (ts : ℤ) : ℤ := minuteOfDay ts

def SessionContextConfig.orbEnd (cfg : SessionContextConfig) : ℤ :=
  cfg.sessionOpenUtcMin + cfg.orbDuration

def SessionContext.updateAtr (s : SessionContext) (range : ℚ) : SessionContext :=
  if s.atr < 1 / 1000000000 then { s with atr := range }
  else
    let k : ℚ := 1 / (s.cfg.atrPeriod : ℚ)
    { s with atr := s.atr * (1 - k) + range * k }

/-- Slot of the daily range received `back` bars before the latest one. -/
def SessionContext.slot (s : SessionContext) (back : ℕ) : ℤ :=
  (s.dailyIdx - 1 - (back : ℤ) + kMaxDailyHistory).tmod kMaxDailyHistory

def SessionContext.updateNr7 (s : SessionContext) : SessionContext :=
  if s.dailyCount < (s.cfg.nr7Period : ℤ) then { s with nr7Confirmed := false }
  else
    let lastRange := s.dailyRanges (s.slot 0)
    let wider := (List.range (s.cfg.nr7Period - 1)).all
      (fun j => !decide (s.dailyRanges (s.slot (j + 1)) ≤ lastRange))
    { s with nr7Confirmed := wider }

def SessionContext.onDailyBar (s : SessionContext) (bar : Bar) : SessionContext :=
  let range := bar.high - bar.low
  let s := { s with
    dailyRanges := Function.update s.dailyRanges s.dailyIdx range
    dailyIdx := (s.dailyIdx + 1).tmod kMaxDailyHistory
    dailyCount := if s.dailyCount < kMaxDailyHistory then s.dailyCount + 1 else s.dailyCount }
  (s.updateAtr range).updateNr7

/-- `current_day_high_ - current_day_low_`; a sentinel on either side makes the
    difference lower than every price range. -/
def SessionContext.dayRange (s : SessionContext) : WithBot ℚ :=
  match s.currentDayHigh, s.currentDayLow with
  | some high, some low => ((high - low : ℚ) : WithBot ℚ)
  | _, _ => ⊥

def SessionContext.finalizeOrb (s : SessionContext) (currentPrice : ℚ) : SessionContext :=
  if s.orbFinalized then s
  else
    let s := { s with orbFinalized := true }
    if 1 / 1000000000 < s.atr ∧ s.dayRange < ((s.cfg.atrFilterMult * s.atr : ℚ) : WithBot ℚ) then
      { s with bias := .none }
    else if s.orbHigh < ((-100000000 : ℚ) : WithBot ℚ) then { s with bias := .none }
    else if s.orbHigh < (currentPrice : WithBot ℚ) then { s with bias := .long }
    else if (currentPrice : WithTop ℚ) < s.orbLow then { s with bias := .short }
    else { s with bias := .none }

def SessionContext.onIntradayBar (s : SessionContext) (bar : Bar) : SessionContext :=
  if s.orbFinalized then s
  else
    let barMin := SessionContext.toUtcMinutes bar.ts
    if barMin < s.cfg.sessionOpenUtcMin then s
    else if barMin < s.cfg.orbEnd then
      { s with
        orbHigh := max s.orbHigh (bar.high : WithBot ℚ)
        orbLow := min s.orbLow (bar.low : WithTop ℚ)
        currentDayHigh := max s.currentDayHigh (bar.high : WithBot ℚ)
        currentDayLow := min s.currentDayLow (bar.low : WithTop ℚ) }
    else s.finalizeOrb bar.close

def SessionContext.sessionReset (s : SessionContext) : SessionContext :=
  { s with
    orbHigh := ⊥
    orbLow := ⊤
    currentDayHigh := ⊥
    currentDayLow := ⊤
    bias := .none
    orbFinalized := false }

def SessionContext.allowsLong (s : SessionContext) : Bool := s.bias == .long
def SessionContext.allowsShort (s : SessionContext) : Bool := s.bias == .short
def SessionContext.sizeMultiplier (s : SessionContext) : ℚ := if s.nr7Confirmed then 1 else 1 / 2

/-- A daily bar writes the history, the range average and the narrow-range flag only. -/
theorem daily_frame (ctx : SessionContext) (bar : Bar) : ∃ ranges idx count atr nr7,
    ctx.onDailyBar bar =
      { ctx with
        dailyRanges := ranges
        dailyIdx := idx
        dailyCount := count
        atr := atr
        nr7Confirmed := nr7 } := by
  simp only [SessionContext.onDailyBar, SessionContext.updateNr7, SessionContext.updateAtr]
  split_ifs <;> exact ⟨_, _, _, _, _, rfl⟩

theorem finalize_twice {ctx : SessionContext} (done : ctx.orbFinalized = true) (price : ℚ) :
    ctx.finalizeOrb price = ctx := by
  simp [SessionContext.finalizeOrb, done]

/-- The bias that `finalize_orb` fixes. -/
def SessionContext.breakout (s : SessionContext) (price : ℚ) : Bias :=
  if 1 / 1000000000 < s.atr ∧ s.dayRange < ((s.cfg.atrFilterMult * s.atr : ℚ) : WithBot ℚ) then .none
  else if s.orbHigh < ((-100000000 : ℚ) : WithBot ℚ) then .none
  else if s.orbHigh < (price : WithBot ℚ) then .long
  else if (price : WithTop ℚ) < s.orbLow then .short
  else .none

theorem finalize_eq {ctx : SessionContext} (unfinished : ctx.orbFinalized = false) (price : ℚ) :
    ctx.finalizeOrb price = { ctx with orbFinalized := true, bias := ctx.breakout price } := by
  have sameDay : { ctx with orbFinalized := true }.dayRange = ctx.dayRange := rfl
  unfold SessionContext.finalizeOrb SessionContext.breakout
  simp only [unfinished, Bool.false_eq_true, ↓reduceIte, sameDay]
  split_ifs <;> rfl

theorem finalize_sets (ctx : SessionContext) (price : ℚ) :
    (ctx.finalizeOrb price).orbFinalized = true := by
  unfold SessionContext.finalizeOrb
  split
  · assumption
  · simp only
    split_ifs <;> rfl

theorem finalize_frame (ctx : SessionContext) (price : ℚ) :
    (ctx.finalizeOrb price).orbHigh = ctx.orbHigh ∧ (ctx.finalizeOrb price).orbLow = ctx.orbLow ∧
      (ctx.finalizeOrb price).cfg = ctx.cfg := by
  unfold SessionContext.finalizeOrb
  simp only
  split_ifs <;> simp

structure Extends (ctx next : SessionContext) (bar : Bar) : Prop where
  config : next.cfg = ctx.cfg
  open_ : next.orbFinalized = false
  high : next.orbHigh = max ctx.orbHigh (bar.high : WithBot ℚ)
  low : next.orbLow = min ctx.orbLow (bar.low : WithTop ℚ)

theorem intraday_cases (ctx : SessionContext) (bar : Bar) :
    (ctx.orbFinalized = true ∧ ctx.onIntradayBar bar = ctx) ∨
    (ctx.orbFinalized = false ∧ minuteOfDay bar.ts < ctx.cfg.sessionOpenUtcMin ∧
      ctx.onIntradayBar bar = ctx) ∨
    (ctx.orbFinalized = false ∧ ctx.cfg.sessionOpenUtcMin ≤ minuteOfDay bar.ts ∧
      minuteOfDay bar.ts < ctx.cfg.orbEnd ∧ Extends ctx (ctx.onIntradayBar bar) bar) ∨
    (ctx.orbFinalized = false ∧ ctx.cfg.sessionOpenUtcMin ≤ minuteOfDay bar.ts ∧
      ctx.cfg.orbEnd ≤ minuteOfDay bar.ts ∧ ctx.onIntradayBar bar = ctx.finalizeOrb bar.close) := by
  cases done : ctx.orbFinalized with
  | true => exact Or.inl ⟨rfl, by simp [SessionContext.onIntradayBar, done]⟩
  | false =>
    refine Or.inr ?_
    simp only [SessionContext.onIntradayBar, SessionContext.toUtcMinutes, done, true_and,
      Bool.false_eq_true, ↓reduceIte]
    by_cases before : minuteOfDay bar.ts < ctx.cfg.sessionOpenUtcMin
    · exact Or.inl ⟨before, by rw [if_pos before]⟩
    · rw [if_neg before]
      by_cases inside : minuteOfDay bar.ts < ctx.cfg.orbEnd
      · rw [if_pos inside]
        exact Or.inr (Or.inl ⟨not_lt.mp before, inside, rfl, rfl, rfl, rfl⟩)
      · rw [if_neg inside]
        exact Or.inr (Or.inr ⟨not_lt.mp before, not_lt.mp inside, rfl⟩)

end FinamSession
