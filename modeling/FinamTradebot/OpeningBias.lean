import FinamTradebot.Runs
import FinamTradebot.SessionContext
import Mathlib.Data.List.Induction
import Mathlib.Data.List.MinMax
import Mathlib.Data.List.TakeWhile

/-!
The bias as a function of the bars of a session. The opening range is gathered bar by
bar and closed by the first bar after its end; the bias fixed then is the breakout of
the range that the bars before it span.
-/
namespace FinamOpeningBias
open FinamInterfaces FinamSession Runs

def isLater (cfg : SessionContextConfig) (bar : Bar) : Bool :=
  decide (cfg.orbEnd ≤ minuteOfDay bar.ts)

def inOpening (cfg : SessionContextConfig) (bar : Bar) : Bool :=
  decide (cfg.sessionOpenUtcMin ≤ minuteOfDay bar.ts)

def closingBar (cfg : SessionContextConfig) (bars : List Bar) : Option Bar :=
  bars.find? (isLater cfg)

/-- The bars of the opening range that precede the first bar after it. -/
def openingBars (cfg : SessionContextConfig) (bars : List Bar) : List Bar :=
  (bars.takeWhile fun bar => !isLater cfg bar).filter (inOpening cfg)

/-- The breakout of a range from `bottom` to `top`, unless the range is too small for
    the average. -/
def rangeBias (cfg : SessionContextConfig) (atr top bottom price : ℚ) : Bias :=
  if 1 / 1000000000 < atr ∧ top - bottom < cfg.atrFilterMult * atr then .none
  else if top < price then .long
  else if price < bottom then .short
  else .none

def openingBias (cfg : SessionContextConfig) (atr : ℚ) (bars : List Bar) : Bias :=
  match closingBar cfg bars with
  | none => .none
  | some closing =>
    match ((openingBars cfg bars).map (·.high)).maximum, ((openingBars cfg bars).map (·.low)).minimum with
    | some top, some bottom => rangeBias cfg atr top bottom closing.close
    | _, _ => .none

/-- A context that has gathered some bars and not closed the range. -/
structure Gathers (start ctx : SessionContext) (gathered : List Bar) : Prop where
  config : ctx.cfg = start.cfg
  average : ctx.atr = start.atr
  waiting : ctx.orbFinalized = false
  unbiased : ctx.bias = .none
  high : ctx.orbHigh = (gathered.map (·.high)).maximum
  low : ctx.orbLow = (gathered.map (·.low)).minimum
  dayHigh : ctx.currentDayHigh = (gathered.map (·.high)).maximum
  dayLow : ctx.currentDayLow = (gathered.map (·.low)).minimum

section Gathering
variable {start ctx : SessionContext} {gathered : List Bar} {bar : Bar}

theorem gathers_nothing (start : SessionContext) : Gathers start start.sessionReset [] :=
  ⟨rfl, rfl, rfl, rfl, rfl, rfl, rfl, rfl⟩

theorem gathers_step (gathers : Gathers start ctx gathered)
    (early : minuteOfDay bar.ts < start.cfg.orbEnd) :
    Gathers start (ctx.onIntradayBar bar) (gathered ++ [bar].filter (inOpening start.cfg)) := by
  obtain ⟨config, average, waiting, unbiased, high, low, dayHigh, dayLow⟩ := gathers
  simp only [SessionContext.onIntradayBar, SessionContext.toUtcMinutes, waiting, config,
    Bool.false_eq_true, ↓reduceIte]
  by_cases before : minuteOfDay bar.ts < start.cfg.sessionOpenUtcMin
  · have outside : [bar].filter (inOpening start.cfg) = [] := by simp [inOpening, before]
    rw [if_pos before, outside, List.append_nil]
    exact ⟨config, average, waiting, unbiased, high, low, dayHigh, dayLow⟩
  · have inside : [bar].filter (inOpening start.cfg) = [bar] := by
      simp [inOpening, not_lt.mp before]
    rw [if_neg before, if_pos early, inside]
    constructor <;> simp [average, unbiased, high, low, dayHigh, dayLow, List.maximum_concat,
      List.minimum_concat]

theorem gathers_run {bars : List Bar} (early : ∀ bar ∈ bars, minuteOfDay bar.ts < start.cfg.orbEnd) :
    Gathers start (run SessionContext.onIntradayBar start.sessionReset bars)
      (bars.filter (inOpening start.cfg)) := by
  induction bars using List.reverseRecOn with
  | nil => exact gathers_nothing start
  | append_singleton bars bar ih =>
    rw [run_append, List.filter_append]
    have before := ih fun other member => early other (List.mem_append_left _ member)
    exact gathers_step before (early bar (by simp))

theorem breakout_nothing (gathers : Gathers start ctx []) (price : ℚ) : ctx.breakout price = .none := by
  have bottom : ctx.orbHigh < ((-100000000 : ℚ) : WithBot ℚ) := by
    rw [gathers.high]
    exact WithBot.bot_lt_coe _
  simp [SessionContext.breakout, bottom]

/-- The sentinels are gone once a bar is gathered, and the test for them is silent. -/
theorem breakout_range (gathers : Gathers start ctx gathered) {top bottom : ℚ}
    (highest : (gathered.map (·.high)).maximum = some top)
    (lowest : (gathered.map (·.low)).minimum = some bottom)
    (above : -100000000 < top) (price : ℚ) :
    ctx.breakout price = rangeBias start.cfg start.atr top bottom price := by
  obtain ⟨config, average, waiting, unbiased, high, low, dayHigh, dayLow⟩ := gathers
  rw [highest] at high dayHigh
  rw [lowest] at low dayLow
  have range : ctx.dayRange = ((top - bottom : ℚ) : WithBot ℚ) := by
    simp only [SessionContext.dayRange, dayHigh, dayLow]
  have highCoe : ctx.orbHigh = ((top : ℚ) : WithBot ℚ) := high
  have lowCoe : ctx.orbLow = ((bottom : ℚ) : WithTop ℚ) := low
  simp only [SessionContext.breakout, rangeBias, range, highCoe, lowCoe, config, average,
    WithBot.coe_lt_coe, WithTop.coe_lt_coe, not_lt.mpr above.le, if_false]

theorem breakout_gathered (gathers : Gathers start ctx gathered)
    (prices : ∀ bar ∈ gathered, -100000000 < bar.high) (price : ℚ) : ctx.breakout price =
      match (gathered.map (·.high)).maximum, (gathered.map (·.low)).minimum with
      | some top, some bottom => rangeBias start.cfg start.atr top bottom price
      | _, _ => .none := by
  cases gathered with
  | nil => exact breakout_nothing gathers price
  | cons first rest =>
    obtain ⟨top, highest⟩ := WithBot.ne_bot_iff_exists.mp
      (List.maximum_ne_bot_of_ne_nil (l := (first :: rest).map (·.high)) (by simp))
    obtain ⟨bottom, lowest⟩ := WithTop.ne_top_iff_exists.mp
      (List.minimum_ne_top_of_ne_nil (l := (first :: rest).map (·.low)) (by simp))
    obtain ⟨bar, member, eq⟩ := List.mem_map.mp (List.maximum_mem highest.symm)
    have above : -100000000 < top := by
      rw [← eq]
      exact prices bar member
    rw [breakout_range gathers highest.symm lowest.symm above, ← highest, ← lowest]

theorem latched_run (done : ctx.orbFinalized = true) (bars : List Bar) :
    run SessionContext.onIntradayBar ctx bars = ctx := by
  induction bars with
  | nil => rfl
  | cons bar rest ih =>
    have kept : ctx.onIntradayBar bar = ctx := by simp [SessionContext.onIntradayBar, done]
    rw [run, kept, ih]

/-- The first bar after the range closes it with the breakout at its close. -/
theorem closing_step (gathers : Gathers start ctx gathered)
    (opened : start.cfg.sessionOpenUtcMin ≤ start.cfg.orbEnd) (later : isLater start.cfg bar = true) :
    (ctx.onIntradayBar bar).orbFinalized = true ∧
      (ctx.onIntradayBar bar).bias = ctx.breakout bar.close := by
  have after : start.cfg.orbEnd ≤ minuteOfDay bar.ts := of_decide_eq_true later
  have closed : ctx.onIntradayBar bar = ctx.finalizeOrb bar.close := by
    simp only [SessionContext.onIntradayBar, SessionContext.toUtcMinutes, gathers.waiting,
      gathers.config, Bool.false_eq_true, ↓reduceIte]
    rw [if_neg (by omega), if_neg (by omega)]
  rw [closed, finalize_eq gathers.waiting]
  exact ⟨rfl, rfl⟩

/-- A range without minutes gathers nothing, and a breakout of nothing is no bias. -/
theorem empty_range_unbiased (empty : start.cfg.orbEnd ≤ start.cfg.sessionOpenUtcMin)
    (bars : List Bar) :
    (run SessionContext.onIntradayBar start.sessionReset bars).bias = .none := by
  have keep : ∀ (ctx : SessionContext) (bar : Bar),
      (ctx.cfg = start.cfg ∧ ctx.orbHigh = ⊥ ∧ ctx.bias = .none) →
        (ctx.onIntradayBar bar).cfg = start.cfg ∧ (ctx.onIntradayBar bar).orbHigh = ⊥ ∧
          (ctx.onIntradayBar bar).bias = .none := by
    rintro ctx bar ⟨config, high, unbiased⟩
    rcases intraday_cases ctx bar with
      ⟨-, same⟩ | ⟨-, -, same⟩ | ⟨-, lower, upper, -⟩ | ⟨waiting, -, -, same⟩
    · rw [same]
      exact ⟨config, high, unbiased⟩
    · rw [same]
      exact ⟨config, high, unbiased⟩
    · rw [config] at lower upper
      omega
    · have bottom : ctx.orbHigh < ((-100000000 : ℚ) : WithBot ℚ) := by
        rw [high]
        exact WithBot.bot_lt_coe _
      rw [same, finalize_eq waiting]
      exact ⟨config, high, by simp [SessionContext.breakout, bottom]⟩
  exact (run_invariant (s := start.sessionReset) keep bars ⟨rfl, rfl, rfl⟩).2.2

end Gathering

theorem opening_bars_empty {cfg : SessionContextConfig} (empty : cfg.orbEnd ≤ cfg.sessionOpenUtcMin)
    (bars : List Bar) : openingBars cfg bars = [] := by
  rw [openingBars, List.filter_eq_nil_iff]
  intro bar member inside
  have early := List.mem_takeWhile_imp member
  simp only [isLater, inOpening, Bool.not_eq_eq_eq_not, Bool.not_true, decide_eq_false_iff_not,
    decide_eq_true_eq] at early inside
  omega

/-- The bias after any bars since the session reset is the breakout of their opening
    range. -/
theorem bias_of_opening_range (start : SessionContext) (bars : List Bar)
    (prices : ∀ bar ∈ bars, -100000000 < bar.high) :
    (run SessionContext.onIntradayBar start.sessionReset bars).bias =
      openingBias start.cfg start.atr bars := by
  rcases le_total start.cfg.orbEnd start.cfg.sessionOpenUtcMin with empty | opened
  · rw [empty_range_unbiased empty, openingBias, opening_bars_empty empty]
    cases closingBar start.cfg bars <;> rfl
  · unfold openingBias
    cases closing : closingBar start.cfg bars with
    | none =>
      have early : ∀ bar ∈ bars, minuteOfDay bar.ts < start.cfg.orbEnd := by
        intro bar member
        have before := List.find?_eq_none.mp closing bar member
        simpa [isLater] using before
      exact (gathers_run early).unbiased
    | some closingBar =>
      obtain ⟨later, first, rest, rfl, before⟩ := List.find?_eq_some_iff_append.mp closing
      have early : ∀ bar ∈ first, minuteOfDay bar.ts < start.cfg.orbEnd := by
        intro bar member
        simpa [isLater] using before bar member
      have gathered : openingBars start.cfg (first ++ closingBar :: rest) =
          first.filter (inOpening start.cfg) := by
        rw [openingBars, List.takeWhile_append_of_pos (by simpa using before)]
        simp [later]
      have gathers := gathers_run early
      obtain ⟨done, bias⟩ := closing_step gathers opened later
      rw [run_append, run, latched_run done, bias, gathered]
      exact breakout_gathered gathers
        (fun bar member => prices bar (List.mem_append_left _ (List.mem_filter.mp member).1)) _

/-- A one-minute bar of a session, by the minute of its day. -/
def minuteBar (minute : ℤ) (high low close : ℚ) : Bar :=
  { symbol := ⟨"SiM6", "RTSX"⟩, timeframe := "M1", opening := low, high := high, low := low,
    close := close, ts := minute * 60 * nsPerSec }

/-- A bar before the session, two of its opening range, the breakout and a later bar. -/
def breakoutSession : List Bar :=
  [minuteBar 410 500 1 300, minuteBar 420 100 95 98, minuteBar 434 110 90 105, minuteBar 435 120 104 111,
    minuteBar 436 111 50 50]

theorem breakout_session_long :
    (run SessionContext.onIntradayBar (SessionContext.init {}).sessionReset breakoutSession).bias =
      .long := by
  rw [bias_of_opening_range (SessionContext.init {}) breakoutSession (by decide +kernel)]
  decide +kernel

end FinamOpeningBias
