import FinamTradebot.DailyHistory
import FinamTradebot.EntryDiscipline
import FinamTradebot.FreshFlow
import FinamTradebot.OpeningBias

/-!
Why an entry was taken. The calls of a session split at the one that closed its opening
range: the bars before it span the range, the daily bars before it give the average the
range is measured against, and its price lies outside the range on the side of the entry.
-/
namespace FinamBreakout
open FinamInterfaces FinamOrderBook FinamSession FinamConfluence FinamCalls FinamDailyHistory Runs
open FinamDiscipline (entry_follows)
open FinamFreshFlow (callRecord)
open FinamOpeningBias (Gathers gathers_nothing gathers_step inOpening)

section Calls
variable (cfg : ConfluenceConfig)

def isIntraday (b : Bar) : Bool := decide (b.symbol = cfg.symbol) && decide (detectTimeframe b = .intraday)

/-- The bar that a call adds to the opening range. -/
def openingBar : Call → List Bar
  | .bar b =>
    if isIntraday cfg b ∧ cfg.sessionCfg.sessionOpenUtcMin ≤ minuteOfDay b.ts ∧
      minuteOfDay b.ts < cfg.sessionCfg.orbEnd then [b] else []
  | .quote _ | .bbo _ _ | .book _ | .trade _ | .order _ | .sessionOpen => []

def dailyBar : Call → List Bar
  | .bar b => if b.symbol = cfg.symbol ∧ detectTimeframe b = .daily then [b] else []
  | .quote _ | .bbo _ _ | .book _ | .trade _ | .order _ | .sessionOpen => []

/-- The price at which a call closes the range: the middle of a quote, whenever it comes, and
    the close of a bar behind the window. -/
def closingPrice : Call → Option ℚ
  | .quote q => if q.symbol = cfg.symbol then some (quoteMid q) else none
  | .bar b => if isIntraday cfg b ∧ cfg.sessionCfg.orbEnd ≤ minuteOfDay b.ts then some b.close else none
  | .bbo _ _ | .book _ | .trade _ | .order _ | .sessionOpen => none

/-- The average range of the daily bars of the calls. -/
def averageRange (calls : List Call) : ℚ :=
  (run SessionContext.onDailyBar (.init cfg.sessionCfg) (calls.flatMap (dailyBar cfg))).atr

/-- The range from `bottom` to `top` of the session's bars is wide enough for the average, and
    the price lies outside it. -/
structure Breakout (history session : List Call) (price top bottom : ℚ) (bias : Bias) : Prop where
  highest : ((session.flatMap (openingBar cfg)).map (·.high)).maximum = (top : WithBot ℚ)
  lowest : ((session.flatMap (openingBar cfg)).map (·.low)).minimum = (bottom : WithTop ℚ)
  wide : averageRange cfg history ≤ 1 / 1000000000 ∨
    cfg.sessionCfg.atrFilterMult * averageRange cfg history ≤ top - bottom
  side : (bias = .long ∧ top < price) ∨ (bias = .short ∧ price < bottom)

/-- The calls of the session, the last ones of all calls, hold the one that closed its range
    with this bias. -/
def BrokenOut (calls session : List Call) (bias : Bias) : Prop :=
  ∃ earlier before closing after price top bottom, calls = earlier ++ session ∧
    session = before ++ closing :: after ∧ closingPrice cfg closing = some price ∧
    Breakout cfg (earlier ++ before) before price top bottom bias

end Calls

section Context
variable {cfg : ConfluenceConfig} {calls session : List Call} {ctx : SessionContext} {c : Call}

/-- The context of a strategy, told by its calls and those of the session. -/
structure Explains (cfg : ConfluenceConfig) (calls session : List Call) (ctx : SessionContext) : Prop where
  last : session <:+ calls
  config : ctx.cfg = cfg.sessionCfg
  average : ctx.atr = averageRange cfg calls
  waiting : ctx.orbFinalized = false → Gathers ctx ctx (session.flatMap (openingBar cfg))
  closed : ctx.orbFinalized = true → ctx.bias ≠ .none → BrokenOut cfg calls session ctx.bias

theorem gathers_self {start : SessionContext} {bars : List Bar} (gathers : Gathers start ctx bars) :
    Gathers ctx ctx bars :=
  { gathers with config := rfl, average := rfl }

theorem broken_out_grows {bias : Bias} (broken : BrokenOut cfg calls session bias) (c : Call) :
    BrokenOut cfg (calls ++ [c]) (session ++ [c]) bias := by
  obtain ⟨earlier, before, closing, after, price, top, bottom, rfl, rfl, closes, breakout⟩ := broken
  exact ⟨earlier, before, closing, after ++ [c], price, top, bottom, by simp, by simp, closes, breakout⟩

theorem average_quiet (calls : List Call) (quiet : dailyBar cfg c = []) :
    averageRange cfg (calls ++ [c]) = averageRange cfg calls := by
  simp [averageRange, quiet]

theorem suffix_snoc (last : session <:+ calls) (c : Call) : session ++ [c] <:+ calls ++ [c] := by
  obtain ⟨earlier, rfl⟩ := last
  exact ⟨earlier, (List.append_assoc _ _ _).symm⟩

theorem explains_reset (explains : Explains cfg calls session ctx) :
    Explains cfg calls [] ctx.sessionReset where
  last := List.nil_suffix
  config := explains.config
  average := explains.average
  waiting _ := gathers_self (gathers_nothing ctx)
  closed done := by cases done

/-- A call that neither the range nor the average takes notice of. -/
theorem explains_quiet (explains : Explains cfg calls session ctx)
    (outside : ctx.orbFinalized = false → openingBar cfg c = []) (quiet : dailyBar cfg c = []) :
    Explains cfg (calls ++ [c]) (session ++ [c]) ctx := by
  refine ⟨suffix_snoc explains.last c, explains.config, ?_, ?_, ?_⟩
  · rw [average_quiet calls quiet]
    exact explains.average
  · intro waiting
    simpa [outside waiting] using explains.waiting waiting
  · intro done biased
    exact broken_out_grows (explains.closed done biased) c

theorem explains_daily {b : Bar} (explains : Explains cfg calls session ctx)
    (outside : openingBar cfg c = []) (daily : dailyBar cfg c = [b]) :
    Explains cfg (calls ++ [c]) (session ++ [c]) (ctx.onDailyBar b) := by
  have average : (ctx.onDailyBar b).atr = averageRange cfg (calls ++ [c]) := by
    have before := explains.average
    unfold averageRange at before ⊢
    rw [List.flatMap_append, List.flatMap_singleton, daily, run_append]
    simp only [run, atr_daily, config_run, explains.config, before]
  obtain ⟨ranges, idx, count, atr, nr7, frame⟩ := daily_frame ctx b
  rw [frame] at average ⊢
  refine ⟨suffix_snoc explains.last c, explains.config, average, ?_, ?_⟩
  · intro waiting
    obtain ⟨-, -, still, unbiased, high, low, dayHigh, dayLow⟩ := explains.waiting waiting
    rw [List.flatMap_append, List.flatMap_singleton, outside, List.append_nil]
    exact ⟨rfl, rfl, still, unbiased, high, low, dayHigh, dayLow⟩
  · intro done biased
    exact broken_out_grows (explains.closed done biased) c

theorem measured {average range mult : ℚ} (wide : ¬(1 / 1000000000 < average ∧ range < mult * average)) :
    average ≤ 1 / 1000000000 ∨ mult * average ≤ range := by
  rcases le_or_gt average (1 / 1000000000) with small | large
  · exact Or.inl small
  · exact Or.inr (not_lt.mp fun narrow => wide ⟨large, narrow⟩)

/-- A bias is fixed only beyond a range that some bars span. -/
theorem breakout_range {bars : List Bar} (gathers : Gathers ctx ctx bars) {price : ℚ}
    (biased : ctx.breakout price ≠ .none) : ∃ top bottom : ℚ,
      (bars.map (·.high)).maximum = (top : WithBot ℚ) ∧ (bars.map (·.low)).minimum = (bottom : WithTop ℚ) ∧
      (ctx.atr ≤ 1 / 1000000000 ∨ ctx.cfg.atrFilterMult * ctx.atr ≤ top - bottom) ∧
      ((ctx.breakout price = .long ∧ top < price) ∨ (ctx.breakout price = .short ∧ price < bottom)) := by
  have some_ : bars ≠ [] := by
    rintro rfl
    exact biased (FinamOpeningBias.breakout_nothing gathers price)
  obtain ⟨top, highest⟩ := WithBot.ne_bot_iff_exists.mp
    (List.maximum_ne_bot_of_ne_nil (l := bars.map (·.high)) (by simpa using some_))
  obtain ⟨bottom, lowest⟩ := WithTop.ne_top_iff_exists.mp
    (List.minimum_ne_top_of_ne_nil (l := bars.map (·.low)) (by simpa using some_))
  have high := gathers.high.trans highest.symm
  have low := gathers.low.trans lowest.symm
  have range : ctx.dayRange = ((top - bottom : ℚ) : WithBot ℚ) := by
    have dayHigh : ctx.currentDayHigh = some top := gathers.dayHigh.trans highest.symm
    have dayLow : ctx.currentDayLow = some bottom := gathers.dayLow.trans lowest.symm
    simp only [SessionContext.dayRange, dayHigh, dayLow]
  refine ⟨top, bottom, highest.symm, lowest.symm, ?_⟩
  simp only [SessionContext.breakout, range, high, low, WithBot.coe_lt_coe, WithTop.coe_lt_coe] at biased ⊢
  split_ifs at biased ⊢ with narrow sentinel above below
  · exact absurd rfl biased
  · exact absurd rfl biased
  · exact ⟨measured narrow, Or.inl ⟨rfl, above⟩⟩
  · exact ⟨measured narrow, Or.inr ⟨rfl, below⟩⟩
  · exact absurd rfl biased

/-- The call that closes the range. -/
theorem explains_finalize (explains : Explains cfg calls session ctx) {price : ℚ}
    (closes : closingPrice cfg c = some price)
    (outside : ctx.orbFinalized = false → openingBar cfg c = []) (quiet : dailyBar cfg c = []) :
    Explains cfg (calls ++ [c]) (session ++ [c]) (ctx.finalizeOrb price) := by
  cases done : ctx.orbFinalized with
  | true =>
    rw [finalize_twice done]
    exact explains_quiet explains outside quiet
  | false =>
    rw [finalize_eq done]
    refine ⟨suffix_snoc explains.last c, explains.config, ?_, ?_, ?_⟩
    · rw [average_quiet calls quiet]
      exact explains.average
    · intro waiting
      cases waiting
    · intro _ biased
      obtain ⟨top, bottom, highest, lowest, wide, side⟩ := breakout_range (explains.waiting done) biased
      obtain ⟨earlier, rfl⟩ := explains.last
      rw [explains.average, explains.config] at wide
      exact ⟨earlier, session, c, [], price, top, bottom, List.append_assoc _ _ _, rfl, closes,
        highest, lowest, wide, side⟩

theorem intraday_quiet {b : Bar} (own : isIntraday cfg b = true) : dailyBar cfg (.bar b) = [] := by
  simp only [isIntraday, Bool.and_eq_true, decide_eq_true_eq] at own
  simp [dailyBar, own.2]

/-- A bar inside the window or before it. -/
theorem explains_gathered {b : Bar} (explains : Explains cfg calls session ctx)
    (own : isIntraday cfg b = true) (early : minuteOfDay b.ts < cfg.sessionCfg.orbEnd)
    (waiting : ctx.orbFinalized = false) :
    Explains cfg (calls ++ [.bar b]) (session ++ [.bar b]) (ctx.onIntradayBar b) := by
  have gathers := gathers_step (explains.waiting waiting) (explains.config.symm ▸ early)
  have added : openingBar cfg (.bar b) = [b].filter (inOpening ctx.cfg) := by
    simp [openingBar, own, early, inOpening, explains.config, List.filter_singleton]
  refine ⟨suffix_snoc explains.last _, gathers.config.trans explains.config, ?_, ?_, ?_⟩
  · rw [average_quiet calls (intraday_quiet own), gathers.average]
    exact explains.average
  · intro _
    rw [List.flatMap_append, List.flatMap_singleton, added]
    exact gathers_self gathers
  · intro done
    rw [gathers.waiting] at done
    cases done

theorem explains_intraday {b : Bar} (explains : Explains cfg calls session ctx)
    (own : isIntraday cfg b = true) :
    Explains cfg (calls ++ [.bar b]) (session ++ [.bar b]) (ctx.onIntradayBar b) := by
  have quiet := intraday_quiet own
  by_cases early : minuteOfDay b.ts < cfg.sessionCfg.orbEnd
  · cases done : ctx.orbFinalized with
    | true =>
      have same : ctx.onIntradayBar b = ctx := by simp [SessionContext.onIntradayBar, done]
      rw [same]
      refine explains_quiet explains ?_ quiet
      intro waiting
      rw [done] at waiting
      cases waiting
    | false => exact explains_gathered explains own early done
  · have outside : openingBar cfg (.bar b) = [] := by simp [openingBar, early]
    have closes : closingPrice cfg (.bar b) = some b.close := by
      simp [closingPrice, own, not_lt.mp early]
    rcases intraday_cases ctx b with ⟨-, same⟩ | ⟨-, -, same⟩ | ⟨-, -, inside, -⟩ | ⟨-, -, -, same⟩
    · rw [same]
      exact explains_quiet explains (fun _ => outside) quiet
    · rw [same]
      exact explains_quiet explains (fun _ => outside) quiet
    · rw [explains.config] at inside
      exact absurd inside early
    · rw [same]
      exact explains_finalize explains closes (fun _ => outside) quiet

end Context

section Run
variable {cfg : ConfluenceConfig} {calls session : List Call} {s : ConfluenceStrategy}

def opened (s : ConfluenceStrategy) (c : Call) : SessionContext :=
  if callResets s c then s.sessionCtx.sessionReset else s.sessionCtx

theorem handle_opened (s : ConfluenceStrategy) (ts : ℤ) : (s.handleSessionOpen ts).sessionCtx =
    if s.opensSession ts then s.sessionCtx.sessionReset else s.sessionCtx := by
  obtain ⟨flag, opening⟩ := open_frame s ts
  rw [opening]
  exact after_reset_sessionCtx s _

/-- The context after a call, from the context that its reset has left. -/
theorem explains_call (libm : Libm) (config : s.cfg = cfg) (c : Call)
    (explains : Explains cfg calls session (opened s c)) :
    Explains cfg (calls ++ [c]) (session ++ [c]) (callStep libm s c).sessionCtx := by
  subst config
  cases c with
  | bbo bid ask => exact explains_quiet explains (fun _ => rfl) rfl
  | book e =>
    obtain ⟨book, spoof, signalTs, frame⟩ := book_frame libm s e
    simp only [callStep, perform, frame]
    exact explains_quiet explains (fun _ => rfl) rfl
  | trade e =>
    obtain ⟨mid, flow, signalTs, frame⟩ := trade_frame s e
    simp only [callStep, perform, frame]
    exact explains_quiet explains (fun _ => rfl) rfl
  | order upd =>
    obtain ⟨entry, frame, -⟩ := update_frame s upd
    simp only [callStep, perform, frame]
    exact explains_quiet explains (fun _ => rfl) rfl
  | sessionOpen => exact explains_quiet explains (fun _ => rfl) rfl
  | quote q =>
    by_cases own : q.symbol = s.cfg.symbol
    · have context : (callStep libm s (.quote q)).sessionCtx =
          (opened s (.quote q)).finalizeOrb (quoteMid q) := by
        have after := quote_context s own
        rw [handle_opened] at after
        simpa [callStep, perform, opened, callResets, ConfluenceStrategy.quoteResets, own] using after
      rw [context]
      exact explains_finalize explains (by simp [closingPrice, own]) (fun _ => rfl) rfl
    · have context : (callStep libm s (.quote q)).sessionCtx = opened s (.quote q) := by
        simp [callStep, perform, opened, callResets, ConfluenceStrategy.quoteResets, own,
          ConfluenceStrategy.onQuote]
      rw [context]
      exact explains_quiet explains (fun _ => rfl) rfl
  | bar b =>
    by_cases own : b.symbol = s.cfg.symbol
    · cases frame : detectTimeframe b with
      | daily =>
        have context : (callStep libm s (.bar b)).sessionCtx = (opened s (.bar b)).onDailyBar b := by
          simp [callStep, perform, opened, callResets, ConfluenceStrategy.barResets, own, frame,
            ConfluenceStrategy.onBar]
        rw [context]
        exact explains_daily explains (by simp [openingBar, isIntraday, frame])
          (by simp [dailyBar, own, frame])
      | intraday =>
        have context : (callStep libm s (.bar b)).sessionCtx = (opened s (.bar b)).onIntradayBar b := by
          simp [callStep, perform, opened, callResets, ConfluenceStrategy.barResets, own, frame,
            ConfluenceStrategy.onBar, handle_opened]
        rw [context]
        exact explains_intraday explains (by simp [isIntraday, own, frame])
      | unknown =>
        have context : (callStep libm s (.bar b)).sessionCtx = opened s (.bar b) := by
          simp [callStep, perform, opened, callResets, ConfluenceStrategy.barResets, own, frame,
            ConfluenceStrategy.onBar]
        rw [context]
        exact explains_quiet explains (fun _ => by simp [openingBar, isIntraday, frame])
          (by simp [dailyBar, frame])
    · have context : (callStep libm s (.bar b)).sessionCtx = opened s (.bar b) := by
        simp [callStep, perform, opened, callResets, ConfluenceStrategy.barResets, own,
          ConfluenceStrategy.onBar]
      rw [context]
      exact explains_quiet explains (fun _ => by simp [openingBar, isIntraday, own])
        (by simp [dailyBar, own])

theorem call_config (libm : Libm) (s : ConfluenceStrategy) (c : Call) : (callStep libm s c).cfg = s.cfg := by
  cases c with
  | bar b =>
    obtain ⟨ctx, opened, frame⟩ := bar_frame s b
    simp [callStep, perform, frame]
  | quote q =>
    obtain ⟨ctx, opened, frame⟩ := quote_frame s q
    simp [callStep, perform, frame]
  | bbo bid ask => rfl
  | book e =>
    obtain ⟨book, spoof, signalTs, frame⟩ := book_frame libm s e
    simp [callStep, perform, frame]
  | trade e =>
    obtain ⟨mid, flow, signalTs, frame⟩ := trade_frame s e
    simp [callStep, perform, frame]
  | order upd =>
    obtain ⟨entry, frame, -⟩ := update_frame s upd
    simp [callStep, perform, frame]
  | sessionOpen => rfl

theorem explains_record (libm : Libm) {l : Logged ConfluenceStrategy Call} (config : l.state.cfg = cfg)
    (explains : Explains cfg calls l.log l.state.sessionCtx) (c : Call) :
    Explains cfg (calls ++ [c]) (callRecord libm l c).log (callRecord libm l c).state.sessionCtx := by
  cases resets : callResets l.state c with
  | true =>
    have context : opened l.state c = l.state.sessionCtx.sessionReset := by simp [opened, resets]
    have step := explains_call libm config c (context.symm ▸ explains_reset explains)
    simpa [callRecord, Logged.record, resets] using step
  | false =>
    have context : opened l.state c = l.state.sessionCtx := by simp [opened, resets]
    have step := explains_call libm config c (context.symm ▸ explains)
    simpa [callRecord, Logged.record, resets] using step

theorem explains_run (libm : Libm) (cfg : ConfluenceConfig) (calls : List Call) :
    let l := run (callRecord libm) ⟨.init libm cfg, []⟩ calls
    l.state.cfg = cfg ∧ Explains cfg calls l.log l.state.sessionCtx := by
  induction calls using List.reverseRecOn with
  | nil =>
    refine ⟨rfl, List.suffix_refl _, rfl, rfl, ?_, ?_⟩
    · intro _
      exact ⟨rfl, rfl, rfl, rfl, rfl, rfl, rfl, rfl⟩
    · intro done
      cases done
  | append_singleton calls c ih =>
    obtain ⟨config, explains⟩ := ih
    rw [run_append]
    exact ⟨(call_config libm _ c).trans config, explains_record libm config explains c⟩

/-- A day of twelve points before the session of 90 to 100 and its close at 111. -/
def wideDay : List Call :=
  .bar { FinamRunner.openingBar with timeframe := "D1", high := 102 } :: (FinamFreshFlow.breakoutDay 4).take 3

def deepBid : Call :=
  .book
    { level := 0, price := 110, oldBidSize := 0, newBidSize := 100, oldAskSize := 0, newAskSize := 0,
      ts := 441 * 60 * nsPerSec }

end Run

end FinamBreakout
