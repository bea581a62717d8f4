import FinamTradebot.OrderBookState
import FinamTradebot.TradeFlow
import FinamTradebot.SpoofFilter
import FinamTradebot.SessionContext

/-!
strategy/confluence_strategy.hpp. Every method runs on the strategy thread, so a
method is a function from the state before the call to the state after it. Log
lines are left out, and with them the arguments that only they read (the price of
`try_enter`, the timestamp of `check_exit`).
-/
namespace FinamConfluence
open FinamInterfaces FinamOrderBook FinamTradeFlow FinamSpoof FinamSession

structure ConfluenceConfig where
  symbol : Symbol
  baseQty : ℤ := 1
  slTicks : ℚ := 30
  tpTicks : ℚ := 90
  tickSize : ℚ := 1
  obCfg : OrderBookStateConfig := {}
  tfiCfg : TradeFlowAnalyzerConfig := {}
  spoofCfg : SpoofFilterConfig := {}
  sessionCfg : SessionContextConfig := {}

structure ConfluenceStrategy where
  cfg : ConfluenceConfig
  obState : OrderBookState
  tfiAnalyzer : TradeFlowAnalyzer
  spoofFilter : SpoofFilter
  sessionCtx : SessionContext
  position : ℤ := 0
  entryPrice : ℚ := 0
  currentBid : ℚ := 0
  currentAsk : ℚ := 0
  currentMid : ℚ := 0
  sessionOpenedToday : Bool := false
  lastSignalTs : ℤ := 0

def ConfluenceStrategy.init (libm : Libm) (cfg : ConfluenceConfig) : ConfluenceStrategy :=
  { cfg := cfg
    obState := OrderBookState.init libm cfg.obCfg
    tfiAnalyzer := TradeFlowAnalyzer.init cfg.tfiCfg
    spoofFilter := SpoofFilter.init cfg.spoofCfg
    sessionCtx := SessionContext.init cfg.sessionCfg }

inductive Timeframe where
  | daily | intraday | unknown
  deriving DecidableEq, Repr

def detectTimeframe (bar : Bar) : Timeframe :=
  if bar.timeframe = "D1" ∨ bar.timeframe = "W1" then .daily
  else if bar.timeframe = "" then .unknown
  else .intraday

def noSignal : Signal := { symbol := ⟨"", ""⟩ }

def sessionOpenUtcMin (ts : ℤ) : ℤ := minuteOfDay ts

def ConfluenceStrategy.onSessionOpen (s : ConfluenceStrategy) : ConfluenceStrategy :=
  { s with
    sessionCtx := s.sessionCtx.sessionReset
    tfiAnalyzer := s.tfiAnalyzer.sessionReset
    spoofFilter := s.spoofFilter.sessionReset
    obState := s.obState.reset
    position := 0
    entryPrice := 0
    lastSignalTs := 0 }

/-- The guard under which `handle_session_open` runs `on_session_open`. -/
def ConfluenceStrategy.opensSession (s : ConfluenceStrategy) (ts : ℤ) : Bool :=
  let minUtc := sessionOpenUtcMin ts
  let start := s.cfg.sessionCfg.sessionOpenUtcMin
  !s.sessionOpenedToday && decide (start ≤ minUtc) && decide (minUtc < start + 5)

def ConfluenceStrategy.handleSessionOpen (s : ConfluenceStrategy) (ts : ℤ) :
    ConfluenceStrategy :=
  let minUtc := sessionOpenUtcMin ts
  let start := s.cfg.sessionCfg.sessionOpenUtcMin
  let s := if s.opensSession ts then { s with sessionOpenedToday := true }.onSessionOpen else s
  if minUtc < start then { s with sessionOpenedToday := false } else s

def ConfluenceStrategy.onBar (s : ConfluenceStrategy) (bar : Bar) : ConfluenceStrategy × Signal :=
  if bar.symbol ≠ s.cfg.symbol then (s, noSignal)
  else
    match detectTimeframe bar with
    | .daily => ({ s with sessionCtx := s.sessionCtx.onDailyBar bar }, noSignal)
    | .intraday =>
      let s := s.handleSessionOpen bar.ts
      ({ s with sessionCtx := s.sessionCtx.onIntradayBar bar }, noSignal)
    | .unknown => (s, noSignal)

def ConfluenceStrategy.closeSignal (s : ConfluenceStrategy) (reason : String) : Signal :=
  { symbol := s.cfg.symbol
    direction := .close
    orderType := .market
    quantity := |s.position|
    reason := reason }

def ConfluenceStrategy.pnlTicks (s : ConfluenceStrategy) (price : ℚ) : ℚ :=
  if 0 < s.position then (price - s.entryPrice) / s.cfg.tickSize
  else (s.entryPrice - price) / s.cfg.tickSize

def ConfluenceStrategy.checkExit (s : ConfluenceStrategy) (price : ℚ) : Option Signal :=
  if s.position = 0 ∨ s.entryPrice < 1 / 1000000000 then none
  else if s.pnlTicks price < -s.cfg.slTicks then some (s.closeSignal "sl_hit")
  else if s.cfg.tpTicks < s.pnlTicks price then some (s.closeSignal "tp_hit")
  else
    let conf := s.obState.vote.toInt + s.tfiAnalyzer.vote.toInt
    if (0 < s.position ∧ conf = -2) ∨ (s.position < 0 ∧ conf = 2) then
      some (s.closeSignal "flow_reversal")
    else none

def quoteMid (q : Quote) : ℚ := (q.bid + q.ask) * (1 / 2)

def ConfluenceStrategy.onQuote (s : ConfluenceStrategy) (q : Quote) : ConfluenceStrategy × Signal :=
  if q.symbol ≠ s.cfg.symbol then (s, noSignal)
  else
    let mid := quoteMid q
    let s := s.handleSessionOpen q.ts
    let s := if s.sessionCtx.orbFinalized then s
      else { s with sessionCtx := s.sessionCtx.finalizeOrb mid }
    if s.position ≠ 0 then (s, (s.checkExit mid).getD noSignal) else (s, noSignal)

def ConfluenceStrategy.onOrderUpdate (s : ConfluenceStrategy) (upd : OrderUpdate) :
    ConfluenceStrategy :=
  if upd.status = .filled then
    { s with
      entryPrice := if s.position = 0 then upd.price else s.entryPrice
      position := s.position + upd.side.signed upd.qtyFilled }
  else s

def ConfluenceStrategy.buildEntry (s : ConfluenceStrategy) (vote : OfiVote) : Signal :=
  let isLong := vote.isLong
  { symbol := s.cfg.symbol
    direction := if isLong then .buy else .sell
    orderType := .market
    quantity := truncate ((s.cfg.baseQty : ℚ) * s.sessionCtx.sizeMultiplier)
    reason := if isLong then "confluence_long" else "confluence_short" }

def ConfluenceStrategy.ofiVote (s : ConfluenceStrategy) : OfiVote :=
  { mlofi := s.obState.vote
    tfi := s.tfiAnalyzer.vote
    confluence := s.obState.vote.toInt + s.tfiAnalyzer.vote.toInt }

def ConfluenceStrategy.tryEnter (s : ConfluenceStrategy) (ts : ℤ) :
    ConfluenceStrategy × Option Signal :=
  let vote := s.ofiVote
  if s.position ≠ 0 then (s, none)
  else if s.sessionCtx.orbFinalized = false then (s, none)
  else if s.sessionCtx.bias = .none then (s, none)
  else if ts - s.lastSignalTs < 5 * nsPerSec then (s, none)
  else if vote.isStrong = false then (s, none)
  else if vote.isLong ∧ s.sessionCtx.allowsLong = false then (s, none)
  else if vote.isShort ∧ s.sessionCtx.allowsShort = false then (s, none)
  else if s.spoofFilter.isSpoofed s.currentBid ts ∨ s.spoofFilter.isSpoofed s.currentAsk ts then
    (s, none)
  else ({ s with lastSignalTs := ts }, some (s.buildEntry vote))

def ConfluenceStrategy.updateSpoofOnBook (s : ConfluenceStrategy) (e : BookLevelEvent) :
    ConfluenceStrategy :=
  let large := s.cfg.spoofCfg.minLargeQty
  let f := s.spoofFilter
  let f := if large < e.newBidSize - e.oldBidSize then f.onLargeAdd e.price e.ts else f
  let f := if large < e.newAskSize - e.oldAskSize then f.onLargeAdd e.price e.ts else f
  let f := if large < e.oldBidSize ∧ e.newBidSize < 1 / 1000000000 then
    f.onLargeCancel e.price e.ts else f
  let f := if large < e.oldAskSize ∧ e.newAskSize < 1 / 1000000000 then
    f.onLargeCancel e.price e.ts else f
  { s with spoofFilter := f }

def ConfluenceStrategy.onBookEvent (libm : Libm) (s : ConfluenceStrategy) (e : BookLevelEvent) :
    ConfluenceStrategy × Option Signal :=
  let s := s.updateSpoofOnBook e
  let s := { s with obState := (s.obState.onBookEvent libm e).1 }
  s.tryEnter e.ts

def ConfluenceStrategy.onTradeEvent (s : ConfluenceStrategy) (e : TradeEvent) :
    ConfluenceStrategy × Option Signal :=
  let s := { s with currentMid := e.price, tfiAnalyzer := (s.tfiAnalyzer.onTrade e).1 }
  s.tryEnter e.ts

def ConfluenceStrategy.updateBbo (s : ConfluenceStrategy) (bid ask : ℚ) : ConfluenceStrategy :=
  { s with currentBid := bid, currentAsk := ask, currentMid := (bid + ask) * (1 / 2) }

def ConfluenceStrategy.afterReset (s : ConfluenceStrategy) (resets : Bool) : ConfluenceStrategy :=
  if resets then s.onSessionOpen else s

theorem open_frame (s : ConfluenceStrategy) (ts : ℤ) :
    ∃ opened, s.handleSessionOpen ts =
      { s.afterReset (s.opensSession ts) with sessionOpenedToday := opened } := by
  simp only [ConfluenceStrategy.handleSessionOpen, ConfluenceStrategy.afterReset]
  split <;> split <;> exact ⟨_, rfl⟩

section AfterReset
variable (s : ConfluenceStrategy) (resets : Bool)

@[simp] theorem after_reset_cfg : (s.afterReset resets).cfg = s.cfg := by
  cases resets <;> rfl

@[simp] theorem after_reset_position :
    (s.afterReset resets).position = if resets then 0 else s.position := by
  cases resets <;> rfl

@[simp] theorem after_reset_entryPrice :
    (s.afterReset resets).entryPrice = if resets then 0 else s.entryPrice := by
  cases resets <;> rfl

@[simp] theorem after_reset_sessionCtx : (s.afterReset resets).sessionCtx =
    if resets then s.sessionCtx.sessionReset else s.sessionCtx := by
  cases resets <;> rfl

end AfterReset

/-- Both votes are the direction of the bias. -/
def ConfluenceStrategy.Agrees (s : ConfluenceStrategy) : Prop :=
  (s.sessionCtx.bias = .long ∧ s.obState.vote = .long ∧ s.tfiAnalyzer.vote = .long) ∨
    (s.sessionCtx.bias = .short ∧ s.obState.vote = .short ∧ s.tfiAnalyzer.vote = .short)

/-- The conditions under which `try_enter` gives a signal. -/
structure ConfluenceStrategy.MayEnter (s : ConfluenceStrategy) (ts : ℤ) : Prop where
  flat : s.position = 0
  finalized : s.sessionCtx.orbFinalized = true
  cooled : 5 * nsPerSec ≤ ts - s.lastSignalTs
  agrees : s.Agrees
  clean : ¬(s.spoofFilter.isSpoofed s.currentBid ts = true ∨
    s.spoofFilter.isSpoofed s.currentAsk ts = true)

theorem agrees_iff (s : ConfluenceStrategy) :
    s.Agrees ↔ s.sessionCtx.bias ≠ .none ∧ s.ofiVote.isStrong = true ∧
      ¬(s.ofiVote.isLong = true ∧ s.sessionCtx.allowsLong = false) ∧
      ¬(s.ofiVote.isShort = true ∧ s.sessionCtx.allowsShort = false) := by
  unfold ConfluenceStrategy.Agrees ConfluenceStrategy.ofiVote OfiVote.isStrong OfiVote.isLong
    OfiVote.isShort SessionContext.allowsLong SessionContext.allowsShort
  cases s.sessionCtx.bias <;> cases s.obState.vote <;> cases s.tfiAnalyzer.vote <;> decide

theorem try_enter_of_may {s : ConfluenceStrategy} {ts : ℤ} (may : s.MayEnter ts) :
    s.tryEnter ts = ({ s with lastSignalTs := ts }, some (s.buildEntry s.ofiVote)) := by
  obtain ⟨flat, finalized, cooled, agrees, clean⟩ := may
  obtain ⟨biased, strong, notLong, notShort⟩ := (agrees_iff s).mp agrees
  unfold ConfluenceStrategy.tryEnter
  rw [if_neg (not_not.mpr flat), if_neg (by simp [finalized]), if_neg biased,
    if_neg (not_lt.mpr cooled), if_neg (by simp [strong]), if_neg notLong, if_neg notShort,
    if_neg clean]

theorem try_enter_of_not {s : ConfluenceStrategy} {ts : ℤ} (not : ¬s.MayEnter ts) :
    s.tryEnter ts = (s, none) := by
  dsimp only [ConfluenceStrategy.tryEnter]
  split_ifs with held unfinished unbiased hot weak long short spoofed
  case neg =>
    have agrees := (agrees_iff s).mpr ⟨unbiased, by simpa using weak, long, short⟩
    exact absurd ⟨not_not.mp held, by simpa using unfinished, not_lt.mp hot, agrees, spoofed⟩ not
  all_goals rfl

theorem try_enter_some {s t : ConfluenceStrategy} {ts : ℤ} {sig : Signal}
    (enter : s.tryEnter ts = (t, some sig)) :
    s.MayEnter ts ∧ t = { s with lastSignalTs := ts } ∧ sig = s.buildEntry s.ofiVote := by
  by_cases may : s.MayEnter ts
  · cases (try_enter_of_may may).symm.trans enter
    exact ⟨may, rfl, rfl⟩
  · cases (try_enter_of_not may).symm.trans enter

theorem try_enter_none {s t : ConfluenceStrategy} {ts : ℤ}
    (stay : s.tryEnter ts = (t, none)) : t = s := by
  by_cases may : s.MayEnter ts
  · cases (try_enter_of_may may).symm.trans stay
  · cases (try_enter_of_not may).symm.trans stay
    rfl

theorem try_enter_frame (s : ConfluenceStrategy) (ts : ℤ) :
    (s.tryEnter ts).1 = { s with lastSignalTs := (s.tryEnter ts).1.lastSignalTs } := by
  cases result : s.tryEnter ts with
  | mk t signal =>
    cases signal with
    | none => rw [try_enter_none result]
    | some sig => obtain ⟨-, rfl, -⟩ := try_enter_some result; rfl

/-- A quote of the strategy's own symbol finalizes the range. -/
theorem quote_context (s : ConfluenceStrategy) {q : Quote} (own : q.symbol = s.cfg.symbol) :
    (s.onQuote q).1.sessionCtx =
      (s.handleSessionOpen q.ts).sessionCtx.finalizeOrb (quoteMid q) := by
  unfold ConfluenceStrategy.onQuote
  rw [if_neg (not_not.mpr own)]
  cases done : (s.handleSessionOpen q.ts).sessionCtx.orbFinalized with
  | true =>
    rw [finalize_twice done]
    simp only [done, ↓reduceIte]
    split <;> rfl
  | false =>
    simp only [done, Bool.false_eq_true, ↓reduceIte]
    split <;> rfl

def ConfluenceStrategy.quoteResets (s : ConfluenceStrategy) (q : Quote) : Bool :=
  decide (q.symbol = s.cfg.symbol) && s.opensSession q.ts

def ConfluenceStrategy.barResets (s : ConfluenceStrategy) (bar : Bar) : Bool :=
  decide (bar.symbol = s.cfg.symbol) && decide (detectTimeframe bar = .intraday) &&
    s.opensSession bar.ts

section Frames
variable (libm : Libm) (s : ConfluenceStrategy)

theorem quote_frame (q : Quote) : ∃ ctx opened, (s.onQuote q).1 =
    { s.afterReset (s.quoteResets q) with sessionCtx := ctx, sessionOpenedToday := opened } := by
  obtain ⟨opened, opening⟩ := open_frame s q.ts
  simp only [ConfluenceStrategy.onQuote, ConfluenceStrategy.quoteResets, opening]
  split
  · rename_i other
    exact ⟨s.sessionCtx, s.sessionOpenedToday, by simp [other, ConfluenceStrategy.afterReset]⟩
  · rename_i own
    simp only [not_not.mp own, decide_true, Bool.true_and]
    split_ifs <;> exact ⟨_, _, rfl⟩

theorem bar_frame (bar : Bar) : ∃ ctx opened, (s.onBar bar).1 =
    { s.afterReset (s.barResets bar) with sessionCtx := ctx, sessionOpenedToday := opened } := by
  obtain ⟨opened, opening⟩ := open_frame s bar.ts
  simp only [ConfluenceStrategy.onBar, ConfluenceStrategy.barResets, opening]
  split
  · rename_i other
    exact ⟨s.sessionCtx, s.sessionOpenedToday, by simp [other, ConfluenceStrategy.afterReset]⟩
  · rename_i own
    split
    · rename_i frame
      exact ⟨_, s.sessionOpenedToday, by simp [frame, ConfluenceStrategy.afterReset]; rfl⟩
    · rename_i frame
      simp only [not_not.mp own, frame, decide_true, Bool.true_and]
      exact ⟨_, _, rfl⟩
    · rename_i frame
      exact ⟨s.sessionCtx, s.sessionOpenedToday, by simp [frame, ConfluenceStrategy.afterReset]⟩

theorem book_frame (e : BookLevelEvent) : ∃ book spoof signalTs, (s.onBookEvent libm e).1 =
    { s with obState := book, spoofFilter := spoof, lastSignalTs := signalTs } := by
  simp only [ConfluenceStrategy.onBookEvent]
  rw [try_enter_frame]
  exact ⟨_, _, _, rfl⟩

theorem trade_frame (e : TradeEvent) : ∃ mid flow signalTs, (s.onTradeEvent e).1 =
    { s with currentMid := mid, tfiAnalyzer := flow, lastSignalTs := signalTs } := by
  simp only [ConfluenceStrategy.onTradeEvent]
  rw [try_enter_frame]
  exact ⟨_, _, _, rfl⟩

theorem update_frame (upd : OrderUpdate) : ∃ entry, s.onOrderUpdate upd =
    { s with
      entryPrice := entry
      position := s.position + if upd.status = .filled then upd.side.signed upd.qtyFilled else 0 } ∧
      (entry = s.entryPrice ∨ entry = upd.price) := by
  simp only [ConfluenceStrategy.onOrderUpdate]
  split
  · split <;> exact ⟨_, rfl, by simp⟩
  · exact ⟨s.entryPrice, by simp, Or.inl rfl⟩

end Frames

/-- The exit rules of `check_exit`, stated on the state and the price alone. -/
def ConfluenceStrategy.ExitDue (s : ConfluenceStrategy) (price : ℚ) : Prop :=
  s.position ≠ 0 ∧ 1 / 1000000000 ≤ s.entryPrice ∧
    (s.pnlTicks price < -s.cfg.slTicks ∨ s.cfg.tpTicks < s.pnlTicks price ∨
      (0 < s.position ∧ s.obState.vote = .short ∧ s.tfiAnalyzer.vote = .short) ∨
      (s.position < 0 ∧ s.obState.vote = .long ∧ s.tfiAnalyzer.vote = .long))

instance (s : ConfluenceStrategy) (price : ℚ) : Decidable (s.ExitDue price) :=
  inferInstanceAs (Decidable (_ ∧ _ ∧ _))

theorem votes_add_up (a b : Vote) :
    (a.toInt + b.toInt = -2 ↔ a = .short ∧ b = .short) ∧
      (a.toInt + b.toInt = 2 ↔ a = .long ∧ b = .long) := by
  cases a <;> cases b <;> decide

theorem check_exit_some {s : ConfluenceStrategy} {price : ℚ} {sig : Signal}
    (exit : s.checkExit price = some sig) : ∃ reason, sig = s.closeSignal reason := by
  unfold ConfluenceStrategy.checkExit at exit
  simp only at exit
  split_ifs at exit
  all_goals exact ⟨_, (Option.some.inj exit).symm⟩

theorem check_exit_iff (s : ConfluenceStrategy) (price : ℚ) :
    (s.checkExit price).isSome = true ↔ s.ExitDue price := by
  have votes := votes_add_up s.obState.vote s.tfiAnalyzer.vote
  unfold ConfluenceStrategy.checkExit ConfluenceStrategy.ExitDue
  simp only [votes.1, votes.2]
  by_cases flat : s.position = 0 ∨ s.entryPrice < 1 / 1000000000
  · rw [if_pos flat]
    rcases flat with flat | unpriced
    · simp [flat]
    · constructor
      · intro impossible
        simp at impossible
      · rintro ⟨-, priced, -⟩
        exact absurd priced (not_le.mpr unpriced)
  · rw [if_neg flat]
    push Not at flat
    split_ifs <;> simp_all

def ConfluenceStrategy.QuoteExits (s : ConfluenceStrategy) (q : Quote) : Prop :=
  q.symbol = s.cfg.symbol ∧ s.opensSession q.ts = false ∧ s.ExitDue (quoteMid q)

instance (s : ConfluenceStrategy) (q : Quote) : Decidable (s.QuoteExits q) :=
  inferInstanceAs (Decidable (_ ∧ _ ∧ _))

theorem check_exit_frame (s : ConfluenceStrategy) (ctx : SessionContext) (opened : Bool)
    (price : ℚ) :
    { s with sessionCtx := ctx, sessionOpenedToday := opened }.checkExit price =
      s.checkExit price := rfl

theorem check_exit_flat {s : ConfluenceStrategy} (flat : s.position = 0) (price : ℚ) :
    s.checkExit price = none := by
  unfold ConfluenceStrategy.checkExit
  exact if_pos (Or.inl flat)

theorem held_exit (s : ConfluenceStrategy) (price : ℚ) :
    (if s.position ≠ 0 then (s, (s.checkExit price).getD noSignal) else (s, noSignal)).2 =
      (s.checkExit price).getD noSignal := by
  split
  · rfl
  · rename_i flat
    rw [check_exit_flat (not_not.mp flat)]
    rfl

/-- A quote's signal is the exit check of the state that the session opening leaves. -/
theorem quote_signal (s : ConfluenceStrategy) {q : Quote} (own : q.symbol = s.cfg.symbol) :
    (s.onQuote q).2 = ((s.afterReset (s.opensSession q.ts)).checkExit (quoteMid q)).getD noSignal := by
  obtain ⟨opened, opening⟩ := open_frame s q.ts
  unfold ConfluenceStrategy.onQuote
  rw [if_neg (not_not.mpr own), held_exit, opening]
  congr 1
  split
  · exact check_exit_frame _ _ opened _
  · exact check_exit_frame _ _ opened _

theorem quote_signal_of_exit {s : ConfluenceStrategy} {q : Quote} (exits : s.QuoteExits q) :
    ∃ reason, (s.onQuote q).2 = s.closeSignal reason := by
  obtain ⟨own, stays, due⟩ := exits
  obtain ⟨sig, found⟩ := Option.isSome_iff_exists.mp ((check_exit_iff s (quoteMid q)).mpr due)
  obtain ⟨reason, rfl⟩ := check_exit_some found
  refine ⟨reason, ?_⟩
  rw [quote_signal s own, stays]
  exact congrArg (Option.getD · noSignal) found

theorem quote_signal_of_no_exit {s : ConfluenceStrategy} {q : Quote} (stays : ¬ s.QuoteExits q) :
    (s.onQuote q).2 = noSignal := by
  by_cases own : q.symbol = s.cfg.symbol
  · rw [quote_signal s own]
    cases resets : s.opensSession q.ts with
    | true =>
      rw [check_exit_flat (by simp)]
      rfl
    | false =>
      have silent : s.checkExit (quoteMid q) = none := by
        rw [← Option.not_isSome_iff_eq_none, check_exit_iff]
        exact fun due => stays ⟨own, resets, due⟩
      exact congrArg (Option.getD · noSignal) silent
  · unfold ConfluenceStrategy.onQuote
    rw [if_pos own]

end FinamConfluence
