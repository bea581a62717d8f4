import FinamTradebot.StrategyCalls
import FinamTradebot.StrategyRunner
import Mathlib.Algebra.Order.Group.MinMax
import Mathlib.Tactic.Linarith
import Mathlib.Tactic.NormNum
import Mathlib.Tactic.Ring

/-!
Long and short are mirror images. A price is reflected at a constant, the two sides of
the book and of every order are exchanged, and the strategy answers every call with the
reflected signal. The relation between the two runs is stated for each component and
kept by each of its operations.
-/
namespace FinamMirror
open FinamInterfaces FinamOrderBook FinamTradeFlow FinamSpoof FinamSession FinamConfluence FinamCalls
open Runs
open FinamRunner hiding Action

section Reflection

def mirrorBar (C : ℚ) (b : Bar) : Bar :=
  { b with opening := C - b.opening, high := C - b.low, low := C - b.high, close := C - b.close }

def mirrorQuote (C : ℚ) (q : Quote) : Quote :=
  { q with bid := C - q.ask, ask := C - q.bid, last := C - q.last }

def mirrorBook (C : ℚ) (e : BookLevelEvent) : BookLevelEvent :=
  { e with
    price := C - e.price
    oldBidSize := e.oldAskSize
    newBidSize := e.newAskSize
    oldAskSize := e.oldBidSize
    newAskSize := e.newBidSize }

def mirrorTrade (C : ℚ) (e : TradeEvent) : TradeEvent := { e with price := C - e.price, isBuy := !e.isBuy }

def mirrorSide : OrderSide → OrderSide
  | .buy => .sell
  | .sell => .buy

def mirrorUpdate (C : ℚ) (upd : OrderUpdate) : OrderUpdate :=
  { upd with price := C - upd.price, side := mirrorSide upd.side }

def mirrorCall (C : ℚ) : Call → Call
  | .bar b => .bar (mirrorBar C b)
  | .quote q => .quote (mirrorQuote C q)
  | .bbo bid ask => .bbo (C - ask) (C - bid)
  | .book e => .book (mirrorBook C e)
  | .trade e => .trade (mirrorTrade C e)
  | .order upd => .order (mirrorUpdate C upd)
  | .sessionOpen => .sessionOpen

def mirrorDirection : Direction → Direction
  | .buy => .sell
  | .sell => .buy
  | .close => .close
  | .none => .none

/-- The reason text of an entry names its direction. -/
def mirrorReason (reason : String) : Direction → String
  | .buy => "confluence_short"
  | .sell => "confluence_long"
  | .close | .none => reason

def mirrorSignal (sig : Signal) : Signal :=
  { sig with
    direction := mirrorDirection sig.direction
    reason := mirrorReason sig.reason sig.direction }

def mirrorVote : Vote → Vote
  | .long => .short
  | .short => .long
  | .neutral => .neutral

def mirrorBias : Bias → Bias
  | .long => .short
  | .short => .long
  | .none => .none

/-- A multiple of 0.01 strictly between 0 and `C`, both ends widened by the tolerance the
    code uses for prices. -/
structure ValidPrice (C p : ℚ) : Prop where
  grid : ∃ n : ℤ, p = n / 100
  above : 1 / 1000000000 < p
  below : p < C - 1 / 1000000000

def ValidCall (C : ℚ) : Call → Prop
  | .bar b => ValidPrice C b.high ∧ ValidPrice C b.low ∧ b.low ≤ b.high
  | .quote q => ValidPrice C q.bid ∧ ValidPrice C q.ask
  | .bbo bid ask => ValidPrice C bid ∧ ValidPrice C ask
  | .book e => ValidPrice C e.price
  | .trade _ => True
  | .order upd => ValidPrice C upd.price
  | .sessionOpen => True

end Reflection

theorem negated_vote {threshold : ℚ} (nonneg : 0 ≤ threshold) (x : ℚ) :
    (if threshold < -x then Vote.long else if -x < -threshold then .short else .neutral) =
      mirrorVote (if threshold < x then .long else if x < -threshold then .short else .neutral) := by
  by_cases long : threshold < x
  · rw [if_pos long, if_neg (by linarith), if_pos (by linarith)]
    rfl
  · by_cases short : x < -threshold
    · rw [if_neg long, if_pos short, if_pos (by linarith)]
      rfl
    · rw [if_neg long, if_neg short, if_neg (by linarith), if_neg (by linarith)]
      rfl

section Book
variable {s t : OrderBookState}

structure BookMirrored (s t : OrderBookState) : Prop where
  cfg : t.cfg = s.cfg
  threshold : 0 ≤ s.cfg.signalThreshold
  weights : t.weights = s.weights
  score : t.score = -s.score
  ts : t.lastEventTs = s.lastEventTs

theorem book_decay (libm : Libm) (mirrored : BookMirrored s t) (now : ℤ) :
    BookMirrored (s.applyTimeDecay libm now) (t.applyTimeDecay libm now) := by
  obtain ⟨cfg, threshold, weights, score, ts⟩ := mirrored
  unfold OrderBookState.applyTimeDecay
  rw [ts, cfg]
  split
  · exact ⟨rfl, threshold, weights, score, rfl⟩
  · simp only
    split
    · exact ⟨cfg, threshold, weights, score, ts⟩
    · refine ⟨rfl, threshold, weights, ?_, rfl⟩
      simp only [score, neg_mul]

theorem book_event (libm : Libm) (mirrored : BookMirrored s t) (C : ℚ) (e : BookLevelEvent) :
    BookMirrored (s.onBookEvent libm e).1 (t.onBookEvent libm (mirrorBook C e)).1 := by
  unfold OrderBookState.onBookEvent
  by_cases valid : 0 ≤ e.level ∧ e.level < kBookLevels
  · obtain ⟨cfg, threshold, weights, score, ts⟩ := book_decay libm mirrored e.ts
    have same : 0 ≤ (mirrorBook C e).level ∧ (mirrorBook C e).level < kBookLevels := valid
    rw [dif_pos valid, dif_pos same]
    refine ⟨cfg, threshold, weights, ?_, ts⟩
    simp only [mirrorBook, score, weights]
    ring
  · have same : ¬(0 ≤ (mirrorBook C e).level ∧ (mirrorBook C e).level < kBookLevels) := valid
    rw [dif_neg valid, dif_neg same]
    exact mirrored

theorem book_reset (mirrored : BookMirrored s t) : BookMirrored s.reset t.reset :=
  ⟨mirrored.cfg, mirrored.threshold, mirrored.weights, neg_zero.symm, rfl⟩

theorem book_vote (mirrored : BookMirrored s t) : t.vote = mirrorVote s.vote := by
  unfold OrderBookState.vote
  rw [mirrored.cfg, mirrored.score]
  exact negated_vote mirrored.threshold s.score

end Book

section Flow
variable {C : ℚ} {s t : TradeFlowAnalyzer}

structure FlowMirrored (C : ℚ) (s t : TradeFlowAnalyzer) : Prop where
  cfg : t.cfg = s.cfg
  threshold : 0 ≤ s.cfg.signalThreshold
  window : t.window = s.window.map (mirrorTrade C)

theorem flow_trade (mirrored : FlowMirrored C s t) (e : TradeEvent) :
    FlowMirrored C (s.onTrade e).1 (t.onTrade (mirrorTrade C e)).1 := by
  obtain ⟨cfg, threshold, window⟩ := mirrored
  refine ⟨cfg, threshold, ?_⟩
  simp only [TradeFlowAnalyzer.onTrade, TradeFlowAnalyzer.buildResult,
    TradeFlowAnalyzer.updateAvgVolume, TradeFlowAnalyzer.evictOld, window, cfg, List.map_append,
    List.map_cons, List.map_nil, List.dropWhile_map]
  rfl

theorem flow_reset (mirrored : FlowMirrored C s t) : FlowMirrored C s.sessionReset t.sessionReset :=
  ⟨mirrored.cfg, mirrored.threshold, rfl⟩

theorem mirrored_volume (C : ℚ) (isBuy : Bool) (trades : List TradeEvent) :
    sideVolume isBuy (trades.map (mirrorTrade C)) = sideVolume (!isBuy) trades := by
  induction trades with
  | nil => rfl
  | cons e rest ih =>
    unfold sideVolume at *
    cases own : e.isBuy <;> cases isBuy <;> simp_all [mirrorTrade]

theorem flow_norm (mirrored : FlowMirrored C s t) : t.normalizedTfi = -s.normalizedTfi := by
  unfold TradeFlowAnalyzer.normalizedTfi
  rw [mirrored.window, mirrored_volume, mirrored_volume]
  simp only [Bool.not_true, Bool.not_false]
  rw [add_comm (sideVolume false s.window)]
  split
  · exact neg_zero.symm
  · rw [← neg_div, neg_sub]

theorem flow_vote (mirrored : FlowMirrored C s t) : t.vote = mirrorVote s.vote := by
  unfold TradeFlowAnalyzer.vote
  rw [mirrored.cfg, flow_norm mirrored]
  exact negated_vote mirrored.threshold s.normalizedTfi

end Flow

section Keys
variable {N n : ℤ} {C p : ℚ}

theorem round_grid (n : ℤ) : roundPrice (n / 100) = n := by
  have scaled : (n : ℚ) / 100 * 100 = n := by ring
  unfold roundPrice
  simp only [scaled]
  split
  · rw [Int.floor_eq_iff]
    constructor <;> linarith
  · rw [Int.ceil_eq_iff]
    constructor <;> linarith

/-- A valid price and its reflection have reflected keys, both strictly inside. -/
theorem valid_key (bound : C = N / 100) (valid : ValidPrice C p) :
    0 < roundPrice p ∧ roundPrice p < N ∧ roundPrice (C - p) = N - roundPrice p := by
  obtain ⟨⟨n, rfl⟩, above, below⟩ := valid
  subst bound
  have reflected : (N : ℚ) / 100 - n / 100 = ((N - n : ℤ) : ℚ) / 100 := by
    push_cast
    ring
  rw [reflected, round_grid, round_grid]
  refine ⟨?_, ?_, rfl⟩
  · have positive : (0 : ℚ) < n := by linarith
    exact_mod_cast positive
  · have less : (n : ℚ) < N := by linarith
    exact_mod_cast less

theorem update_reflected {V : Type} {f g : ℤ → Option V} (same : ∀ key, g (N - key) = f key)
    (k : ℤ) (v : Option V) (key : ℤ) :
    Function.update g (N - k) v (N - key) = Function.update f k v key := by
  by_cases here : key = k
  · subst here
    simp
  · have apart : N - key ≠ N - k := by omega
    rw [Function.update_of_ne apart, Function.update_of_ne here, same]

end Keys

section Spoof
variable {N k : ℤ} {C p : ℚ} {s t : SpoofFilter}

structure SpoofMirrored (N : ℤ) (s t : SpoofFilter) : Prop where
  cfg : t.cfg = s.cfg
  stats : ∀ key, t.stats (N - key) = s.stats key
  flagged : ∀ key, t.flagged (N - key) = s.flagged key
  inside : ∀ key, key ≤ 0 ∨ N ≤ key → s.flagged key = none

theorem spoof_level (mirrored : SpoofMirrored N s t) (key : ℤ) : t.level (N - key) = s.level key := by
  unfold SpoofFilter.level
  rw [mirrored.stats]

theorem spoof_set (mirrored : SpoofMirrored N s t) (k : ℤ) (l : Option LevelStats) :
    SpoofMirrored N { s with stats := Function.update s.stats k l }
      { t with stats := Function.update t.stats (N - k) l } :=
  ⟨mirrored.cfg, update_reflected mirrored.stats k l, mirrored.flagged, mirrored.inside⟩

theorem spoof_evict (mirrored : SpoofMirrored N s t) (now : ℤ) :
    SpoofMirrored N (s.evictOld now) (t.evictOld now) := by
  refine ⟨mirrored.cfg, ?_, mirrored.flagged, mirrored.inside⟩
  intro key
  simp only [SpoofFilter.evictOld, mirrored.stats, mirrored.cfg]

theorem spoof_add (bound : C = N / 100) (valid : ValidPrice C p) (mirrored : SpoofMirrored N s t)
    (ts : ℤ) : SpoofMirrored N (s.onLargeAdd p ts) (t.onLargeAdd (C - p) ts) := by
  unfold SpoofFilter.onLargeAdd
  simp only [(valid_key bound valid).2.2, spoof_level mirrored]
  exact spoof_evict (spoof_set mirrored _ _) ts

theorem spoof_flag (bound : C = N / 100) (valid : ValidPrice C p) (mirrored : SpoofMirrored N s t)
    (ts : ℤ) : SpoofMirrored N (s.maybeFlag p ts) (t.maybeFlag (C - p) ts) := by
  obtain ⟨positive, less, reflected⟩ := valid_key bound valid
  unfold SpoofFilter.maybeFlag
  simp only [reflected, spoof_level mirrored, mirrored.cfg]
  have set := spoof_set mirrored (roundPrice p) (some (s.level (roundPrice p)))
  split
  · exact ⟨rfl, set.stats, set.flagged, set.inside⟩
  · split
    · refine ⟨rfl, set.stats, update_reflected set.flagged _ _, ?_⟩
      intro key outside
      have apart : key ≠ roundPrice p := by omega
      exact (Function.update_of_ne apart _ _).trans (set.inside key outside)
    · exact ⟨rfl, set.stats, set.flagged, set.inside⟩

theorem spoof_cancel (bound : C = N / 100) (valid : ValidPrice C p) (mirrored : SpoofMirrored N s t)
    (ts : ℤ) : SpoofMirrored N (s.onLargeCancel p ts) (t.onLargeCancel (C - p) ts) := by
  unfold SpoofFilter.onLargeCancel
  simp only [(valid_key bound valid).2.2, spoof_level mirrored]
  exact spoof_evict (spoof_flag bound valid (spoof_set mirrored _ _) ts) ts

theorem spoof_reset (mirrored : SpoofMirrored N s t) :
    SpoofMirrored N s.sessionReset t.sessionReset :=
  ⟨mirrored.cfg, fun _ => rfl, fun _ => rfl, fun _ _ => rfl⟩

theorem spoofed_reflected (bound : C = N / 100) (valid : ValidPrice C p)
    (mirrored : SpoofMirrored N s t) (now : ℤ) : t.isSpoofed (C - p) now = s.isSpoofed p now := by
  unfold SpoofFilter.isSpoofed
  rw [(valid_key bound valid).2.2, mirrored.flagged, mirrored.cfg]

end Spoof

section Context
variable {C : ℚ} {s t : SessionContext}

/-- Both ranges are empty, or both are finite, ordered and reflected. -/
def RangeMirrored (C : ℚ) (high : WithBot ℚ) (low : WithTop ℚ) (high' : WithBot ℚ)
    (low' : WithTop ℚ) : Prop :=
  (high = ⊥ ∧ low = ⊤ ∧ high' = ⊥ ∧ low' = ⊤) ∨
    ∃ h l : ℚ, l ≤ h ∧ 0 < l ∧ h < C ∧ high = (h : WithBot ℚ) ∧ low = (l : WithTop ℚ) ∧
      high' = ((C - l : ℚ) : WithBot ℚ) ∧ low' = ((C - h : ℚ) : WithTop ℚ)

theorem range_extend {high high' : WithBot ℚ} {low low' : WithTop ℚ} {h l : ℚ}
    (range : RangeMirrored C high low high' low') (ordered : l ≤ h) (positive : 0 < l) (less : h < C) :
    RangeMirrored C (max high (h : WithBot ℚ)) (min low (l : WithTop ℚ))
      (max high' ((C - l : ℚ) : WithBot ℚ)) (min low' ((C - h : ℚ) : WithTop ℚ)) := by
  right
  rcases range with ⟨rfl, rfl, rfl, rfl⟩ | ⟨h', l', ordered', positive', less', rfl, rfl, rfl, rfl⟩
  · exact ⟨h, l, ordered, positive, less, by simp, by simp, by simp, by simp⟩
  · refine ⟨max h' h, min l' l, ?_, lt_min positive' positive, max_lt less' less, ?_, ?_, ?_, ?_⟩
    · exact le_trans (min_le_left l' l) (le_trans ordered' (le_max_left h' h))
    · exact WithBot.coe_max h' h |>.symm
    · exact WithTop.coe_min l' l |>.symm
    · rw [← WithBot.coe_max, max_sub_sub_left]
    · rw [← WithTop.coe_min, min_sub_sub_left]

structure ContextMirrored (C : ℚ) (s t : SessionContext) : Prop where
  cfg : t.cfg = s.cfg
  ranges : t.dailyRanges = s.dailyRanges
  idx : t.dailyIdx = s.dailyIdx
  count : t.dailyCount = s.dailyCount
  atr : t.atr = s.atr
  nr7 : t.nr7Confirmed = s.nr7Confirmed
  bias : t.bias = mirrorBias s.bias
  finalized : t.orbFinalized = s.orbFinalized
  range : RangeMirrored C s.orbHigh s.orbLow t.orbHigh t.orbLow
  day : RangeMirrored C s.currentDayHigh s.currentDayLow t.currentDayHigh t.currentDayLow

theorem context_daily (mirrored : ContextMirrored C s t) (b : Bar) :
    ContextMirrored C (s.onDailyBar b) (t.onDailyBar (mirrorBar C b)) := by
  obtain ⟨cfg, ranges, idx, count, atr, nr7, bias, finalized, range, day⟩ := mirrored
  have same : (C - b.low) - (C - b.high) = b.high - b.low := by ring
  simp only [SessionContext.onDailyBar, mirrorBar, same, SessionContext.updateAtr,
    SessionContext.updateNr7, SessionContext.slot, ranges, idx, count, atr, cfg]
  split_ifs <;> exact ⟨rfl, rfl, rfl, rfl, rfl, rfl, bias, finalized, range, day⟩

theorem day_range_mirrored (mirrored : ContextMirrored C s t) : t.dayRange = s.dayRange := by
  unfold SessionContext.dayRange
  rcases mirrored.day with ⟨high, low, high', low'⟩ | ⟨h, l, -, -, -, high, low, high', low'⟩
  · rw [high, low, high', low']
  · rw [high, low, high', low']
    change ((C - l - (C - h) : ℚ) : WithBot ℚ) = ((h - l : ℚ) : WithBot ℚ)
    rw [sub_sub_sub_cancel_left]

theorem finite_breakout {h l price : ℚ} (ordered : l ≤ h) (less : h < C) (positive : 0 < l)
    {none_ : Prop} [Decidable none_] :
    (if none_ then Bias.none
      else if ((C - l : ℚ) : WithBot ℚ) < ((-100000000 : ℚ) : WithBot ℚ) then .none
      else if ((C - l : ℚ) : WithBot ℚ) < ((C - price : ℚ) : WithBot ℚ) then .long
      else if ((C - price : ℚ) : WithTop ℚ) < ((C - h : ℚ) : WithTop ℚ) then .short
      else .none) =
    mirrorBias (if none_ then .none
      else if (h : WithBot ℚ) < ((-100000000 : ℚ) : WithBot ℚ) then .none
      else if (h : WithBot ℚ) < (price : WithBot ℚ) then .long
      else if (price : WithTop ℚ) < (l : WithTop ℚ) then .short
      else .none) := by
  simp only [WithBot.coe_lt_coe, WithTop.coe_lt_coe]
  by_cases filtered : none_
  · rw [if_pos filtered, if_pos filtered]
    rfl
  · have traded : ¬h < -100000000 := by linarith
    have traded' : ¬C - l < -100000000 := by linarith
    rw [if_neg filtered, if_neg filtered, if_neg traded, if_neg traded']
    simp only [sub_lt_sub_iff_left]
    by_cases above : h < price
    · have notBelow : ¬price < l := by linarith
      simp only [above, notBelow, ↓reduceIte, mirrorBias]
    · by_cases below : price < l
      · simp only [above, below, ↓reduceIte, mirrorBias]
      · simp only [above, below, ↓reduceIte, mirrorBias]

theorem breakout_mirrored (mirrored : ContextMirrored C s t) (price : ℚ) :
    t.breakout (C - price) = mirrorBias (s.breakout price) := by
  unfold SessionContext.breakout
  rw [day_range_mirrored mirrored, mirrored.atr, mirrored.cfg]
  rcases mirrored.range with ⟨high, low, high', low'⟩ |
    ⟨h, l, ordered, positive, less, high, low, high', low'⟩
  · rw [high, high', if_pos (WithBot.bot_lt_coe _), if_pos (WithBot.bot_lt_coe _), ite_self]
    rfl
  · rw [high, low, high', low']
    exact finite_breakout ordered less positive

theorem context_finalize (mirrored : ContextMirrored C s t) (price : ℚ) :
    ContextMirrored C (s.finalizeOrb price) (t.finalizeOrb (C - price)) := by
  cases finalized : s.orbFinalized with
  | true =>
    rw [finalize_twice finalized, finalize_twice (mirrored.finalized.trans finalized)]
    exact mirrored
  | false =>
    rw [finalize_eq finalized, finalize_eq (mirrored.finalized.trans finalized)]
    exact { mirrored with bias := breakout_mirrored mirrored price, finalized := rfl }

theorem context_intraday {b : Bar} (high : ValidPrice C b.high) (low : ValidPrice C b.low)
    (ordered : b.low ≤ b.high) (mirrored : ContextMirrored C s t) :
    ContextMirrored C (s.onIntradayBar b) (t.onIntradayBar (mirrorBar C b)) := by
  have positive : 0 < b.low := by linarith [low.above]
  have less : b.high < C := by linarith [high.below]
  have sameTs : (mirrorBar C b).ts = b.ts := rfl
  unfold SessionContext.onIntradayBar
  simp only [mirrored.finalized, mirrored.cfg, sameTs]
  split
  · exact mirrored
  · split
    · exact mirrored
    · split
      · exact { mirrored with
          cfg := rfl
          finalized := rfl
          range := range_extend mirrored.range ordered positive less
          day := range_extend mirrored.day ordered positive less }
      · exact context_finalize mirrored b.close

theorem context_reset (mirrored : ContextMirrored C s t) :
    ContextMirrored C s.sessionReset t.sessionReset :=
  { mirrored with
    bias := rfl
    finalized := rfl
    range := Or.inl ⟨rfl, rfl, rfl, rfl⟩
    day := Or.inl ⟨rfl, rfl, rfl, rfl⟩ }

end Context

section Strategy
variable {N : ℤ} {C : ℚ} {s t : ConfluenceStrategy}

/-- No quote has been seen, or the best prices are valid and reflected. -/
def QuotesMirrored (C : ℚ) (s t : ConfluenceStrategy) : Prop :=
  (s.currentBid = 0 ∧ s.currentAsk = 0 ∧ t.currentBid = 0 ∧ t.currentAsk = 0) ∨
    (ValidPrice C s.currentBid ∧ ValidPrice C s.currentAsk ∧
      t.currentBid = C - s.currentAsk ∧ t.currentAsk = C - s.currentBid)

structure Mirrored (N : ℤ) (C : ℚ) (s t : ConfluenceStrategy) : Prop where
  cfg : t.cfg = s.cfg
  book : BookMirrored s.obState t.obState
  flow : FlowMirrored C s.tfiAnalyzer t.tfiAnalyzer
  spoof : SpoofMirrored N s.spoofFilter t.spoofFilter
  context : ContextMirrored C s.sessionCtx t.sessionCtx
  position : t.position = -s.position
  entry : s.position ≠ 0 → ValidPrice C s.entryPrice ∧ t.entryPrice = C - s.entryPrice
  quotes : QuotesMirrored C s t
  opened : t.sessionOpenedToday = s.sessionOpenedToday
  signalTs : t.lastSignalTs = s.lastSignalTs

theorem mirrored_init (libm : Libm) {cfg : ConfluenceConfig} (book : 0 ≤ cfg.obCfg.signalThreshold)
    (flow : 0 ≤ cfg.tfiCfg.signalThreshold) :
    Mirrored N C (.init libm cfg) (.init libm cfg) where
  cfg := rfl
  book := ⟨rfl, book, rfl, neg_zero.symm, rfl⟩
  flow := ⟨rfl, flow, rfl⟩
  spoof := ⟨rfl, fun _ => rfl, fun _ => rfl, fun _ _ => rfl⟩
  context := ⟨rfl, rfl, rfl, rfl, rfl, rfl, rfl, rfl, Or.inl ⟨rfl, rfl, rfl, rfl⟩,
    Or.inl ⟨rfl, rfl, rfl, rfl⟩⟩
  position := rfl
  entry := fun held => absurd rfl held
  quotes := Or.inl ⟨rfl, rfl, rfl, rfl⟩
  opened := rfl
  signalTs := rfl

theorem mirrored_open (mirrored : Mirrored N C s t) : Mirrored N C s.onSessionOpen t.onSessionOpen :=
  { mirrored with
    book := book_reset mirrored.book
    flow := flow_reset mirrored.flow
    spoof := spoof_reset mirrored.spoof
    context := context_reset mirrored.context
    position := rfl
    entry := fun held => absurd rfl held
    signalTs := rfl }

theorem mirrored_handle (mirrored : Mirrored N C s t) (ts : ℤ) :
    Mirrored N C (s.handleSessionOpen ts) (t.handleSessionOpen ts) := by
  have sameOpen : t.opensSession ts = s.opensSession ts := by
    simp only [ConfluenceStrategy.opensSession, mirrored.opened, mirrored.cfg]
  have after : Mirrored N C
      (if s.opensSession ts then { s with sessionOpenedToday := true }.onSessionOpen else s)
      (if s.opensSession ts then { t with sessionOpenedToday := true }.onSessionOpen else t) := by
    split
    · exact { mirrored_open mirrored with opened := rfl }
    · exact mirrored
  have sameStart : t.cfg.sessionCfg.sessionOpenUtcMin = s.cfg.sessionCfg.sessionOpenUtcMin := by
    rw [mirrored.cfg]
  unfold ConfluenceStrategy.handleSessionOpen
  simp only [sameOpen, sameStart]
  split
  · exact { after with opened := rfl }
  · exact after

theorem mirrored_bar {b : Bar} (valid : ValidCall C (.bar b)) (mirrored : Mirrored N C s t) :
    Mirrored N C (s.onBar b).1 (t.onBar (mirrorBar C b)).1 := by
  obtain ⟨high, low, ordered⟩ := valid
  have sameFrame : detectTimeframe (mirrorBar C b) = detectTimeframe b := rfl
  unfold ConfluenceStrategy.onBar
  by_cases foreign : b.symbol ≠ s.cfg.symbol
  · have foreign' : (mirrorBar C b).symbol ≠ t.cfg.symbol := by
      rw [mirrored.cfg]
      exact foreign
    rw [if_pos foreign, if_pos foreign']
    exact mirrored
  · have own' : ¬(mirrorBar C b).symbol ≠ t.cfg.symbol := by
      rw [mirrored.cfg]
      exact foreign
    rw [if_neg foreign, if_neg own', sameFrame]
    cases detectTimeframe b with
    | daily => exact { mirrored with context := context_daily mirrored.context b }
    | intraday =>
      have handled := mirrored_handle mirrored b.ts
      exact { handled with context := context_intraday high low ordered handled.context }
    | unknown => exact mirrored

theorem pnl_mirrored (mirrored : Mirrored N C s t) (held : s.position ≠ 0) (price : ℚ) :
    t.pnlTicks (C - price) = s.pnlTicks price := by
  unfold ConfluenceStrategy.pnlTicks
  rw [mirrored.position, (mirrored.entry held).2, mirrored.cfg]
  by_cases long : 0 < s.position
  · rw [if_pos long, if_neg (by omega), sub_sub_sub_cancel_left]
  · rw [if_neg long, if_pos (by omega), sub_sub_sub_cancel_left]

theorem close_mirrored (mirrored : Mirrored N C s t) (reason : String) :
    t.closeSignal reason = s.closeSignal reason := by
  unfold ConfluenceStrategy.closeSignal
  rw [mirrored.cfg, mirrored.position, abs_neg]

theorem mirrored_vote_int (v : Vote) : (mirrorVote v).toInt = -v.toInt := by
  cases v <;> rfl

theorem confluence_mirrored (mirrored : Mirrored N C s t) :
    t.obState.vote.toInt + t.tfiAnalyzer.vote.toInt =
      -(s.obState.vote.toInt + s.tfiAnalyzer.vote.toInt) := by
  rw [book_vote mirrored.book, flow_vote mirrored.flow, mirrored_vote_int, mirrored_vote_int]
  ring

theorem exit_mirrored (mirrored : Mirrored N C s t) (price : ℚ) :
    t.checkExit (C - price) = s.checkExit price := by
  by_cases flat : s.position = 0
  · have flat' : t.position = 0 := by
      rw [mirrored.position, flat]
      rfl
    rw [check_exit_flat flat, check_exit_flat flat']
  · obtain ⟨valid, entry⟩ := mirrored.entry flat
    have priced : ¬(s.position = 0 ∨ s.entryPrice < 1 / 1000000000) := by
      rintro (zero | unpriced)
      · exact flat zero
      · linarith [valid.above]
    have priced' : ¬(t.position = 0 ∨ t.entryPrice < 1 / 1000000000) := by
      rw [mirrored.position, entry]
      rintro (zero | unpriced)
      · exact flat (neg_eq_zero.mp zero)
      · linarith [valid.below]
    unfold ConfluenceStrategy.checkExit
    rw [if_neg priced, if_neg priced']
    simp only [pnl_mirrored mirrored flat, close_mirrored mirrored, confluence_mirrored mirrored,
      mirrored.cfg, mirrored.position]
    have reversal : ((0 < -s.position ∧
          -(s.obState.vote.toInt + s.tfiAnalyzer.vote.toInt) = -2) ∨
        (-s.position < 0 ∧ -(s.obState.vote.toInt + s.tfiAnalyzer.vote.toInt) = 2)) ↔
        ((0 < s.position ∧ s.obState.vote.toInt + s.tfiAnalyzer.vote.toInt = -2) ∨
          (s.position < 0 ∧ s.obState.vote.toInt + s.tfiAnalyzer.vote.toInt = 2)) := by
      omega
    simp only [reversal]

theorem mid_mirrored (C : ℚ) (q : Quote) : quoteMid (mirrorQuote C q) = C - quoteMid q := by
  simp only [quoteMid, mirrorQuote]
  ring

theorem mirrored_finalize (mirrored : Mirrored N C s t) (price : ℚ) :
    Mirrored N C
      (if s.sessionCtx.orbFinalized then s
        else { s with sessionCtx := s.sessionCtx.finalizeOrb price })
      (if t.sessionCtx.orbFinalized then t
        else { t with sessionCtx := t.sessionCtx.finalizeOrb (C - price) }) := by
  rw [mirrored.context.finalized]
  split
  · exact mirrored
  · exact { mirrored with context := context_finalize mirrored.context price }

theorem mirrored_answer (mirrored : Mirrored N C s t) (price : ℚ) :
    let answer := if s.position ≠ 0 then (s, (s.checkExit price).getD noSignal) else (s, noSignal)
    let answer' :=
      if t.position ≠ 0 then (t, (t.checkExit (C - price)).getD noSignal) else (t, noSignal)
    Mirrored N C answer.1 answer'.1 ∧ answer'.2 = answer.2 := by
  simp only
  constructor
  · split <;> split <;> exact mirrored
  · rw [held_exit, held_exit, exit_mirrored mirrored]

theorem mirrored_quote (mirrored : Mirrored N C s t) (q : Quote) :
    Mirrored N C (s.onQuote q).1 (t.onQuote (mirrorQuote C q)).1 ∧
      (t.onQuote (mirrorQuote C q)).2 = (s.onQuote q).2 := by
  unfold ConfluenceStrategy.onQuote
  by_cases foreign : q.symbol ≠ s.cfg.symbol
  · have foreign' : (mirrorQuote C q).symbol ≠ t.cfg.symbol := by
      rw [mirrored.cfg]
      exact foreign
    rw [if_pos foreign, if_pos foreign']
    exact ⟨mirrored, rfl⟩
  · have own' : ¬(mirrorQuote C q).symbol ≠ t.cfg.symbol := by
      rw [mirrored.cfg]
      exact foreign
    rw [if_neg foreign, if_neg own', mid_mirrored]
    exact mirrored_answer (mirrored_finalize (mirrored_handle mirrored q.ts) (quoteMid q)) (quoteMid q)

theorem mirrored_bbo {bid ask : ℚ} (valid : ValidCall C (.bbo bid ask))
    (mirrored : Mirrored N C s t) :
    Mirrored N C (s.updateBbo bid ask) (t.updateBbo (C - ask) (C - bid)) :=
  { mirrored with quotes := Or.inr ⟨valid.1, valid.2, rfl, rfl⟩ }

theorem mirrored_update {upd : OrderUpdate} (valid : ValidCall C (.order upd))
    (mirrored : Mirrored N C s t) :
    Mirrored N C (s.onOrderUpdate upd) (t.onOrderUpdate (mirrorUpdate C upd)) := by
  have signed : (mirrorSide upd.side).signed upd.qtyFilled = -upd.side.signed upd.qtyFilled := by
    cases upd.side <;> simp [mirrorSide]
  have flat : t.position = 0 ↔ s.position = 0 := by
    rw [mirrored.position, neg_eq_zero]
  unfold ConfluenceStrategy.onOrderUpdate
  by_cases filled : upd.status = .filled
  · have filled' : (mirrorUpdate C upd).status = .filled := filled
    rw [if_pos filled, if_pos filled']
    refine { mirrored with position := ?_, entry := ?_ }
    · simp only [mirrorUpdate, mirrored.position, signed]
      ring
    · intro _
      simp only [mirrorUpdate, flat]
      split
      · exact ⟨valid, rfl⟩
      · rename_i held
        exact mirrored.entry held
  · have other : ¬(mirrorUpdate C upd).status = .filled := filled
    rw [if_neg filled, if_neg other]
    exact mirrored

theorem unset_not_spoofed {f : SpoofFilter} (unflagged : f.flagged 0 = none) (ts : ℤ) :
    f.isSpoofed 0 ts = false := by
  have zero : roundPrice 0 = 0 := by simpa using round_grid 0
  unfold SpoofFilter.isSpoofed
  rw [zero, unflagged]

theorem quotes_spoofed (bound : C = N / 100) (mirrored : Mirrored N C s t) (ts : ℤ) :
    (t.spoofFilter.isSpoofed t.currentBid ts = true ∨ t.spoofFilter.isSpoofed t.currentAsk ts = true) ↔
      (s.spoofFilter.isSpoofed s.currentBid ts = true ∨
        s.spoofFilter.isSpoofed s.currentAsk ts = true) := by
  have spoof := mirrored.spoof
  rcases mirrored.quotes with ⟨bid, ask, bid', ask'⟩ | ⟨validBid, validAsk, bid', ask'⟩
  · have low : s.spoofFilter.flagged 0 = none := spoof.inside 0 (Or.inl le_rfl)
    have high : t.spoofFilter.flagged 0 = none := by
      rw [← sub_self N, spoof.flagged]
      exact spoof.inside N (Or.inr le_rfl)
    rw [bid, ask, bid', ask', unset_not_spoofed low, unset_not_spoofed high]
  · rw [bid', ask', spoofed_reflected bound validBid spoof, spoofed_reflected bound validAsk spoof]
    exact or_comm

theorem agrees_mirrored (mirrored : Mirrored N C s t) : t.Agrees ↔ s.Agrees := by
  unfold ConfluenceStrategy.Agrees
  rw [book_vote mirrored.book, flow_vote mirrored.flow, mirrored.context.bias]
  cases s.sessionCtx.bias <;> cases s.obState.vote <;> cases s.tfiAnalyzer.vote <;>
    simp [mirrorBias, mirrorVote]

theorem may_enter_mirrored (bound : C = N / 100) (mirrored : Mirrored N C s t) (ts : ℤ) :
    t.MayEnter ts ↔ s.MayEnter ts := by
  have agrees := agrees_mirrored mirrored
  have spoofed := quotes_spoofed bound mirrored ts
  have flat : t.position = 0 ↔ s.position = 0 := by rw [mirrored.position, neg_eq_zero]
  constructor
  · rintro ⟨flat', finalized, cooled, agrees', clean⟩
    rw [mirrored.context.finalized] at finalized
    rw [mirrored.signalTs] at cooled
    exact ⟨flat.mp flat', finalized, cooled, agrees.mp agrees', fun any => clean (spoofed.mpr any)⟩
  · rintro ⟨flat', finalized, cooled, agrees', clean⟩
    rw [← mirrored.context.finalized] at finalized
    rw [← mirrored.signalTs] at cooled
    exact ⟨flat.mpr flat', finalized, cooled, agrees.mpr agrees', fun any => clean (spoofed.mp any)⟩

theorem entry_mirrored (mirrored : Mirrored N C s t) (agrees : s.Agrees) :
    t.buildEntry t.ofiVote = mirrorSignal (s.buildEntry s.ofiVote) := by
  unfold ConfluenceStrategy.buildEntry ConfluenceStrategy.ofiVote SessionContext.sizeMultiplier
  rw [book_vote mirrored.book, flow_vote mirrored.flow, mirrored.cfg, mirrored.context.nr7]
  rcases agrees with ⟨-, book, flow⟩ | ⟨-, book, flow⟩
  · rw [book, flow]
    rfl
  · rw [book, flow]
    rfl

theorem mirrored_enter (bound : C = N / 100) (mirrored : Mirrored N C s t) (ts : ℤ) :
    Mirrored N C (s.tryEnter ts).1 (t.tryEnter ts).1 ∧
      (t.tryEnter ts).2 = (s.tryEnter ts).2.map mirrorSignal := by
  have same := may_enter_mirrored bound mirrored ts
  by_cases may : s.MayEnter ts
  · rw [try_enter_of_may may, try_enter_of_may (same.mpr may)]
    exact ⟨{ mirrored with signalTs := rfl }, congrArg some (entry_mirrored mirrored may.agrees)⟩
  · rw [try_enter_of_not may, try_enter_of_not (fun other => may (same.mp other))]
    exact ⟨mirrored, rfl⟩

/-- Two conditional passes of one operation, in the other order for the other run. -/
theorem twice_mirrored {A B : Prop} [Decidable A] [Decidable B] {f g : SpoofFilter}
    {op op' : SpoofFilter → SpoofFilter}
    (keep : ∀ f g, SpoofMirrored N f g → SpoofMirrored N (op f) (op' g)) (spoof : SpoofMirrored N f g) :
    let once := if A then op f else f
    let once' := if B then op' g else g
    SpoofMirrored N (if B then op once else once) (if A then op' once' else once') := by
  by_cases first : A
  · by_cases second : B
    · simpa only [first, second, ↓reduceIte] using keep _ _ (keep _ _ spoof)
    · simpa only [first, second, ↓reduceIte] using keep _ _ spoof
  · by_cases second : B
    · simpa only [first, second, ↓reduceIte] using keep _ _ spoof
    · simpa only [first, second, ↓reduceIte] using spoof

theorem mirrored_spoof_update (bound : C = N / 100) {e : BookLevelEvent}
    (valid : ValidPrice C e.price) (mirrored : Mirrored N C s t) :
    Mirrored N C (s.updateSpoofOnBook e) (t.updateSpoofOnBook (mirrorBook C e)) := by
  have added := twice_mirrored (A := s.cfg.spoofCfg.minLargeQty < e.newBidSize - e.oldBidSize)
    (B := s.cfg.spoofCfg.minLargeQty < e.newAskSize - e.oldAskSize)
    (fun _ _ spoof => spoof_add bound valid spoof e.ts) mirrored.spoof
  have cancelled := twice_mirrored
    (A := s.cfg.spoofCfg.minLargeQty < e.oldBidSize ∧ e.newBidSize < 1 / 1000000000)
    (B := s.cfg.spoofCfg.minLargeQty < e.oldAskSize ∧ e.newAskSize < 1 / 1000000000)
    (fun _ _ spoof => spoof_cancel bound valid spoof e.ts) added
  have sameLarge : t.cfg.spoofCfg.minLargeQty = s.cfg.spoofCfg.minLargeQty := by rw [mirrored.cfg]
  refine { mirrored with spoof := ?_ }
  simp only [ConfluenceStrategy.updateSpoofOnBook, mirrorBook, sameLarge]
  exact cancelled

theorem mirrored_book (libm : Libm) (bound : C = N / 100) {e : BookLevelEvent}
    (valid : ValidCall C (.book e)) (mirrored : Mirrored N C s t) :
    Mirrored N C (s.onBookEvent libm e).1 (t.onBookEvent libm (mirrorBook C e)).1 ∧
      (t.onBookEvent libm (mirrorBook C e)).2 = (s.onBookEvent libm e).2.map mirrorSignal := by
  have spoofed := mirrored_spoof_update bound valid mirrored
  have book := book_event libm spoofed.book C e
  apply mirrored_enter bound
  exact ⟨spoofed.cfg, book, spoofed.flow, spoofed.spoof, spoofed.context, spoofed.position,
    spoofed.entry, spoofed.quotes, spoofed.opened, spoofed.signalTs⟩

theorem mirrored_trade (bound : C = N / 100) (mirrored : Mirrored N C s t) (e : TradeEvent) :
    Mirrored N C (s.onTradeEvent e).1 (t.onTradeEvent (mirrorTrade C e)).1 ∧
      (t.onTradeEvent (mirrorTrade C e)).2 = (s.onTradeEvent e).2.map mirrorSignal := by
  apply mirrored_enter bound
  exact ⟨mirrored.cfg, mirrored.book, flow_trade mirrored.flow e, mirrored.spoof, mirrored.context,
    mirrored.position, mirrored.entry, mirrored.quotes, mirrored.opened, mirrored.signalTs⟩

theorem bar_silent (s : ConfluenceStrategy) (b : Bar) : (s.onBar b).2 = noSignal := by
  unfold ConfluenceStrategy.onBar
  split
  · rfl
  · split <;> rfl

/-- A close and the absence of a signal are their own images. -/
theorem quote_signal_unchanged (s : ConfluenceStrategy) (q : Quote) :
    mirrorSignal (s.onQuote q).2 = (s.onQuote q).2 := by
  by_cases exits : s.QuoteExits q
  · obtain ⟨reason, signal⟩ := quote_signal_of_exit exits
    rw [signal]
    rfl
  · rw [quote_signal_of_no_exit exits]
    rfl

theorem mirrored_step (libm : Libm) (bound : C = N / 100) {c : Call} (valid : ValidCall C c)
    (mirrored : Mirrored N C s t) :
    Mirrored N C (perform libm s c).1 (perform libm t (mirrorCall C c)).1 ∧
      (perform libm t (mirrorCall C c)).2 = (perform libm s c).2.map mirrorSignal := by
  cases c with
  | bar b =>
    refine ⟨mirrored_bar valid mirrored, ?_⟩
    simp only [perform, mirrorCall, bar_silent]
    rfl
  | quote q =>
    obtain ⟨state, signal⟩ := mirrored_quote mirrored q
    refine ⟨state, ?_⟩
    simp only [perform, mirrorCall, signal, Option.map_some]
    exact congrArg some (quote_signal_unchanged s q).symm
  | bbo bid ask => exact ⟨mirrored_bbo valid mirrored, rfl⟩
  | book e => exact mirrored_book libm bound valid mirrored
  | trade e => exact mirrored_trade bound mirrored e
  | order upd => exact ⟨mirrored_update valid mirrored, rfl⟩
  | sessionOpen => exact ⟨mirrored_open mirrored, rfl⟩

end Strategy

/-- For every sequence of calls with valid prices, the reflected sequence is answered at
    every call with the reflected signal: buy and sell exchanged, close and none as they
    are, the same quantity. -/
theorem mirrored_signals (libm : Libm) (cfg : ConfluenceConfig)
    (bookThreshold : 0 ≤ cfg.obCfg.signalThreshold) (flowThreshold : 0 ≤ cfg.tfiCfg.signalThreshold)
    (C : ℚ) (grid : ∃ n : ℤ, C = n / 100) (calls : List Call)
    (valid : ∀ c ∈ calls, ValidCall C c) :
    outputs (perform libm) (.init libm cfg) (calls.map (mirrorCall C)) =
      (outputs (perform libm) (.init libm cfg) calls).map (Option.map mirrorSignal) := by
  obtain ⟨N, bound⟩ := grid
  exact outputs_simulated (R := Mirrored N C) (V := ValidCall C)
    (fun s t c mirrored here => (mirrored_step libm bound here mirrored).1)
    (fun s t c mirrored here => (mirrored_step libm bound here mirrored).2)
    (mirrored_init libm bookThreshold flowThreshold) valid

/-- A breakout above the range of 90 to 100, with buying in the trades and the book. -/
def longDay : List Call :=
  [.bar openingBar,
    .bar { openingBar with high := 112, low := 100, close := 111, ts := 436 * 60 * nsPerSec },
    .trade { price := 111, volume := 10, isBuy := true, ts := 437 * 60 * nsPerSec },
    .book { level := 0, price := 110, oldBidSize := 0, newBidSize := 100, oldAskSize := 0,
            newAskSize := 0, ts := 437 * 60 * nsPerSec }]

theorem long_day_mirrored :
    let answers := outputs (perform flatLibm) (.init flatLibm makeCfg)
    answers (longDay.map (mirrorCall 300)) = (answers longDay).map (Option.map mirrorSignal) ∧
      (answers longDay).map (Option.map Signal.direction) = [some .none, some .none, none, some .buy] := by
  refine ⟨mirrored_signals _ _ (by decide +kernel) (by decide +kernel) 300 ⟨30000, by norm_num⟩ longDay ?_,
    by decide +kernel⟩
  have price : ∀ n : ℤ, 0 < n → n < 300 → ValidPrice 300 n := by
    intro n positive less
    have above : (1 : ℚ) ≤ n := by exact_mod_cast positive
    have below : (n : ℚ) ≤ 299 := by exact_mod_cast Int.lt_add_one_iff.mp less
    refine ⟨⟨100 * n, ?_⟩, ?_, ?_⟩
    · push_cast
      ring
    · linarith
    · linarith
  simp only [longDay, List.forall_mem_cons, List.not_mem_nil, false_imp_iff, implies_true, and_true,
    ValidCall, openingBar, true_and]
  exact ⟨⟨price 100 (by decide) (by decide), price 90 (by decide) (by decide), by norm_num⟩,
    ⟨price 112 (by decide) (by decide), price 100 (by decide) (by decide), by norm_num⟩,
    price 110 (by decide) (by decide)⟩

end FinamMirror
