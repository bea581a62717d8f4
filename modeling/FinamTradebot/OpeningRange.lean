import FinamTradebot.StrategyRunner
import Mathlib.Data.List.MinMax

/-!
When the opening range is finalized. `on_intraday_bar` waits for the end of the
window; `on_quote` finalizes at the first quote it sees. The log of a run holds the
quotes and bars since the last session reset, the one that caused it included.
-/
namespace FinamOpeningRange
open FinamInterfaces FinamSession FinamConfluence FinamRunner Runs

inductive Feed where
  | quote (q : Quote)
  | bar (b : Bar)

def feedStep (s : ConfluenceStrategy) : Feed → ConfluenceStrategy
  | .quote q => (s.onQuote q).1
  | .bar b => (s.onBar b).1

def feedResets (s : ConfluenceStrategy) : Feed → Bool
  | .quote q => s.quoteResets q
  | .bar b => s.barResets b

def feedRecord : Logged ConfluenceStrategy Feed → Feed → Logged ConfluenceStrategy Feed :=
  Logged.record feedStep feedResets

def isOwn (symbol : Symbol) : Feed → Bool
  | .quote q => decide (q.symbol = symbol)
  | .bar b => decide (b.symbol = symbol) && decide (detectTimeframe b = .intraday)

def Feed.minute : Feed → ℤ
  | .quote q => minuteOfDay q.ts
  | .bar b => minuteOfDay b.ts

def isLate (cfg : SessionContextConfig) (symbol : Symbol) (e : Feed) : Bool :=
  isOwn symbol e && decide (cfg.orbEnd ≤ e.minute)

def windowBars (cfg : SessionContextConfig) (symbol : Symbol) (log : List Feed) : List Bar :=
  log.filterMap fun
    | .quote _ => none
    | .bar b =>
      if isOwn symbol (.bar b) ∧ cfg.sessionOpenUtcMin ≤ minuteOfDay b.ts ∧
        minuteOfDay b.ts < cfg.orbEnd then some b else none

section Context
variable {cfg : SessionContextConfig} {symbol : Symbol} {ctx : SessionContext} {log : List Feed}

def Ranges (cfg : SessionContextConfig) (symbol : Symbol) (ctx : SessionContext)
    (log : List Feed) : Prop :=
  ctx.orbHigh = ((windowBars cfg symbol log).map (·.high)).maximum ∧
    ctx.orbLow = ((windowBars cfg symbol log).map (·.low)).minimum

def Tracks (cfg : SessionContextConfig) (symbol : Symbol) (ctx : SessionContext)
    (log : List Feed) : Prop :=
  ctx.orbFinalized = false → Ranges cfg symbol ctx log

def Early (cfg : SessionContextConfig) (symbol : Symbol) (ctx : SessionContext)
    (log : List Feed) : Prop :=
  ctx.orbFinalized = false → ∀ e ∈ log, isLate cfg symbol e = false

def Closed (cfg : SessionContextConfig) (symbol : Symbol) (ctx : SessionContext)
    (log : List Feed) : Prop :=
  ctx.orbFinalized = true → ∃ e ∈ log, isLate cfg symbol e = true

theorem window_bars_append (first second : List Feed) : windowBars cfg symbol (first ++ second) =
    windowBars cfg symbol first ++ windowBars cfg symbol second :=
  List.filterMap_append

theorem ranges_skip {next : SessionContext} {e : Feed} (ranges : Ranges cfg symbol ctx log)
    (outside : windowBars cfg symbol [e] = []) (high : next.orbHigh = ctx.orbHigh)
    (low : next.orbLow = ctx.orbLow) : Ranges cfg symbol next (log ++ [e]) := by
  unfold Ranges at ranges ⊢
  rw [window_bars_append, outside, List.append_nil, high, low]
  exact ranges

theorem ranges_extend {next : SessionContext} {e : Feed} {b : Bar}
    (ranges : Ranges cfg symbol ctx log) (inside : windowBars cfg symbol [e] = [b])
    (high : next.orbHigh = max ctx.orbHigh b.high) (low : next.orbLow = min ctx.orbLow b.low) :
    Ranges cfg symbol next (log ++ [e]) := by
  unfold Ranges at ranges ⊢
  rw [window_bars_append, inside, List.map_append, List.map_append, high, low, ranges.1, ranges.2]
  exact ⟨(List.maximum_concat b.high _).symm, (List.minimum_concat b.low _).symm⟩

theorem reset_tracks : Tracks cfg symbol ctx.sessionReset [] :=
  fun _ => ⟨rfl, rfl⟩

theorem reset_early : Early cfg symbol ctx.sessionReset [] :=
  fun _ e member => by simp at member

theorem reset_closed : Closed cfg symbol ctx.sessionReset [] :=
  fun done => by simp [SessionContext.sessionReset] at done

theorem closed_append {next : SessionContext} (closed : Closed cfg symbol ctx log) (e : Feed)
    (same : next.orbFinalized = ctx.orbFinalized) : Closed cfg symbol next (log ++ [e]) := by
  intro finalized
  obtain ⟨late, member, isLate⟩ := closed (same ▸ finalized)
  exact ⟨late, List.mem_append_left _ member, isLate⟩

theorem closed_by {next : SessionContext} {e : Feed} (late : isLate cfg symbol e = true) :
    Closed cfg symbol next (log ++ [e]) :=
  fun _ => ⟨e, by simp, late⟩

theorem early_append {next : SessionContext} {e : Feed} (early : Early cfg symbol ctx log)
    (same : next.orbFinalized = ctx.orbFinalized) (notLate : isLate cfg symbol e = false) :
    Early cfg symbol next (log ++ [e]) := by
  intro open_ f member
  rcases List.mem_append.mp member with old | new
  · exact early (same ▸ open_) f old
  · rw [List.mem_singleton.mp new]
    exact notLate

structure Kept (cfg : SessionContextConfig) (symbol : Symbol) (ctx next : SessionContext)
    (log : List Feed) : Prop where
  config : next.cfg = cfg
  tracks : Tracks cfg symbol next log
  complete : ctx.orbFinalized = false → next.orbFinalized = true → Ranges cfg symbol next log

theorem quote_kept {q : Quote} (config : ctx.cfg = cfg) (tracks : Tracks cfg symbol ctx log)
    (mid : ℚ) : Kept cfg symbol ctx (ctx.finalizeOrb mid) (log ++ [.quote q]) := by
  obtain ⟨high, low, same⟩ := finalize_frame ctx mid
  refine ⟨same.trans config, fun unfinalized => ?_, fun open_ _ => ?_⟩
  · simp [finalize_sets] at unfinalized
  · exact ranges_skip (tracks open_) rfl high low

theorem bar_kept {b : Bar} (config : ctx.cfg = cfg) (tracks : Tracks cfg symbol ctx log)
    (own : isOwn symbol (.bar b) = true) :
    Kept cfg symbol ctx (ctx.onIntradayBar b) (log ++ [.bar b]) := by
  subst config
  rcases intraday_cases ctx b with ⟨done, same⟩ | ⟨open_, before, same⟩ |
    ⟨open_, after, inside, extends_⟩ | ⟨open_, _, late, same⟩
  · rw [same]
    exact ⟨rfl, fun open_ => by simp [done] at open_, fun open_ => by simp [done] at open_⟩
  · rw [same]
    have outside : windowBars ctx.cfg symbol [.bar b] = [] := by
      simp [windowBars, not_le.mpr before]
    exact ⟨rfl, fun _ => ranges_skip (tracks open_) outside rfl rfl,
      fun _ done => by simp [open_] at done⟩
  · have member : windowBars ctx.cfg symbol [.bar b] = [b] := by
      simp [windowBars, own, after, inside]
    exact ⟨extends_.config,
      fun _ => ranges_extend (tracks open_) member extends_.high extends_.low,
      fun _ done => by simp [extends_.open_] at done⟩
  · rw [same]
    obtain ⟨high, low, config⟩ := finalize_frame ctx b.close
    have outside : windowBars ctx.cfg symbol [.bar b] = [] := by
      simp [windowBars, not_lt.mpr late]
    exact ⟨config, fun unfinalized => by simp [finalize_sets] at unfinalized,
      fun _ _ => ranges_skip (tracks open_) outside high low⟩

theorem bar_closed {b : Bar} (config : ctx.cfg = cfg) (own : isOwn symbol (.bar b) = true)
    (closed : Closed cfg symbol ctx log) :
    Closed cfg symbol (ctx.onIntradayBar b) (log ++ [.bar b]) := by
  subst config
  rcases intraday_cases ctx b with ⟨-, same⟩ | ⟨-, -, same⟩ | ⟨open_, -, -, extends_⟩ |
    ⟨-, -, late, same⟩
  · exact closed_append closed _ (by rw [same])
  · exact closed_append closed _ (by rw [same])
  · exact closed_append closed _ (by rw [extends_.open_, open_])
  · exact closed_by (by simp [isLate, own, Feed.minute, late])

theorem bar_early {b : Bar} (config : ctx.cfg = cfg) (duration : 0 ≤ cfg.orbDuration)
    (early : Early cfg symbol ctx log) :
    Early cfg symbol (ctx.onIntradayBar b) (log ++ [.bar b]) := by
  subst config
  rcases intraday_cases ctx b with ⟨done, same⟩ | ⟨-, before, same⟩ | ⟨open_, -, inside, extends_⟩ |
    ⟨-, -, -, same⟩
  · intro open_
    simp [same, done] at open_
  · refine early_append early (by rw [same]) ?_
    have : ¬ ctx.cfg.orbEnd ≤ minuteOfDay b.ts := by
      simp only [SessionContextConfig.orbEnd]
      omega
    simp [isLate, Feed.minute, this]
  · refine early_append early (by rw [extends_.open_, open_]) ?_
    simp [isLate, Feed.minute, not_le.mpr inside]
  · intro open_
    simp [same, finalize_sets] at open_

end Context

section Steps
variable {s : ConfluenceStrategy} {e : Feed} {l : Logged ConfluenceStrategy Feed}
  {cfg : SessionContextConfig} {symbol : Symbol}

/-- The session context an event works on: reset first if the event opens the session. -/
def opened (s : ConfluenceStrategy) (e : Feed) : SessionContext :=
  if feedResets s e then s.sessionCtx.sessionReset else s.sessionCtx

def openedLog (l : Logged ConfluenceStrategy Feed) (e : Feed) : List Feed :=
  if feedResets l.state e then [] else l.log

theorem record_log : (feedRecord l e).log = openedLog l e ++ [e] := by
  simp only [feedRecord, Logged.record, openedLog]
  split <;> rfl

structure SameRange (ctx next : SessionContext) : Prop where
  config : next.cfg = ctx.cfg
  finalized : next.orbFinalized = ctx.orbFinalized
  high : next.orbHigh = ctx.orbHigh
  low : next.orbLow = ctx.orbLow

theorem daily_same_range (ctx : SessionContext) (b : Bar) : SameRange ctx (ctx.onDailyBar b) := by
  obtain ⟨ranges, idx, count, atr, nr7, frame⟩ := daily_frame ctx b
  rw [frame]
  exact ⟨rfl, rfl, rfl, rfl⟩

theorem feed_symbol : (feedStep s e).cfg = s.cfg := by
  cases e with
  | quote q =>
    obtain ⟨ctx, flag, eq⟩ := quote_frame s q
    simp [feedStep, eq]
  | bar b =>
    obtain ⟨ctx, flag, eq⟩ := bar_frame s b
    simp [feedStep, eq]

theorem feed_cases (s : ConfluenceStrategy) (e : Feed) :
    (isOwn s.cfg.symbol e = false ∧ feedResets s e = false ∧
      SameRange s.sessionCtx (feedStep s e).sessionCtx) ∨
    (∃ q, e = .quote q ∧ isOwn s.cfg.symbol e = true ∧
      (feedStep s e).sessionCtx = (opened s e).finalizeOrb (quoteMid q)) ∨
    (∃ b, e = .bar b ∧ isOwn s.cfg.symbol e = true ∧
      (feedStep s e).sessionCtx = (opened s e).onIntradayBar b) := by
  cases e with
  | quote q =>
    by_cases own : q.symbol = s.cfg.symbol
    · refine Or.inr (Or.inl ⟨q, rfl, by simp [isOwn, own], ?_⟩)
      obtain ⟨flag, opening⟩ := open_frame s q.ts
      have ctx : (s.handleSessionOpen q.ts).sessionCtx = opened s (.quote q) := by
        simp [opening, opened, feedResets, ConfluenceStrategy.quoteResets, own]
      rw [← ctx]
      exact quote_context s own
    · refine Or.inl ⟨by simp [isOwn, own], ?_, ?_⟩
      · simp [feedResets, ConfluenceStrategy.quoteResets, own]
      · simp only [feedStep, ConfluenceStrategy.onQuote, ne_eq, own, not_false_eq_true, ↓reduceIte]
        exact ⟨rfl, rfl, rfl, rfl⟩
  | bar b =>
    by_cases own : b.symbol = s.cfg.symbol
    · cases frame : detectTimeframe b with
      | intraday =>
        refine Or.inr (Or.inr ⟨b, rfl, by simp [isOwn, own, frame], ?_⟩)
        obtain ⟨flag, opening⟩ := open_frame s b.ts
        simp [feedStep, ConfluenceStrategy.onBar, own, frame, opening, opened, feedResets,
          ConfluenceStrategy.barResets]
      | daily =>
        refine Or.inl ⟨by simp [isOwn, frame], ?_, ?_⟩
        · simp [feedResets, ConfluenceStrategy.barResets, frame]
        · simpa [feedStep, ConfluenceStrategy.onBar, own, frame] using
            daily_same_range s.sessionCtx b
      | unknown =>
        refine Or.inl ⟨by simp [isOwn, frame], ?_, ?_⟩
        · simp [feedResets, ConfluenceStrategy.barResets, frame]
        · simpa [feedStep, ConfluenceStrategy.onBar, own, frame] using
            (⟨rfl, rfl, rfl, rfl⟩ : SameRange s.sessionCtx s.sessionCtx)
    · refine Or.inl ⟨by simp [isOwn, own], ?_, ?_⟩
      · simp [feedResets, ConfluenceStrategy.barResets, own]
      · simp only [feedStep, ConfluenceStrategy.onBar, ne_eq, own, not_false_eq_true, ↓reduceIte]
        exact ⟨rfl, rfl, rfl, rfl⟩

structure Following (cfg : SessionContextConfig) (symbol : Symbol)
    (l : Logged ConfluenceStrategy Feed) : Prop where
  own : l.state.cfg.symbol = symbol
  config : l.state.sessionCtx.cfg = cfg
  tracks : Tracks cfg symbol l.state.sessionCtx l.log

/-- If the event finalizes the range, the range is that of all bars since the reset. -/
def RangeComplete (cfg : SessionContextConfig) (symbol : Symbol)
    (l : Logged ConfluenceStrategy Feed) (e : Feed) : Prop :=
  (opened l.state e).orbFinalized = false →
    (feedRecord l e).state.sessionCtx.orbFinalized = true →
      Ranges cfg symbol (feedRecord l e).state.sessionCtx (feedRecord l e).log

/-- The range is finalized only if an event after its end has been processed. -/
def FinalizedLate (cfg : SessionContextConfig) (symbol : Symbol)
    (l : Logged ConfluenceStrategy Feed) : Prop :=
  Closed cfg symbol l.state.sessionCtx l.log

/-- The condition on the state before an event: an own quote comes after the end of
    the opening range, or finds the range finalized and does not reset the session. -/
def TimelyQuote (cfg : SessionContextConfig) (symbol : Symbol)
    (l : Logged ConfluenceStrategy Feed) : Feed → Prop
  | .quote q => q.symbol = symbol → cfg.orbEnd ≤ minuteOfDay q.ts ∨
      (l.state.sessionCtx.orbFinalized = true ∧ l.state.opensSession q.ts = false)
  | .bar _ => True

theorem opened_following (inv : Following cfg symbol l) : (opened l.state e).cfg = cfg ∧
    Tracks cfg symbol (opened l.state e) (openedLog l e) := by
  simp only [opened, openedLog]
  split
  · exact ⟨inv.config, reset_tracks⟩
  · exact ⟨inv.config, inv.tracks⟩

theorem opened_closed (closed : FinalizedLate cfg symbol l) :
    Closed cfg symbol (opened l.state e) (openedLog l e) := by
  simp only [opened, openedLog]
  split
  · exact reset_closed
  · exact closed

theorem opened_early (early : Early cfg symbol l.state.sessionCtx l.log) :
    Early cfg symbol (opened l.state e) (openedLog l e) := by
  simp only [opened, openedLog]
  split
  · exact reset_early
  · exact early

theorem not_own_outside (foreign : isOwn symbol e = false) : windowBars cfg symbol [e] = [] := by
  cases e with
  | quote q => rfl
  | bar b => simp [windowBars, foreign]

theorem step_kept (inv : Following cfg symbol l) :
    Kept cfg symbol (opened l.state e) (feedStep l.state e).sessionCtx (openedLog l e ++ [e]) := by
  obtain ⟨config, tracks⟩ := opened_following (e := e) inv
  have own := inv.own
  rcases feed_cases l.state e with ⟨foreign, stays, same⟩ | ⟨q, rfl, -, eq⟩ | ⟨b, rfl, mine, eq⟩
  · rw [own] at foreign
    have here : opened l.state e = l.state.sessionCtx := by simp [opened, stays]
    rw [here] at config tracks ⊢
    refine ⟨same.config.trans config, fun open_ => ?_, fun open_ done => ?_⟩
    · exact ranges_skip (tracks (same.finalized ▸ open_)) (not_own_outside foreign) same.high same.low
    · rw [same.finalized, open_] at done
      simp at done
  · rw [eq]
    exact quote_kept config tracks (quoteMid q)
  · rw [eq]
    exact bar_kept config tracks (own ▸ mine)

theorem following_step (inv : Following cfg symbol l) : Following cfg symbol (feedRecord l e) := by
  have kept := step_kept (e := e) inv
  refine ⟨?_, kept.config, ?_⟩
  · have same := feed_symbol (s := l.state) (e := e)
    exact (congrArg (·.symbol) same).trans inv.own
  · rw [record_log]
    exact kept.tracks

theorem complete_step (inv : Following cfg symbol l) : RangeComplete cfg symbol l e := by
  intro open_ done
  rw [record_log]
  exact (step_kept inv).complete open_ done

theorem late_step (inv : Following cfg symbol l) (closed : FinalizedLate cfg symbol l)
    (timely : TimelyQuote cfg symbol l e) : FinalizedLate cfg symbol (feedRecord l e) := by
  have before := opened_closed (e := e) closed
  obtain ⟨config, -⟩ := opened_following (e := e) inv
  have own := inv.own
  unfold FinalizedLate
  rw [record_log]
  rcases feed_cases l.state e with ⟨-, stays, same⟩ | ⟨q, rfl, mine, eq⟩ | ⟨b, rfl, mine, eq⟩
  · refine closed_append before e ?_
    simp [opened, stays, feedRecord, Logged.record, same.finalized]
  · rw [own] at mine
    rcases timely (by simpa [isOwn] using mine) with late | ⟨done, stays⟩
    · exact closed_by (by simp [isLate, mine, Feed.minute, late])
    · have here : opened l.state (.quote q) = l.state.sessionCtx := by
        simp [opened, feedResets, ConfluenceStrategy.quoteResets, stays]
      refine closed_append before _ ?_
      change (feedStep l.state (.quote q)).sessionCtx.orbFinalized = _
      rw [eq, here, finalize_twice done]
  · change Closed cfg symbol (feedStep l.state (.bar b)).sessionCtx _
    rw [eq]
    exact bar_closed config (own ▸ mine) before

theorem early_step (inv : Following cfg symbol l) (duration : 0 ≤ cfg.orbDuration)
    (early : Early cfg symbol l.state.sessionCtx l.log) :
    Early cfg symbol (feedRecord l e).state.sessionCtx (feedRecord l e).log := by
  have before := opened_early (e := e) early
  obtain ⟨config, -⟩ := opened_following (e := e) inv
  have own := inv.own
  rw [record_log]
  change Early cfg symbol (feedStep l.state e).sessionCtx _
  rcases feed_cases l.state e with ⟨foreign, stays, same⟩ | ⟨q, rfl, -, eq⟩ | ⟨b, rfl, mine, eq⟩
  · rw [own] at foreign
    refine early_append before ?_ (by simp [isLate, foreign])
    simp [opened, stays, same.finalized]
  · intro open_
    simp [eq, finalize_sets] at open_
  · rw [eq]
    exact bar_early config duration before

theorem timely_of_late (inv : Following cfg symbol l)
    (early : Early cfg symbol l.state.sessionCtx l.log)
    (closed : FinalizedLate cfg symbol (feedRecord l e)) : TimelyQuote cfg symbol l e := by
  cases e with
  | bar b => trivial
  | quote q =>
    intro mine
    have own : q.symbol = l.state.cfg.symbol := mine.trans inv.own.symm
    by_contra untimely
    push Not at untimely
    obtain ⟨notLate, unfinished⟩ := untimely
    have done : (feedStep l.state (.quote q)).sessionCtx.orbFinalized = true := by
      rcases feed_cases l.state (.quote q) with ⟨foreign, -⟩ | ⟨q', -, -, eq⟩ | ⟨b, other, -⟩
      · simp [isOwn, own] at foreign
      · rw [eq]
        exact finalize_sets _ _
      · cases other
    obtain ⟨late, member, isLate_⟩ := closed done
    rw [record_log] at member
    rcases List.mem_append.mp member with old | new
    · have open_ : (opened l.state (.quote q)).orbFinalized = false := by
        simp only [opened, feedResets, ConfluenceStrategy.quoteResets, own, decide_true,
          Bool.true_and]
        split
        · rfl
        · rename_i stays
          by_contra finalized
          exact unfinished (by simpa using finalized) (by simpa using stays)
      rw [opened_early early open_ late old] at isLate_
      simp at isLate_
    · rw [List.mem_singleton.mp new] at isLate_
      simp [isLate, Feed.minute, not_le.mpr notLate] at isLate_

/-- After a session reset, for every sequence of quotes and bars: if every own quote is
    timely, the range is never finalized before an event after its end and is then the
    range of all its bars since the reset; and where the opening range has no negative
    length, only then. -/
theorem opening_range_complete_iff (s : ConfluenceStrategy) (events : List Feed) :
    let cfg := s.sessionCtx.cfg
    let symbol := s.cfg.symbol
    let l : Logged ConfluenceStrategy Feed := ⟨s.onSessionOpen, []⟩
    (Along feedRecord (TimelyQuote cfg symbol) l events →
      Along feedRecord (RangeComplete cfg symbol) l events ∧
        Visits feedRecord (FinalizedLate cfg symbol) l events) ∧
    (0 ≤ cfg.orbDuration →
      Along feedRecord (RangeComplete cfg symbol) l events ∧
        Visits feedRecord (FinalizedLate cfg symbol) l events →
      Along feedRecord (TimelyQuote cfg symbol) l events) := by
  intro cfg symbol l
  have start : Following cfg symbol l := ⟨rfl, rfl, reset_tracks⟩
  constructor
  · exact good_run_of_along (I := Following cfg symbol)
      (fun l e inv closed timely => ⟨complete_step inv, late_step inv closed timely⟩)
      (fun l e inv _ _ => following_step inv) start reset_closed
  · rintro duration ⟨along, visits⟩
    exact along_of_good_run
      (I := fun l => Following cfg symbol l ∧ Early cfg symbol l.state.sessionCtx l.log)
      (fun l e inv _ _ next => timely_of_late inv.1 inv.2 next)
      (fun l e inv _ _ => ⟨following_step inv.1, early_step inv.1 duration inv.2⟩)
      ⟨start, reset_early⟩ along visits

end Steps

instance (cfg : SessionContextConfig) (symbol : Symbol) :
    DecidablePred (FinalizedLate cfg symbol) :=
  fun _ => inferInstanceAs (Decidable (_ → _))

/-- A quote one minute after the session opens finalizes the range of an empty window. -/
theorem first_quote_finalizes_range :
    let s := ConfluenceStrategy.init flatLibm makeCfg
    let q := makeQuote 99 101 (421 * 60 * nsPerSec)
    q.symbol = s.cfg.symbol ∧ minuteOfDay q.ts = s.sessionCtx.cfg.sessionOpenUtcMin + 1 ∧
      s.sessionCtx.cfg.orbDuration = 15 ∧
      ¬ Visits feedRecord (FinalizedLate s.sessionCtx.cfg s.cfg.symbol) ⟨s.onSessionOpen, []⟩
        [.quote q] := by
  decide +kernel

end FinamOpeningRange
