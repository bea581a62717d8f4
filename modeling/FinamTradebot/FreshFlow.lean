import FinamTradebot.SlidingWindow
import FinamTradebot.StrategyCalls
import FinamTradebot.StrategyRunner
import Mathlib.Data.List.TakeWhile

/-!
The trades an entry's flow vote rests on. `evict_old` runs when a trade arrives and at no
other time, so between trades the window of `vote` keeps trades that have since left the
last `tfi_window`. The log of a run holds the calls since the last session reset.
-/
namespace FinamFreshFlow
open FinamInterfaces FinamOrderBook FinamTradeFlow FinamSession FinamConfluence FinamCalls Runs
open FinamRunner hiding Action

def callRecord (libm : Libm) : Logged ConfluenceStrategy Call → Call → Logged ConfluenceStrategy Call :=
  Logged.record (callStep libm) callResets

def trades (log : List Call) : List TradeEvent :=
  log.filterMap fun
    | .trade e => some e
    | _ => none

/-- The vote of an analyzer that holds exactly the given trades. -/
def voteOn (cfg : TradeFlowAnalyzerConfig) (held : List TradeEvent) : Vote :=
  { TradeFlowAnalyzer.init cfg with window := held }.vote

def isFresh (cfg : TradeFlowAnalyzerConfig) (now : ℤ) (t : TradeEvent) : Bool :=
  decide (now - cfg.tfiWindow * nsPerMs ≤ t.ts)

/-- An entry at time `ts` used the vote of the trades since the last reset that are not
    older than the window. -/
def FreshVote (libm : Libm) (cfg : TradeFlowAnalyzerConfig) (l : Logged ConfluenceStrategy Call)
    (c : Call) : Prop :=
  ∀ ts ∈ flowTs c, (perform libm l.state c).2.isSome = true →
    (callRecord libm l c).state.tfiAnalyzer.vote =
      voteOn cfg ((trades (callRecord libm l c).log).filter (isFresh cfg ts))

/-- One of the checks that `try_enter` makes before the votes refuses the entry. -/
def Refused (s : ConfluenceStrategy) (ts : ℤ) : Prop :=
  s.position ≠ 0 ∨ s.sessionCtx.orbFinalized = false ∨ s.sessionCtx.bias = .none ∨
    ts - s.lastSignalTs < 5 * nsPerSec

/-- The condition on the state before a call: a book event that is not refused finds no
    trade in the deque older than the window, and a trade lies in its own window. -/
def NothingStale (cfg : TradeFlowAnalyzerConfig) (l : Logged ConfluenceStrategy Call) : Call → Prop
  | .book e => Refused l.state e.ts ∨ ∀ t ∈ l.state.tfiAnalyzer.window, isFresh cfg e.ts t = true
  | .trade e => Refused l.state e.ts ∨ 0 ≤ cfg.tfiWindow
  | .bar _ | .quote _ | .bbo _ _ | .order _ | .sessionOpen => True

section Window
variable {cfg : TradeFlowAnalyzerConfig} {now : ℤ} {held : List TradeEvent}

def InOrder (ts : List TradeEvent) : Prop := ts.Pairwise (fun a b => a.ts ≤ b.ts)

theorem not_fresh (cfg : TradeFlowAnalyzerConfig) (now : ℤ) :
    (fun t : TradeEvent => !isFresh cfg now t) =
      fun t => decide (t.ts < now - cfg.tfiWindow * nsPerMs) := by
  funext t
  simp only [isFresh, ← decide_not, not_le]

theorem in_order_evicted (ordered : InOrder held) :
    ∀ t ∈ held.dropWhile (fun t => !isFresh cfg now t), isFresh cfg now t = true := by
  have evicted : held.dropWhile (fun t => !isFresh cfg now t) = held.filter (isFresh cfg now) := by
    rw [not_fresh]
    exact SlidingWindow.trim_in_order ordered
  intro t kept
  rw [evicted] at kept
  exact (List.mem_filter.mp kept).2

theorem on_trade_window (a : TradeFlowAnalyzer) (e : TradeEvent) :
    (a.onTrade e).1.window = a.window.dropWhile (fun t => !isFresh a.cfg e.ts t) ++ [e] := by
  simp only [TradeFlowAnalyzer.onTrade, TradeFlowAnalyzer.evictOld,
    TradeFlowAnalyzer.updateAvgVolume, TradeFlowAnalyzer.buildResult, not_fresh]

theorem on_trade_cfg (a : TradeFlowAnalyzer) (e : TradeEvent) : (a.onTrade e).1.cfg = a.cfg := rfl

theorem vote_of_window {a : TradeFlowAnalyzer} (config : a.cfg = cfg) :
    a.vote = voteOn cfg a.window := by
  subst config
  rfl

end Window

section Calls
variable {s : ConfluenceStrategy} {c : Call}

/-- What a call does to the analyzer. -/
theorem call_flow (libm : Libm) (s : ConfluenceStrategy) (c : Call) :
    (∃ e, c = .trade e ∧ (callStep libm s c).tfiAnalyzer = (s.tfiAnalyzer.onTrade e).1) ∨
    (trades [c] = [] ∧ callResets s c = false ∧
      (callStep libm s c).tfiAnalyzer = s.tfiAnalyzer) ∨
    (trades [c] = [] ∧ callResets s c = true ∧
      (callStep libm s c).tfiAnalyzer = s.tfiAnalyzer.sessionReset) := by
  cases c with
  | bar b =>
    obtain ⟨ctx, opened, frame⟩ := bar_frame s b
    simp only [callStep, perform, frame, callResets]
    cases s.barResets b with
    | true => exact Or.inr (Or.inr ⟨rfl, rfl, rfl⟩)
    | false => exact Or.inr (Or.inl ⟨rfl, rfl, rfl⟩)
  | quote q =>
    obtain ⟨ctx, opened, frame⟩ := quote_frame s q
    simp only [callStep, perform, frame, callResets]
    cases s.quoteResets q with
    | true => exact Or.inr (Or.inr ⟨rfl, rfl, rfl⟩)
    | false => exact Or.inr (Or.inl ⟨rfl, rfl, rfl⟩)
  | bbo bid ask => exact Or.inr (Or.inl ⟨rfl, rfl, rfl⟩)
  | book e =>
    obtain ⟨book, spoof, signalTs, frame⟩ := book_frame libm s e
    simp only [callStep, perform, frame]
    exact Or.inr (Or.inl ⟨rfl, rfl, trivial⟩)
  | trade e =>
    refine Or.inl ⟨e, rfl, ?_⟩
    simp only [callStep, perform, ConfluenceStrategy.onTradeEvent]
    rw [try_enter_frame]
  | order upd =>
    obtain ⟨entry, frame, -⟩ := update_frame s upd
    simp only [callStep, perform, frame]
    exact Or.inr (Or.inl ⟨rfl, rfl, trivial⟩)
  | sessionOpen => exact Or.inr (Or.inr ⟨rfl, rfl, rfl⟩)

theorem may_not_refused {ts : ℤ} (may : s.MayEnter ts) : ¬Refused s ts := by
  obtain ⟨flat, finalized, cooled, agrees, -⟩ := may
  rintro (held | unfinished | unbiased | hot)
  · exact held flat
  · rw [finalized] at unfinished
    cases unfinished
  · exact ((agrees_iff s).mp agrees).1 unbiased
  · omega

theorem entry_not_refused {libm : Libm} {ts : ℤ} (flow : flowTs c = some ts)
    (enters : (perform libm s c).2.isSome = true) : ¬Refused s ts := by
  obtain ⟨sig, answer⟩ := Option.isSome_iff_exists.mp enters
  obtain ⟨updated, call, position, context, stamp⟩ := flow_enters libm (s := s) flow
  rw [call] at answer
  have passes := may_not_refused (try_enter_some (Prod.ext rfl answer)).1
  unfold Refused at passes ⊢
  rwa [position, context, stamp] at passes

end Calls

section Run
variable {libm : Libm} {cfg : TradeFlowAnalyzerConfig} {l : Logged ConfluenceStrategy Call} {c : Call}

/-- The deque is what is left of the trades since the reset, in order; every evicted trade
    is too old for some later one. -/
structure Holds (cfg : TradeFlowAnalyzerConfig) (l : Logged ConfluenceStrategy Call) : Prop where
  config : l.state.tfiAnalyzer.cfg = cfg
  ordered : InOrder (trades l.log)
  evicted : ∃ gone, trades l.log = gone ++ l.state.tfiAnalyzer.window ∧
    ∀ t ∈ gone, ∃ u ∈ trades l.log, isFresh cfg u.ts t = false

def NotAfter (first second : Call) : Prop := ∀ t ∈ flowTs first, ∀ ts ∈ flowTs second, t ≤ ts

def Behind (l : Logged ConfluenceStrategy Call) (c : Call) : Prop := ∀ b ∈ l.log, NotAfter b c

theorem behind_trades (behind : Behind l c) : ∀ ts ∈ flowTs c, ∀ t ∈ trades l.log, t.ts ≤ ts := by
  intro ts flow t member
  obtain ⟨call, inside, isTrade⟩ := List.mem_filterMap.mp member
  cases call with
  | trade e =>
    cases isTrade
    exact behind _ inside t.ts rfl ts flow
  | bar b => cases isTrade
  | quote q => cases isTrade
  | bbo bid ask => cases isTrade
  | book e => cases isTrade
  | order upd => cases isTrade
  | sessionOpen => cases isTrade

theorem trades_append (first second : List Call) :
    trades (first ++ second) = trades first ++ trades second :=
  List.filterMap_append

theorem record_trades (stays : callResets l.state c = false) :
    trades (callRecord libm l c).log = trades l.log ++ trades [c] := by
  simp only [callRecord, Logged.record, stays, Bool.false_eq_true, ↓reduceIte, trades_append]

theorem record_reset_trades (resets : callResets l.state c = true) :
    trades (callRecord libm l c).log = trades [c] := by
  simp only [callRecord, Logged.record, resets, ↓reduceIte]

theorem holds_trade {e : TradeEvent} (holds : Holds cfg l) (behind : Behind l (.trade e))
    (flow : (callStep libm l.state (.trade e)).tfiAnalyzer = (l.state.tfiAnalyzer.onTrade e).1) :
    Holds cfg (callRecord libm l (.trade e)) := by
  obtain ⟨config, ordered, gone, split, old⟩ := holds
  have log : trades (callRecord libm l (.trade e)).log = trades l.log ++ [e] := record_trades rfl
  have state : (callRecord libm l (.trade e)).state.tfiAnalyzer = (l.state.tfiAnalyzer.onTrade e).1 :=
    flow
  refine ⟨?_, ?_, ?_⟩
  · rw [state, on_trade_cfg, config]
  · rw [log]
    refine List.pairwise_append.mpr ⟨ordered, List.pairwise_singleton _ _, ?_⟩
    intro t member u new
    rw [List.mem_singleton.mp new]
    exact behind_trades behind e.ts rfl t member
  · rw [state, on_trade_window, config, log]
    refine ⟨gone ++ l.state.tfiAnalyzer.window.takeWhile (fun t => !isFresh cfg e.ts t), ?_, ?_⟩
    · rw [List.append_assoc, ← List.append_assoc (List.takeWhile _ _), List.takeWhile_append_dropWhile,
        ← List.append_assoc, ← split]
    · intro t member
      rcases List.mem_append.mp member with before | now
      · obtain ⟨u, later, stale⟩ := old t before
        exact ⟨u, List.mem_append_left _ later, stale⟩
      · have stale := List.mem_takeWhile_imp now
        exact ⟨e, by simp, by simpa using stale⟩

theorem holds_step (holds : Holds cfg l) (behind : Behind l c) : Holds cfg (callRecord libm l c) := by
  rcases call_flow libm l.state c with ⟨e, rfl, flow⟩ | ⟨none, stays, flow⟩ | ⟨none, resets, flow⟩
  · exact holds_trade holds behind flow
  · have log : trades (callRecord libm l c).log = trades l.log := by
      rw [record_trades stays, none, List.append_nil]
    obtain ⟨config, ordered, evicted⟩ := holds
    have state : (callRecord libm l c).state.tfiAnalyzer = l.state.tfiAnalyzer := flow
    exact ⟨by rw [state, config], by rwa [log], by rwa [log, state]⟩
  · have log : trades (callRecord libm l c).log = [] := by rw [record_reset_trades resets, none]
    have state : (callRecord libm l c).state.tfiAnalyzer = l.state.tfiAnalyzer.sessionReset := flow
    refine ⟨by rw [state]; exact holds.config, by rw [log]; exact List.Pairwise.nil, [], ?_, by simp⟩
    rw [log, state]
    rfl

/-- Once the deque holds no stale trade, it is exactly the fresh trades since the reset. -/
theorem fresh_trades (holds : Holds cfg l) {now : ℤ} (behind : ∀ t ∈ trades l.log, t.ts ≤ now)
    (fresh : ∀ t ∈ l.state.tfiAnalyzer.window, isFresh cfg now t = true) :
    (trades l.log).filter (isFresh cfg now) = l.state.tfiAnalyzer.window := by
  obtain ⟨-, -, gone, split, old⟩ := holds
  have evicted : gone.filter (isFresh cfg now) = [] := by
    refine List.filter_eq_nil_iff.mpr ?_
    intro t member
    obtain ⟨u, later, stale⟩ := old t member
    have := behind u later
    simp only [isFresh, decide_eq_false_iff_not, decide_eq_true_eq, not_le] at stale ⊢
    omega
  rw [split, List.filter_append, evicted, List.nil_append]
  exact List.filter_eq_self.mpr fresh

theorem fresh_vote (holds : Holds cfg (callRecord libm l c)) {ts : ℤ}
    (behind : ∀ t ∈ trades (callRecord libm l c).log, t.ts ≤ ts)
    (fresh : ∀ t ∈ (callRecord libm l c).state.tfiAnalyzer.window, isFresh cfg ts t = true) :
    (callRecord libm l c).state.tfiAnalyzer.vote =
      voteOn cfg ((trades (callRecord libm l c).log).filter (isFresh cfg ts)) := by
  rw [fresh_trades holds behind fresh]
  exact vote_of_window holds.config

theorem window_in_order (holds : Holds cfg l) : InOrder l.state.tfiAnalyzer.window := by
  obtain ⟨-, ordered, gone, split, -⟩ := holds
  rw [split] at ordered
  exact (List.pairwise_append.mp ordered).2.1

theorem fresh_step (holds : Holds cfg l) (behind : Behind l c) (nothing : NothingStale cfg l c) :
    FreshVote libm cfg l c := by
  intro ts flow enters
  have next : Holds cfg (callRecord libm l c) := holds_step holds behind
  have reached := entry_not_refused flow enters
  rcases flow_cases flow with ⟨e, rfl, rfl⟩ | ⟨e, rfl, rfl⟩
  · have log : trades (callRecord libm l (.book e)).log = trades l.log := by
      rw [record_trades rfl]
      exact List.append_nil _
    obtain ⟨book, spoof, signalTs, frame⟩ := book_frame libm l.state e
    have state : (callRecord libm l (.book e)).state.tfiAnalyzer = l.state.tfiAnalyzer := by
      simp only [callRecord, Logged.record, callStep, perform, frame]
    refine fresh_vote next ?_ ?_
    · rw [log]
      exact behind_trades behind e.ts rfl
    · rw [state]
      exact nothing.resolve_left reached
  · have positive : 0 ≤ cfg.tfiWindow := nothing.resolve_left reached
    have itself : isFresh cfg e.ts e = true := by
      have window : 0 ≤ cfg.tfiWindow * nsPerMs := Int.mul_nonneg positive (by decide)
      simp only [isFresh, decide_eq_true_eq]
      omega
    have log : trades (callRecord libm l (.trade e)).log = trades l.log ++ [e] := record_trades rfl
    have state : (callRecord libm l (.trade e)).state.tfiAnalyzer =
        (l.state.tfiAnalyzer.onTrade e).1 := by
      simp only [callRecord, Logged.record, callStep, perform, ConfluenceStrategy.onTradeEvent]
      rw [try_enter_frame]
    refine fresh_vote next ?_ ?_
    · rw [log]
      intro t member
      rcases List.mem_append.mp member with old | new
      · exact behind_trades behind e.ts rfl t old
      · rw [List.mem_singleton.mp new]
    · rw [state, on_trade_window, holds.config]
      intro t member
      rcases List.mem_append.mp member with kept | new
      · exact in_order_evicted (window_in_order holds) t kept
      · rw [List.mem_singleton.mp new]
        exact itself

/-- For every sequence of calls whose book and trade events are in order of time: if no
    book event that can enter finds a trade older than the window, every entry rests on the
    vote of exactly the trades of its window since the last reset. -/
theorem entries_rest_on_fresh_flow (libm : Libm) (cfg : ConfluenceConfig) (calls : List Call)
    (ordered : (calls.filterMap flowTs).Pairwise (· ≤ ·))
    (nothing : Along (callRecord libm) (NothingStale cfg.tfiCfg) ⟨.init libm cfg, []⟩ calls) :
    Along (callRecord libm) (FreshVote libm cfg.tfiCfg) ⟨.init libm cfg, []⟩ calls := by
  have behind : Along (callRecord libm) Behind ⟨.init libm cfg, []⟩ calls :=
    along_ordered Logged.log (record_grows (callStep libm) callResets)
      (List.pairwise_filterMap.mp ordered) (fun _ none => by cases none)
  exact along_of_invariant (I := Holds cfg.tfiCfg)
    (fun l c holds both => fresh_step holds both.1 both.2)
    (fun l c holds both => holds_step holds both.1)
    ⟨rfl, List.Pairwise.nil, [], rfl, by simp⟩ (along_and_iff.mpr ⟨behind, nothing⟩)

end Run

/-- The range of 90 to 100, a close above it, a buy, and a deep bid `quiet` seconds later. -/
def breakoutDay (quiet : ℤ) : List Call :=
  [.bar openingBar,
    .bar { openingBar with high := 112, low := 100, close := 111, ts := 436 * 60 * nsPerSec },
    .trade { price := 111, volume := 10, isBuy := true, ts := 437 * 60 * nsPerSec },
    .book { level := 0, price := 110, oldBidSize := 0, newBidSize := 100, oldAskSize := 0,
            newAskSize := 0, ts := 437 * 60 * nsPerSec + quiet * nsPerSec }]

instance (libm : Libm) (cfg : TradeFlowAnalyzerConfig) (l : Logged ConfluenceStrategy Call)
    (c : Call) : Decidable (FreshVote libm cfg l c) :=
  inferInstanceAs (Decidable (∀ ts ∈ flowTs c, _ → _))

instance (s : ConfluenceStrategy) (ts : ℤ) : Decidable (Refused s ts) :=
  inferInstanceAs (Decidable (_ ∨ _ ∨ _ ∨ _))

instance (cfg : TradeFlowAnalyzerConfig) (l : Logged ConfluenceStrategy Call) :
    (c : Call) → Decidable (NothingStale cfg l c)
  | .book _ => inferInstanceAs (Decidable (_ ∨ _))
  | .trade _ => inferInstanceAs (Decidable (_ ∨ _))
  | .bar _ | .quote _ | .bbo _ _ | .order _ | .sessionOpen => .isTrue trivial

/-- Four seconds after the last trade the entry rests on it. -/
theorem recent_trade_fresh :
    let start : Logged ConfluenceStrategy Call := ⟨.init flatLibm makeCfg, []⟩
    (outputs (perform flatLibm) start.state (breakoutDay 4)).map Option.isSome =
        [true, true, false, true] ∧
      Along (callRecord flatLibm) (FreshVote flatLibm makeCfg.tfiCfg) start (breakoutDay 4) :=
  ⟨by decide +kernel,
    entries_rest_on_fresh_flow flatLibm makeCfg (breakoutDay 4) (by decide +kernel) (by decide +kernel)⟩

/-- An hour after the last trade the entry still rests on it. -/
theorem stale_trade_enters :
    let start : Logged ConfluenceStrategy Call := ⟨.init flatLibm makeCfg, []⟩
    ((breakoutDay 3600).filterMap flowTs).Pairwise (· ≤ ·) ∧
      (outputs (perform flatLibm) start.state (breakoutDay 3600)).map Option.isSome =
        [true, true, false, true] ∧
      ¬Along (callRecord flatLibm) (FreshVote flatLibm makeCfg.tfiCfg) start (breakoutDay 3600) := by
  decide +kernel

end FinamFreshFlow
