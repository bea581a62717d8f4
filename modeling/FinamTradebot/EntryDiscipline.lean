import FinamTradebot.StrategyCalls
import FinamTradebot.StrategyRunner

/-!
The entry signals between two session resets. A session keeps, beside the strategy, the
bias that was found when the range was finalized and the entries given since the reset;
both are read off the calls and their answers and the strategy never sees them.
-/
namespace FinamDiscipline
open FinamInterfaces FinamOrderBook FinamSession FinamConfluence FinamCalls Runs
open FinamRunner hiding Action

structure Entry where
  direction : Direction
  ts : ℤ
  position : ℤ
  mlofi : Vote
  tfi : Vote
  deriving DecidableEq, Repr

structure Session where
  strategy : ConfluenceStrategy
  fixed : Option Bias := none
  entries : List Entry := []

/-- The position and the votes are those that `try_enter` reads; it changes none of them. -/
def entryOf (c : Call) (answer : ConfluenceStrategy × Option Signal) : List Entry :=
  match flowTs c, answer.2 with
  | some ts, some sig =>
    [{ direction := sig.direction
       ts := ts
       position := answer.1.position
       mlofi := answer.1.obState.vote
       tfi := answer.1.tfiAnalyzer.vote }]
  | _, _ => []

def Session.opened (s : Session) (c : Call) : Session :=
  if callResets s.strategy c then { s with fixed := none, entries := [] } else s

def Session.step (libm : Libm) (s : Session) (c : Call) : Session :=
  let answer := perform libm s.strategy c
  let s := s.opened c
  { strategy := answer.1
    fixed := if s.fixed.isNone && answer.1.sessionCtx.orbFinalized then
      some answer.1.sessionCtx.bias else s.fixed
    entries := s.entries ++ entryOf c answer }

/-- The entry goes the way of the bias, with both votes, and from a flat position. -/
def Entry.Follows (e : Entry) (bias : Bias) : Prop :=
  e.position = 0 ∧
    ((bias = .long ∧ e.direction = .buy ∧ e.mlofi = .long ∧ e.tfi = .long) ∨
      (bias = .short ∧ e.direction = .sell ∧ e.mlofi = .short ∧ e.tfi = .short))

instance (e : Entry) (bias : Bias) : Decidable (e.Follows bias) :=
  inferInstanceAs (Decidable (_ ∧ _))

structure Session.Disciplined (s : Session) : Prop where
  follows : ∀ e ∈ s.entries, ∃ bias, s.fixed = some bias ∧ e.Follows bias
  spaced : s.entries.Pairwise (fun first second => first.ts + 5 * nsPerSec ≤ second.ts)

section Context
variable {ctx : SessionContext} {s : ConfluenceStrategy}

theorem handle_stays {ts : ℤ} (stays : s.opensSession ts = false) :
    (s.handleSessionOpen ts).sessionCtx = s.sessionCtx := by
  obtain ⟨opened, opening⟩ := open_frame s ts
  rw [opening, stays]
  rfl

theorem bar_keeps_bias {b : Bar} (done : s.sessionCtx.orbFinalized = true)
    (stays : s.barResets b = false) : (s.onBar b).1.sessionCtx.orbFinalized = true ∧
      (s.onBar b).1.sessionCtx.bias = s.sessionCtx.bias := by
  unfold ConfluenceStrategy.onBar
  by_cases foreign : b.symbol ≠ s.cfg.symbol
  · rw [if_pos foreign]
    exact ⟨done, rfl⟩
  · rw [if_neg foreign]
    cases frame : detectTimeframe b with
    | daily =>
      obtain ⟨ranges, idx, count, atr, nr7, frame⟩ := daily_frame s.sessionCtx b
      simp only [frame]
      exact ⟨done, trivial⟩
    | intraday =>
      have closed : s.opensSession b.ts = false := by
        simpa [ConfluenceStrategy.barResets, not_not.mp foreign, frame] using stays
      simp only [handle_stays closed, SessionContext.onIntradayBar, done, ↓reduceIte, and_self]
    | unknown => exact ⟨done, rfl⟩

theorem quote_keeps_bias {q : Quote} (done : s.sessionCtx.orbFinalized = true)
    (stays : s.quoteResets q = false) : (s.onQuote q).1.sessionCtx.orbFinalized = true ∧
      (s.onQuote q).1.sessionCtx.bias = s.sessionCtx.bias := by
  by_cases own : q.symbol = s.cfg.symbol
  · have closed : s.opensSession q.ts = false := by
      simpa [ConfluenceStrategy.quoteResets, own] using stays
    rw [quote_context s own, handle_stays closed, finalize_twice done]
    exact ⟨done, rfl⟩
  · unfold ConfluenceStrategy.onQuote
    rw [if_pos own]
    exact ⟨done, rfl⟩

/-- Once the range is finalized, only a reset changes the bias. -/
theorem call_keeps_bias (libm : Libm) {c : Call} (done : s.sessionCtx.orbFinalized = true)
    (stays : callResets s c = false) : (callStep libm s c).sessionCtx.orbFinalized = true ∧
      (callStep libm s c).sessionCtx.bias = s.sessionCtx.bias := by
  cases c with
  | bar b => exact bar_keeps_bias done stays
  | quote q => exact quote_keeps_bias done stays
  | bbo bid ask => exact ⟨done, rfl⟩
  | book e =>
    obtain ⟨book, spoof, signalTs, frame⟩ := book_frame libm s e
    simp only [callStep, perform, frame]
    exact ⟨done, trivial⟩
  | trade e =>
    obtain ⟨mid, flow, signalTs, frame⟩ := trade_frame s e
    simp only [callStep, perform, frame]
    exact ⟨done, trivial⟩
  | order upd =>
    obtain ⟨entry, frame, -⟩ := update_frame s upd
    simp only [callStep, perform, frame]
    exact ⟨done, trivial⟩
  | sessionOpen => cases stays

end Context

section Entries
variable {s : ConfluenceStrategy} {c : Call}

theorem keeps_signal_ts (libm : Libm) (quiet : flowTs c = none) (stays : callResets s c = false) :
    (callStep libm s c).lastSignalTs = s.lastSignalTs := by
  cases c with
  | bar b =>
    obtain ⟨ctx, opened, frame⟩ := bar_frame s b
    have resets : s.barResets b = false := stays
    simp only [callStep, perform, frame, resets]
    rfl
  | quote q =>
    obtain ⟨ctx, opened, frame⟩ := quote_frame s q
    have resets : s.quoteResets q = false := stays
    simp only [callStep, perform, frame, resets]
    rfl
  | bbo bid ask => rfl
  | book e => cases quiet
  | trade e => cases quiet
  | order upd =>
    obtain ⟨entry, frame, -⟩ := update_frame s upd
    simp only [callStep, perform, frame]
  | sessionOpen => cases stays

/-- What `try_enter` leaves of an answer: no signal and no stamp, or an entry that follows
    the bias and is stamped at least five seconds after the previous stamp. -/
def Answers (c : Call) (before after : ConfluenceStrategy) (entries : List Entry) : Prop :=
  (entries = [] ∧ after.lastSignalTs = before.lastSignalTs) ∨
    ∃ e, entries = [e] ∧ flowTs c = some e.ts ∧ before.lastSignalTs + 5 * nsPerSec ≤ e.ts ∧
      after.lastSignalTs = e.ts ∧ after.sessionCtx.orbFinalized = true ∧
      e.Follows after.sessionCtx.bias

def entryAt (s : ConfluenceStrategy) (ts : ℤ) : Entry :=
  ⟨(s.buildEntry s.ofiVote).direction, ts, s.position, s.obState.vote, s.tfiAnalyzer.vote⟩

theorem entry_follows {s : ConfluenceStrategy} {ts : ℤ} (may : s.MayEnter ts) :
    (entryAt s ts).Follows s.sessionCtx.bias := by
  refine ⟨may.flat, ?_⟩
  unfold entryAt ConfluenceStrategy.buildEntry ConfluenceStrategy.ofiVote
  rcases may.agrees with ⟨bias, book, flow⟩ | ⟨bias, book, flow⟩
  · rw [book, flow]
    exact Or.inl ⟨bias, rfl, rfl, rfl⟩
  · rw [book, flow]
    exact Or.inr ⟨bias, rfl, rfl, rfl⟩

theorem enter_answers {before : ConfluenceStrategy} {ts : ℤ} (flow : flowTs c = some ts)
    (same : s.lastSignalTs = before.lastSignalTs) :
    Answers c before (s.tryEnter ts).1 (entryOf c (s.tryEnter ts)) := by
  by_cases may : s.MayEnter ts
  · rw [try_enter_of_may may]
    have cooled : before.lastSignalTs + 5 * nsPerSec ≤ ts := by
      have := may.cooled
      omega
    have one : entryOf c ({ s with lastSignalTs := ts }, some (s.buildEntry s.ofiVote)) =
        [entryAt s ts] := by
      simp only [entryOf, flow, entryAt]
    exact Or.inr ⟨entryAt s ts, one, flow, cooled, rfl, may.finalized, entry_follows may⟩
  · rw [try_enter_of_not may]
    exact Or.inl ⟨by simp [entryOf, flow], same⟩

theorem call_answers (libm : Libm) (stays : callResets s c = false) :
    Answers c s (callStep libm s c) (entryOf c (perform libm s c)) := by
  cases flow : flowTs c with
  | none => exact Or.inl ⟨by simp [entryOf, flow], keeps_signal_ts libm flow stays⟩
  | some ts =>
    obtain ⟨updated, call, -, -, stamp⟩ := flow_enters libm (s := s) flow
    rw [callStep, call]
    exact enter_answers flow stamp

end Entries

section Run
variable {s : Session} {c : Call}

/-- The ghost bias is the strategy's own, and no entry is later than the last stamp. -/
structure Session.Kept (s : Session) : Prop where
  fixed : s.fixed = if s.strategy.sessionCtx.orbFinalized then some s.strategy.sessionCtx.bias else none
  stamped : ∀ e ∈ s.entries, e.ts ≤ s.strategy.lastSignalTs
  disciplined : s.Disciplined

theorem fixed_step (libm : Libm) (kept : s.Kept) : (s.step libm c).fixed =
    if (callStep libm s.strategy c).sessionCtx.orbFinalized then
      some (callStep libm s.strategy c).sessionCtx.bias else none := by
  have unset : ∀ next : SessionContext, (s.opened c).fixed = none →
      (if (s.opened c).fixed.isNone && next.orbFinalized then some next.bias else (s.opened c).fixed) =
        if next.orbFinalized then some next.bias else none := by
    intro next none
    rw [none]
    rfl
  by_cases resets : callResets s.strategy c = true
  · exact unset _ (by simp [Session.opened, resets])
  · have stays : callResets s.strategy c = false := by simpa using resets
    have same : (s.opened c).fixed = s.fixed := by simp [Session.opened, stays]
    by_cases done : s.strategy.sessionCtx.orbFinalized = true
    · obtain ⟨finalized, bias⟩ := call_keeps_bias libm done stays
      have known : s.fixed = some s.strategy.sessionCtx.bias := by rw [kept.fixed, if_pos done]
      rw [finalized, bias]
      simp [Session.step, same, known]
    · exact unset _ (by rw [same, kept.fixed, if_neg done])

theorem resetting_entries (libm : Libm) (resets : callResets s.strategy c = true) :
    (s.step libm c).entries = [] := by
  have quiet : flowTs c = none := by
    cases c <;> first | rfl | cases resets
  simp [Session.step, Session.opened, resets, entryOf, quiet]

theorem staying_entries (libm : Libm) (stays : callResets s.strategy c = false) :
    (s.step libm c).entries = s.entries ++ entryOf c (perform libm s.strategy c) := by
  simp [Session.step, Session.opened, stays]

theorem kept_step (libm : Libm) (kept : s.Kept) : (s.step libm c).Kept := by
  have fixed := fixed_step (c := c) libm kept
  cases resets : callResets s.strategy c with
  | true =>
    have none := resetting_entries libm resets
    exact ⟨fixed, by simp [none], by simp [none], by simp [none]⟩
  | false =>
    have bias : ∀ e ∈ s.entries, ∃ bias, (s.step libm c).fixed = some bias ∧ e.Follows bias := by
      intro e member
      obtain ⟨bias, known, follows⟩ := kept.disciplined.follows e member
      refine ⟨bias, ?_, follows⟩
      simp [Session.step, Session.opened, resets, known]
    have entries := staying_entries libm resets
    rcases call_answers (c := c) libm resets with ⟨silent, stamp⟩ |
      ⟨e, one, -, cooled, stamp, finalized, follows⟩
    · rw [silent, List.append_nil] at entries
      refine ⟨fixed, ?_, ?_, ?_⟩
      · rw [entries]
        intro e member
        exact (kept.stamped e member).trans_eq stamp.symm
      · rw [entries]
        exact bias
      · rw [entries]
        exact kept.disciplined.spaced
    · rw [one] at entries
      refine ⟨fixed, ?_, ?_, ?_⟩
      · rw [entries]
        intro f member
        change f.ts ≤ (callStep libm s.strategy c).lastSignalTs
        rcases List.mem_append.mp member with old | new
        · have := kept.stamped f old
          simp only [nsPerSec] at cooled
          omega
        · rw [List.mem_singleton.mp new, stamp]
      · rw [entries]
        intro f member
        rcases List.mem_append.mp member with old | new
        · exact bias f old
        · rw [List.mem_singleton.mp new]
          refine ⟨_, fixed.trans ?_, follows⟩
          simp [finalized]
      · rw [entries]
        refine List.pairwise_append.mpr ⟨kept.disciplined.spaced, List.pairwise_singleton _ _, ?_⟩
        intro f old g new
        rw [List.mem_singleton.mp new]
        have := kept.stamped f old
        omega

theorem kept_init (libm : Libm) (cfg : ConfluenceConfig) :
    Session.Kept { strategy := .init libm cfg } :=
  ⟨rfl, by simp, by simp, List.Pairwise.nil⟩

/-- For every sequence of calls and in every state it reaches, the entries since the last
    session reset all follow the bias fixed when the range was finalized, each from a flat
    position and with both votes, and lie at least five seconds apart. -/
theorem session_entries_disciplined (libm : Libm) (cfg : ConfluenceConfig) (calls : List Call) :
    Visits (Session.step libm) Session.Disciplined { strategy := .init libm cfg } calls := by
  have kept : Visits (Session.step libm) Session.Kept { strategy := .init libm cfg } calls :=
    visits_invariant (fun s c kept => kept_step libm kept) calls (kept_init libm cfg)
  exact visits_mono (fun s kept => kept.disciplined) kept

end Run

end FinamDiscipline
