import FinamTradebot.OpeningRange

/-!
One session reset per trading day. The daily flag is set by the reset and cleared by an
event before the open; it knows the minute of the day and not the date. A run keeps all
its events and, as the log, those since the last reset.
-/
namespace FinamDaily
open FinamInterfaces FinamConfluence FinamRunner FinamOpeningRange Runs

def feedTs : Feed → ℤ
  | .quote q => q.ts
  | .bar b => b.ts

def nsPerDay : ℤ := 86400 * nsPerSec

def utcDay (e : Feed) : ℤ := feedTs e / nsPerDay

def utcMinute (e : Feed) : ℤ := feedTs e % nsPerDay / (60 * nsPerSec)

structure Daily where
  logged : Logged ConfluenceStrategy Feed
  seen : List Feed

def Daily.step (d : Daily) (e : Feed) : Daily := ⟨feedRecord d.logged e, d.seen ++ [e]⟩

section Property
variable (cfg : ConfluenceConfig) (d : Daily) (e : Feed)

/-- An event of the strategy's contract in the first five minutes of the session. -/
def inWindow (e : Feed) : Bool :=
  isOwn cfg.symbol e && decide (cfg.sessionCfg.sessionOpenUtcMin ≤ utcMinute e) &&
    decide (utcMinute e < cfg.sessionCfg.sessionOpenUtcMin + 5)

/-- The first event of its day in the window. -/
def FirstOfDay : Prop :=
  inWindow cfg e = true ∧ ∀ f ∈ d.seen, inWindow cfg f = true → utcDay f ≠ utcDay e

def ResetsOnce : Prop := feedResets d.logged.state e = true ↔ FirstOfDay cfg d e

/-- From the first event in the window on, what the strategy has received since its last
    reset is all of the current day. -/
def OfItsDay : Prop :=
  isOwn cfg.symbol e = true →
    (∃ f ∈ (d.step e).seen, inWindow cfg f = true ∧ utcDay f = utcDay e) →
      ∀ f ∈ (d.step e).logged.log, isOwn cfg.symbol f = true → utcDay f = utcDay e

def OneReset : Prop := ResetsOnce cfg d e ∧ OfItsDay cfg d e

/-- An own event before the end of the opening five minutes, the only ones that write the
    daily flag. -/
def nearOpen (e : Feed) : Bool :=
  isOwn cfg.symbol e && decide (utcMinute e < cfg.sessionCfg.sessionOpenUtcMin + 5)

def lastNearOpen (seen : List Feed) : Option Feed := (seen.filter (nearOpen cfg)).getLast?

/-- The condition on an event and those before it: its time is not before 1970, and if it
    is the first of its day in the window, the last event near the open, if any, came
    before an open. -/
def Rearmed : Prop :=
  isOwn cfg.symbol e = true → 0 ≤ feedTs e ∧
    (FirstOfDay cfg d e →
      ∀ f ∈ lastNearOpen cfg d.seen, utcMinute f < cfg.sessionCfg.sessionOpenUtcMin)

end Property

section Time
variable {e f : Feed}

theorem minute_of_nonneg (valid : 0 ≤ feedTs e) : minuteOfDay (feedTs e) = utcMinute e := by
  simp only [utcMinute, minuteOfDay, nsPerDay, nsPerSec]
  have seconds : (feedTs e).tdiv 1000000000 = feedTs e / 1000000000 :=
    Int.tdiv_eq_ediv_of_nonneg valid
  have ofDay : (feedTs e / 1000000000).tmod 86400 = feedTs e / 1000000000 % 86400 :=
    Int.tmod_eq_emod_of_nonneg (by omega)
  rw [seconds, ofDay, Int.tdiv_eq_ediv_of_nonneg (by omega)]
  omega

theorem day_mono (before : feedTs f ≤ feedTs e) : utcDay f ≤ utcDay e := by
  simp only [utcDay, nsPerDay, nsPerSec]
  omega

theorem minute_mono (before : feedTs f ≤ feedTs e) (sameDay : utcDay f = utcDay e) :
    utcMinute f ≤ utcMinute e := by
  simp only [utcDay, utcMinute, nsPerDay, nsPerSec] at sameDay ⊢
  omega

end Time

section Flag
variable {cfg : ConfluenceConfig} {s : ConfluenceStrategy} {e : Feed}

/-- The daily flag after the events seen so far: the last of those near the open decides. -/
def flagOf (cfg : ConfluenceConfig) (seen : List Feed) : Bool :=
  (lastNearOpen cfg seen).any (fun f => decide (cfg.sessionCfg.sessionOpenUtcMin ≤ utcMinute f))

theorem flag_append_near {seen : List Feed} (near : nearOpen cfg e = true) :
    flagOf cfg (seen ++ [e]) = decide (cfg.sessionCfg.sessionOpenUtcMin ≤ utcMinute e) := by
  simp [flagOf, lastNearOpen, List.filter_append, near]

theorem flag_append_far {seen : List Feed} (far : nearOpen cfg e = false) :
    flagOf cfg (seen ++ [e]) = flagOf cfg seen := by
  simp [flagOf, lastNearOpen, List.filter_append, far]

theorem feed_foreign (foreign : isOwn s.cfg.symbol e = false) :
    (feedStep s e).sessionOpenedToday = s.sessionOpenedToday ∧ feedResets s e = false := by
  cases e with
  | quote q =>
    have other : q.symbol ≠ s.cfg.symbol := by simpa [isOwn] using foreign
    simp [feedStep, feedResets, ConfluenceStrategy.onQuote, ConfluenceStrategy.quoteResets, other]
  | bar b =>
    by_cases own : b.symbol = s.cfg.symbol
    · have frame : detectTimeframe b ≠ .intraday := by simpa [isOwn, own] using foreign
      cases kind : detectTimeframe b with
      | intraday => exact absurd kind frame
      | daily =>
        simp [feedStep, feedResets, ConfluenceStrategy.onBar, ConfluenceStrategy.barResets, own, kind]
      | unknown =>
        simp [feedStep, feedResets, ConfluenceStrategy.onBar, ConfluenceStrategy.barResets, own, kind]
    · simp [feedStep, feedResets, ConfluenceStrategy.onBar, ConfluenceStrategy.barResets, own]

theorem feed_own (own : isOwn s.cfg.symbol e = true) :
    (feedStep s e).sessionOpenedToday = (s.handleSessionOpen (feedTs e)).sessionOpenedToday ∧
      feedResets s e = s.opensSession (feedTs e) := by
  cases e with
  | quote q =>
    have mine : q.symbol = s.cfg.symbol := by simpa [isOwn] using own
    simp only [feedStep, feedResets, ConfluenceStrategy.onQuote, ConfluenceStrategy.quoteResets, mine,
      ne_eq, not_true_eq_false, ↓reduceIte, decide_true, Bool.true_and, feedTs]
    split_ifs <;> exact ⟨rfl, trivial⟩
  | bar b =>
    obtain ⟨mine, frame⟩ : b.symbol = s.cfg.symbol ∧ detectTimeframe b = .intraday := by
      simpa [isOwn] using own
    simp [feedStep, feedResets, ConfluenceStrategy.onBar, ConfluenceStrategy.barResets, mine, frame,
      feedTs]

theorem handle_flag (s : ConfluenceStrategy) (ts : ℤ) :
    (s.handleSessionOpen ts).sessionOpenedToday =
      (!decide (minuteOfDay ts < s.cfg.sessionCfg.sessionOpenUtcMin) &&
        (s.sessionOpenedToday || s.opensSession ts)) := by
  unfold ConfluenceStrategy.handleSessionOpen
  simp only [sessionOpenUtcMin]
  cases opens : s.opensSession ts with
  | true =>
    simp only [↓reduceIte, Bool.or_true, Bool.and_true]
    split <;> simp_all [ConfluenceStrategy.onSessionOpen]
  | false =>
    simp only [Bool.false_eq_true, ↓reduceIte, Bool.or_false]
    split <;> simp_all

theorem resets_iff (config : s.cfg = cfg) (valid : isOwn cfg.symbol e = true → 0 ≤ feedTs e) :
    feedResets s e = (!s.sessionOpenedToday && inWindow cfg e) := by
  subst config
  cases own : isOwn s.cfg.symbol e with
  | false => simp [(feed_foreign own).2, inWindow, own]
  | true =>
    have minute : sessionOpenUtcMin (feedTs e) = utcMinute e := minute_of_nonneg (valid own)
    rw [(feed_own own).2]
    unfold ConfluenceStrategy.opensSession inWindow
    rw [minute, own, Bool.true_and, Bool.and_assoc]

theorem flag_step {seen : List Feed} (config : s.cfg = cfg)
    (valid : isOwn cfg.symbol e = true → 0 ≤ feedTs e)
    (flag : s.sessionOpenedToday = flagOf cfg seen) :
    (feedStep s e).sessionOpenedToday = flagOf cfg (seen ++ [e]) := by
  subst config
  cases own : isOwn s.cfg.symbol e with
  | false =>
    rw [(feed_foreign own).1, flag_append_far (by simp [nearOpen, own]), flag]
  | true =>
    have minute := minute_of_nonneg (valid own)
    have resets := resets_iff rfl valid
    rw [(feed_own own).2] at resets
    rw [(feed_own own).1, handle_flag, resets, minute]
    by_cases before : utcMinute e < s.cfg.sessionCfg.sessionOpenUtcMin
    · rw [flag_append_near (by simp only [nearOpen, own, Bool.true_and, decide_eq_true_eq]; omega)]
      simp [before, not_le.mpr before]
    · by_cases inside : utcMinute e < s.cfg.sessionCfg.sessionOpenUtcMin + 5
      · rw [flag_append_near (by simp [nearOpen, own, inside])]
        simp [inWindow, own, inside, before, not_lt.mp before]
      · rw [flag_append_far (by simp [nearOpen, inside])]
        simp [inWindow, inside, before, flag]

end Flag

section Run
variable {cfg : ConfluenceConfig} {d : Daily} {e : Feed}

def NotLater (cfg : ConfluenceConfig) (first second : Feed) : Prop :=
  isOwn cfg.symbol first = true → isOwn cfg.symbol second = true → feedTs first ≤ feedTs second

def Behind (cfg : ConfluenceConfig) (d : Daily) (e : Feed) : Prop := ∀ f ∈ d.seen, NotLater cfg f e

/-- The flag is that of the events seen, and nothing received since the last reset is of a
    day before one that had an event in the window. -/
structure Kept (cfg : ConfluenceConfig) (d : Daily) : Prop where
  config : d.logged.state.cfg = cfg
  flag : d.logged.state.sessionOpenedToday = flagOf cfg d.seen
  ordered : d.seen.Pairwise (NotLater cfg)
  logged : ∀ f ∈ d.logged.log, f ∈ d.seen
  recent : ∀ f ∈ d.logged.log, isOwn cfg.symbol f = true →
    ∀ g ∈ d.seen, inWindow cfg g = true → utcDay g ≤ utcDay f

theorem window_own (inside : inWindow cfg e = true) : isOwn cfg.symbol e = true := by
  simp only [inWindow, Bool.and_eq_true] at inside
  exact inside.1.1

theorem window_open (inside : inWindow cfg e = true) :
    cfg.sessionCfg.sessionOpenUtcMin ≤ utcMinute e := by
  simp only [inWindow, Bool.and_eq_true, decide_eq_true_eq] at inside
  exact inside.1.2

theorem window_near (inside : inWindow cfg e = true) : nearOpen cfg e = true := by
  simp only [inWindow, Bool.and_eq_true] at inside
  simp only [nearOpen, Bool.and_eq_true]
  exact ⟨inside.1.1, inside.2⟩

theorem last_ordered {R : Feed → Feed → Prop} {l : List Feed} {last : Feed} (ordered : l.Pairwise R)
    (ends : l.getLast? = some last) : ∀ f ∈ l, f = last ∨ R f last := by
  obtain ⟨init, rfl⟩ := List.getLast?_eq_some_iff.mp ends
  intro f member
  rcases List.mem_append.mp member with old | new
  · exact Or.inr ((List.pairwise_append.mp ordered).2.2 f old last (by simp))
  · exact Or.inl (List.mem_singleton.mp new)

/-- After an event in the window, no event of the same day clears the flag. -/
theorem flag_same_day (ordered : d.seen.Pairwise (NotLater cfg)) (behind : Behind cfg d e)
    (own : isOwn cfg.symbol e = true) {f : Feed} (member : f ∈ d.seen)
    (inside : inWindow cfg f = true) (sameDay : utcDay f = utcDay e) : flagOf cfg d.seen = true := by
  have near : f ∈ d.seen.filter (nearOpen cfg) := List.mem_filter.mpr ⟨member, window_near inside⟩
  cases ends : (d.seen.filter (nearOpen cfg)).getLast? with
  | none =>
    rw [List.getLast?_eq_none_iff.mp ends] at near
    cases near
  | some last =>
    have inSeen := List.mem_filter.mp (List.mem_of_getLast? ends)
    have lastOwn : isOwn cfg.symbol last = true := by
      have := inSeen.2
      simp only [nearOpen, Bool.and_eq_true] at this
      exact this.1
    have after : feedTs f ≤ feedTs last := by
      rcases last_ordered (ordered.filter _) ends f near with rfl | before
      · exact le_rfl
      · exact before (window_own inside) lastOwn
    have until_ : feedTs last ≤ feedTs e := behind last inSeen.1 lastOwn own
    have lastDay : utcDay f = utcDay last :=
      le_antisymm (day_mono after) ((day_mono until_).trans_eq sameDay.symm)
    have minute := (window_open inside).trans (minute_mono after lastDay)
    simp [flagOf, lastNearOpen, ends, minute]

/-- One event resets the session as it should exactly if it finds the flag cleared when it
    is the first of its day. -/
theorem once_iff (kept : Kept cfg d) (behind : Behind cfg d e)
    (valid : isOwn cfg.symbol e = true → 0 ≤ feedTs e) :
    ResetsOnce cfg d e ↔ (FirstOfDay cfg d e →
      ∀ f ∈ lastNearOpen cfg d.seen, utcMinute f < cfg.sessionCfg.sessionOpenUtcMin) := by
  have resets := resets_iff kept.config valid
  have cleared : flagOf cfg d.seen = false ↔
      ∀ f ∈ lastNearOpen cfg d.seen, utcMinute f < cfg.sessionCfg.sessionOpenUtcMin := by
    unfold flagOf
    cases lastNearOpen cfg d.seen with
    | none => simp
    | some last => simp
  rw [kept.flag] at resets
  unfold ResetsOnce
  rw [resets, ← cleared]
  constructor
  · intro once first
    simpa [first.1] using once.mpr first
  · intro rearmed
    constructor
    · intro both
      obtain ⟨unset, inside⟩ : flagOf cfg d.seen = false ∧ inWindow cfg e = true := by simpa using both
      refine ⟨inside, fun f member other sameDay => ?_⟩
      rw [flag_same_day kept.ordered behind (window_own inside) member other sameDay] at unset
      cases unset
    · intro first
      simp [rearmed first, first.1]

theorem kept_step (kept : Kept cfg d) (behind : Behind cfg d e)
    (valid : isOwn cfg.symbol e = true → 0 ≤ feedTs e) (once : ResetsOnce cfg d e) :
    Kept cfg (d.step e) := by
  have grows := record_grows feedStep feedResets d.logged e
  have inSeen : ∀ f ∈ (d.step e).logged.log, f ∈ d.seen ++ [e] := by
    intro f member
    rcases grows f member with old | rfl
    · exact List.mem_append_left _ (kept.logged f old)
    · simp
  have upTo : ∀ g ∈ d.seen ++ [e], isOwn cfg.symbol g = true → isOwn cfg.symbol e = true →
      utcDay g ≤ utcDay e := by
    intro g member ownG ownE
    rcases List.mem_append.mp member with old | new
    · exact day_mono (behind g old ownG ownE)
    · rw [List.mem_singleton.mp new]
  refine ⟨feed_symbol.trans kept.config, flag_step kept.config valid kept.flag, ?_, inSeen, ?_⟩
  · exact List.pairwise_append.mpr ⟨kept.ordered, List.pairwise_singleton _ _,
      fun f old g new => by rw [List.mem_singleton.mp new]; exact behind f old⟩
  · intro f member ownF g seen inside
    rcases grows f member with old | rfl
    · rcases List.mem_append.mp seen with before | new
      · exact kept.recent f old ownF g before inside
      · rw [List.mem_singleton.mp new] at inside ⊢
        by_cases first : FirstOfDay cfg d e
        · have only : (d.step e).logged.log = [e] := by
            simp [Daily.step, feedRecord, Logged.record, once.mpr first]
          rw [only] at member
          rw [List.mem_singleton.mp member]
        · have another : ∃ h ∈ d.seen, inWindow cfg h = true ∧ utcDay h = utcDay e := by
            by_contra none
            push Not at none
            exact first ⟨inside, none⟩
          obtain ⟨h, earlier, insideH, sameDay⟩ := another
          rw [← sameDay]
          exact kept.recent f old ownF h earlier insideH
    · exact upTo g seen (window_own inside) ownF

theorem rearmed_once (kept : Kept cfg d) (behind : Behind cfg d e) (rearmed : Rearmed cfg d e) :
    ResetsOnce cfg d e := by
  refine (once_iff kept behind (fun own => (rearmed own).1)).mpr ?_
  intro first
  exact (rearmed (window_own first.1)).2 first

theorem rearmed_step (kept : Kept cfg d) (behind : Behind cfg d e) (rearmed : Rearmed cfg d e) :
    Kept cfg (d.step e) :=
  kept_step kept behind (fun own => (rearmed own).1) (rearmed_once kept behind rearmed)

theorem of_its_day (kept : Kept cfg (d.step e)) (behind : Behind cfg d e) : OfItsDay cfg d e := by
  rintro own ⟨g, seen, inside, sameDay⟩ f member ownF
  refine le_antisymm ?_ ?_
  · rcases List.mem_append.mp (kept.logged f member) with old | new
    · exact day_mono (behind f old ownF own)
    · rw [List.mem_singleton.mp new]
  · rw [← sameDay]
    exact kept.recent f member ownF g seen inside

theorem kept_init (libm : FinamOrderBook.Libm) (cfg : ConfluenceConfig) :
    Kept cfg ⟨⟨.init libm cfg, []⟩, []⟩ :=
  ⟨rfl, rfl, List.Pairwise.nil, by simp, by simp⟩

/-- For every feed whose own quotes and intraday bars are in order of time: if the flag was
    cleared since the last window at every first event of a day in the window, the session
    is reset exactly at those events and then holds nothing of an earlier day; and for times
    after 1970 only then. -/
theorem one_reset_per_day_iff (libm : FinamOrderBook.Libm) (cfg : ConfluenceConfig)
    (events : List Feed)
    (ordered : ((events.filter (isOwn cfg.symbol)).map feedTs).Pairwise (· ≤ ·)) :
    let start : Daily := ⟨⟨.init libm cfg, []⟩, []⟩
    (Along Daily.step (Rearmed cfg) start events → Along Daily.step (OneReset cfg) start events) ∧
    ((∀ e ∈ events, isOwn cfg.symbol e = true → 0 ≤ feedTs e) →
      Along Daily.step (OneReset cfg) start events → Along Daily.step (Rearmed cfg) start events) := by
  intro start
  have behind : Along Daily.step (Behind cfg) start events := by
    refine along_ordered (R := NotLater cfg) Daily.seen ?_ ?_ (fun _ none => by cases none)
    · intro d e f member
      exact (List.mem_append.mp member).imp_right List.mem_singleton.mp
    · exact List.pairwise_filter.mp (List.pairwise_map.mp ordered)
  constructor
  · intro rearmed
    exact along_of_invariant (I := Kept cfg)
      (fun d e kept both => ⟨rearmed_once kept both.1 both.2,
        of_its_day (rearmed_step kept both.1 both.2) both.1⟩)
      (fun d e kept both => rearmed_step kept both.1 both.2)
      (kept_init libm cfg) (along_and_iff.mpr ⟨behind, rearmed⟩)
  · intro valid once
    have times : Along Daily.step (fun _ e => isOwn cfg.symbol e = true → 0 ≤ feedTs e) start events :=
      (along_iff_forall _ start events).mpr valid
    exact along_of_invariant (I := Kept cfg)
      (fun d e kept all own => ⟨all.2.1 own, (once_iff kept all.1 all.2.1).mp all.2.2.1⟩)
      (fun d e kept all => kept_step kept all.1 all.2.1 all.2.2.1)
      (kept_init libm cfg) (along_and_iff.mpr ⟨behind, along_and_iff.mpr ⟨times, once⟩⟩)

end Run

section Decidable
variable (cfg : ConfluenceConfig) (d : Daily) (e : Feed)

instance : Decidable (FirstOfDay cfg d e) := inferInstanceAs (Decidable (_ ∧ _))

instance : Decidable (ResetsOnce cfg d e) := inferInstanceAs (Decidable (_ ↔ _))

instance : Decidable (OfItsDay cfg d e) := inferInstanceAs (Decidable (_ → _ → _))

instance : Decidable (OneReset cfg d e) := inferInstanceAs (Decidable (_ ∧ _))

instance : Decidable (Rearmed cfg d e) := inferInstanceAs (Decidable (_ → _ ∧ _))

end Decidable

/-- A quote at a minute of a day. -/
def dayQuote (day minute : ℤ) : Feed :=
  .quote (makeQuote 99 101 (day * nsPerDay + minute * 60 * nsPerSec))

/-- The second day has a quote before the open. -/
theorem early_quote_rearms :
    let start : Daily := ⟨⟨.init flatLibm makeCfg, []⟩, []⟩
    let feed := [dayQuote 1 420, dayQuote 1 500, dayQuote 2 419, dayQuote 2 422, dayQuote 2 423]
    ((feed.filter (isOwn makeCfg.symbol)).map feedTs).Pairwise (· ≤ ·) ∧
      Along Daily.step (OneReset makeCfg) start feed :=
  ⟨by decide +kernel,
    (one_reset_per_day_iff flatLibm makeCfg _ (by decide +kernel)).1 (by decide +kernel)⟩

/-- The feed of the second day starts after the open, and its first quote in the window
    resets nothing. -/
theorem late_start_misses_reset :
    let start : Daily := ⟨⟨.init flatLibm makeCfg, []⟩, []⟩
    let feed := [dayQuote 1 420, dayQuote 1 500, dayQuote 2 422]
    let last := run Daily.step start feed
    ((feed.filter (isOwn makeCfg.symbol)).map feedTs).Pairwise (· ≤ ·) ∧
      ¬Along Daily.step (OneReset makeCfg) start feed ∧
      last.logged.log.map utcDay = [1, 1, 2] := by
  decide +kernel

end FinamDaily
