import FinamTradebot.Contract
import FinamTradebot.RolloverFeed
import Mathlib.Data.List.Induction

/-!
The rollover watchdog among the other threads of a runner. A turn of the watchdog reads the
clock, then the active symbol, then pushes, each a step of its own; the strategy thread may
be inside an earlier rollover meanwhile. The clock readings and the symbols made active are
logged for the statements.
-/
namespace FinamRolloverClock
open FinamInterfaces FinamContract FinamRolloverFeed Runs
open FinamRunner hiding Action
open FinamOrderBook (Libm)

/-- `start_rollover_watchdog` with `check_rollover` inlined: asleep, after the selection of
    the nearest contract, before the push, and out of the loop. -/
inductive WatchPc where
  | asleep
  | selected (next : Symbol)
  | pushing (next : Symbol)
  | ended

structure Watched where
  threads : Threads
  watchdog : WatchPc := .asleep
  stop : Bool := false
  readings : List ℤ := []
  activated : List Symbol := []

def Watched.init (libm : Libm) (cfg : RunnerConfig) (history : Result (List Bar)) : Watched :=
  { threads := Threads.init libm cfg history }

inductive Move where
  | wake (now : ℤ)
  | compare
  | push
  | stop
  | thread (a : Action)

/-- `set_active_symbol` inside `dispatch(RolloverEvent)`. -/
def activates (s : Threads) : Action → List Symbol
  | .strategy _ =>
    match s.pc with
    | .setting newSymbol => [newSymbol]
    | .idle | .unsubscribing _ | .resetting _ | .loading _ | .subscribing _ => []
  | .feed _ _ | .watch _ | .quote _ | .order _ | .bar _ => []

def Watched.step (libm : Libm) (cfg : RunnerConfig) (s : Watched) : Move → Watched
  | .wake now =>
    match s.watchdog with
    | .asleep =>
      if s.stop then { s with watchdog := .ended }
      else
        { s with
          watchdog := .selected (nearestContract cfg.baseTicker cfg.rolloverDays now)
          readings := s.readings ++ [now] }
    | .selected _ | .pushing _ | .ended => s
  | .compare =>
    match s.watchdog with
    | .selected next =>
      if next.securityCode = s.threads.activeSymbol.securityCode then { s with watchdog := .asleep }
      else { s with watchdog := .pushing next }
    | .asleep | .pushing _ | .ended => s
  | .push =>
    match s.watchdog with
    | .pushing next => { s with watchdog := .asleep, threads := s.threads.push (.rollover next) }
    | .asleep | .selected _ | .ended => s
  | .stop => { s with stop := true }
  | .thread (.watch _) => s
  | .thread a =>
    { s with
      threads := s.threads.step libm a
      activated := s.activated ++ activates s.threads a }

section Due

def rollovers : List Item → List Symbol
  | [] => []
  | .rollover newSymbol :: rest => newSymbol :: rollovers rest
  | .flow _ _ :: rest | .quote _ :: rest | .order _ :: rest => rollovers rest

theorem rollovers_append (first later : List Item) :
    rollovers (first ++ later) = rollovers first ++ rollovers later := by
  induction first with
  | nil => rfl
  | cons item rest ih =>
    cases item with
    | rollover newSymbol => exact congrArg (newSymbol :: ·) ih
    | flow | quote | order => exact ih

/-- The rollover the strategy thread has popped and not yet made active. -/
def opening : StrategyPc → List Symbol
  | .unsubscribing newSymbol | .resetting newSymbol | .setting newSymbol => [newSymbol]
  | .idle | .loading _ | .subscribing _ => []

def WatchPc.holds : WatchPc → List Symbol
  | .selected next | .pushing next => [next]
  | .asleep | .ended => []

/-- The contracts on their way to the active symbol, the first one first. -/
def underway (s : Threads) : List Symbol := opening s.pc ++ rollovers s.queue

theorem push_underway (s : Threads) (item : Item) :
    underway (s.push item) = underway s ++ rollovers [item] ∨ underway (s.push item) = underway s := by
  unfold Threads.push
  split
  · left
    simp only [underway, rollovers_append, List.append_assoc]
  · right
    rfl

theorem push_active (s : Threads) (item : Item) : (s.push item).activeSymbol = s.activeSymbol := by
  unfold Threads.push
  split <;> rfl

/-- What a step of the other threads does to the way of a contract: it moves on or is where
    it was, and the one that becomes active has been the first. -/
structure Carries (s next : Threads) (activated : List Symbol) : Prop where
  due : activated ++ underway next = underway s
  active : next.activeSymbol = activated.getLast?.getD s.activeSymbol

theorem carries_refl (s : Threads) : Carries s s [] := ⟨rfl, rfl⟩

theorem push_carries (s : Threads) {item : Item} (other : rollovers [item] = []) :
    Carries s (s.push item) [] := by
  refine ⟨?_, push_active s item⟩
  rcases push_underway s item with more | same
  · rw [more, other, List.append_nil]
    rfl
  · exact same

theorem feed_carries (s : Threads) (i : ℕ) (f : Feed) (move : FeedMove) :
    Carries s (s.feedStep i f move) [] := by
  obtain ⟨symbol, stop, pc⟩ := f
  cases move with
  | test => cases pc <;> exact ⟨rfl, rfl⟩
  | receive message => cases pc <;> exact ⟨rfl, rfl⟩
  | disconnect => cases pc <;> exact ⟨rfl, rfl⟩
  | emit =>
    cases pc with
    | emitting pending =>
      cases pending with
      | nil => exact ⟨rfl, rfl⟩
      | cons e rest =>
        have pushed : Carries s (s.push (.flow symbol e)) [] := push_carries s rfl
        exact ⟨pushed.due, pushed.active⟩
    | testing | reading | ended => exact ⟨rfl, rfl⟩

theorem pop_carries (libm : Libm) {s : Threads} (idle : s.pc = .idle) :
    Carries s (s.pop libm) [] := by
  unfold Threads.pop
  split
  · exact carries_refl s
  all_goals
    rename_i queued
    refine ⟨?_, rfl⟩
    simp [underway, opening, rollovers, idle, queued]

theorem strategy_carries (libm : Libm) (s : Threads) (history : Result (List Bar)) :
    Carries s (s.strategyStep libm history) (activates s (.strategy history)) := by
  unfold Threads.strategyStep activates
  cases stage : s.pc with
  | idle => exact pop_carries libm stage
  | unsubscribing newSymbol | resetting newSymbol | setting newSymbol | loading newSymbol
  | subscribing newSymbol =>
    constructor
    · simp [underway, opening, stage]
    · rfl

theorem thread_carries (libm : Libm) (s : Threads) {a : Action} (own : ∀ next, a ≠ .watch next) :
    Carries s (s.step libm a) (activates s a) := by
  cases a with
  | feed i move =>
    simp only [Threads.step, activates]
    split
    · exact feed_carries s i _ move
    · exact carries_refl s
  | watch next => exact absurd rfl (own next)
  | quote q => exact push_carries s rfl
  | order upd => exact push_carries s rfl
  | bar b => exact ⟨rfl, rfl⟩
  | strategy history => exact strategy_carries libm s history

end Due

section Followed
variable {libm : Libm} {cfg : RunnerConfig} {s : Watched}

/-- The contract of a reading of the clock. -/
def contractAt (cfg : RunnerConfig) (now : ℤ) : Symbol := nearestContract cfg.baseTicker cfg.rolloverDays now

/-- Active contracts and those on their way are contracts of readings, in their order. -/
structure Followed (cfg : RunnerConfig) (s : Watched) : Prop where
  logged : (s.activated ++ (underway s.threads ++ s.watchdog.holds)).Sublist
    (s.readings.map (contractAt cfg))
  active : s.threads.activeSymbol = s.activated.getLast?.getD cfg.strategy.symbol

theorem followed_fewer (followed : Followed cfg s) (threads : Threads)
    (watchdog : WatchPc) (same : threads.activeSymbol = s.threads.activeSymbol)
    (fewer : (underway threads ++ watchdog.holds).Sublist
      (underway s.threads ++ s.watchdog.holds)) :
    Followed cfg { s with threads := threads, watchdog := watchdog } :=
  ⟨((List.Sublist.refl s.activated).append fewer).trans followed.logged, same.trans followed.active⟩

theorem followed_wake (followed : Followed cfg s) (now : ℤ) : Followed cfg (s.step libm cfg (.wake now)) := by
  unfold Watched.step
  cases stage : s.watchdog with
  | asleep =>
    have logged := followed.logged
    rw [stage] at logged
    by_cases stopped : s.stop = true
    · simp only [stopped, ↓reduceIte]
      exact ⟨logged, followed.active⟩
    · simp only [stopped, Bool.false_eq_true, ↓reduceIte]
      refine ⟨?_, followed.active⟩
      have more := logged.append (List.Sublist.refl [contractAt cfg now])
      simpa [WatchPc.holds, List.map_append, contractAt] using more
  | selected | pushing | ended => exact followed

theorem followed_compare (followed : Followed cfg s) : Followed cfg (s.step libm cfg .compare) := by
  unfold Watched.step
  cases stage : s.watchdog with
  | selected next =>
    simp only
    split
    · exact followed_fewer followed s.threads .asleep rfl (by simp [stage, WatchPc.holds])
    · exact followed_fewer followed s.threads (.pushing next) rfl (by simp [stage, WatchPc.holds])
  | asleep | pushing | ended => exact followed

theorem followed_push (followed : Followed cfg s) : Followed cfg (s.step libm cfg .push) := by
  unfold Watched.step
  cases stage : s.watchdog with
  | pushing next =>
    apply followed_fewer followed _ _ (push_active s.threads _)
    rw [stage]
    rcases push_underway s.threads (.rollover next) with more | same
    · rw [more]
      simp [WatchPc.holds, rollovers]
    · rw [same]
      simp [WatchPc.holds]
  | asleep | selected | ended => exact followed

theorem followed_thread (followed : Followed cfg s) (a : Action) :
    Followed cfg (s.step libm cfg (.thread a)) := by
  by_cases other : ∃ next, a = .watch next
  · obtain ⟨next, rfl⟩ := other
    exact followed
  · have carries := thread_carries libm s.threads (fun next same => other ⟨next, same⟩)
    have step : s.step libm cfg (.thread a) =
        { s with
          threads := s.threads.step libm a
          activated := s.activated ++ activates s.threads a } := by
      cases a with
      | watch next => exact absurd ⟨next, rfl⟩ other
      | feed | quote | order | bar | strategy => rfl
    rw [step]
    constructor
    · have logged := followed.logged
      rw [← carries.due] at logged
      simpa [List.append_assoc] using logged
    · rw [carries.active, followed.active, List.getLast?_append]
      cases (activates s.threads a).getLast? <;> rfl

theorem followed_step (m : Move) (followed : Followed cfg s) : Followed cfg (s.step libm cfg m) := by
  cases m with
  | wake now => exact followed_wake followed now
  | compare => exact followed_compare followed
  | push => exact followed_push followed
  | stop => exact ⟨followed.logged, followed.active⟩
  | thread a => exact followed_thread followed a

theorem followed_run (libm : Libm) (cfg : RunnerConfig) (history : Result (List Bar)) (moves : List Move) :
    Followed cfg (run (Watched.step libm cfg) (.init libm cfg history) moves) :=
  run_invariant (fun _ m followed => followed_step m followed) moves ⟨List.Sublist.refl _, rfl⟩

end Followed

section Forward
variable {rolloverDays now later : ℤ}

/-- A later reading of the clock does not select an earlier contract. -/
theorem nearest_forward (window : 0 ≤ rolloverDays ∧ rolloverDays ≤ 14) (le : now ≤ later) :
    (nearestExpiry rolloverDays now).NotLater (nearestExpiry rolloverDays later) := by
  have days : now / nsPerDay ≤ later / nsPerDay := Int.ediv_le_ediv (by decide) le
  have first := nearest_quarterly rolloverDays now
  have second := nearest_quarterly rolloverDays later
  apply not_later_of_index first second
  by_contra earlier
  have left := (nearest_after_iff window now second).mp (not_le.mp earlier)
  exact lt_irrefl _ ((nearest_after_iff window later second).mpr (left.trans days))

def siConfig : RunnerConfig :=
  { strategy := { makeCfg with symbol := ⟨"SiZ6", "RTSX"⟩ }
    baseTicker := "Si" }

/-- A turn of the watchdog on 2026-12-02, which finds the contract of December, one on
    2026-12-13, which finds that of March, and the strategy thread up to its switch. -/
def decemberMoves : List Move :=
  [.wake 1796169600000000000, .compare, .wake 1797120000000000000, .compare, .push,
    .thread (.strategy (.ok [])), .thread (.strategy (.ok [])), .thread (.strategy (.ok [])),
    .thread (.strategy (.ok []))]

end Forward

end FinamRolloverClock
