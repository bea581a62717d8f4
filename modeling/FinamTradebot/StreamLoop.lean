import FinamTradebot.Runs
import Mathlib.Algebra.Order.Ring.Int
import Mathlib.Algebra.BigOperators.Group.List.Basic

/-!
A thread that keeps one stream open: it connects, handles the messages it reads, and after
the end of the stream waits a delay that grows with every fruitless connection before it
connects again. Other threads ask it to stop through a flag, which it reads between two
messages, before a connection and before every slice of a delay. A gated loop connects
only while a clock is outside a window, and polls the clock inside it. Each access to the
flag, the clock or the stream and each sleep is one step, so that a cancellation may fall
between any two of them. The trace of a loop, its last event first, is read by the
statements alone.
-/
namespace StreamLoop
open Runs

/-- A message that `handle` refuses ends the connection; `ended` cleans up before the loop
    goes on; `delay` is the wait after the given number of fruitless connections. -/
structure Program (M H O C D : Type) where
  start : H
  handle : H → M → Option (H × List O)
  ended : H → H
  gated : Bool
  active : C → Bool
  delay : ℕ → D → ℤ
  tick : ℤ

inductive Pc where
  | top | gate | poll | nap | dial | test | read | ended | endGate
  | waiting (delay remaining : ℤ)
  | asleep (delay remaining : ℤ)
  | done
  deriving DecidableEq, Repr

inductive Event (M C : Type) where
  | checked (clock : C)
  | napped
  | opened
  | message (m : M)
  | refused (m : M)
  | closed
  | slept (slice : ℤ)
  | waited (delay : ℤ)

/-- What the access of the next step finds. -/
structure Input (M C D : Type) where
  message : Option M
  clock : C
  draw : D

inductive Action (M C D : Type) where
  | cancel
  | thread (input : Input M C D)

structure Loop (M H O C : Type) where
  stop : Bool
  pc : Pc
  attempt : ℕ
  handler : H
  out : List O
  trace : List (Event M C)

variable {M H O C D : Type}

def Loop.goto (s : Loop M H O C) (pc : Pc) : Loop M H O C := { s with pc := pc }

def Loop.log (s : Loop M H O C) (e : Event M C) : Loop M H O C := { s with trace := e :: s.trace }

def Program.init (p : Program M H O C D) : Loop M H O C := ⟨false, .top, 0, p.start, [], []⟩

def Program.receive (p : Program M H O C D) (s : Loop M H O C) (m : M) : Loop M H O C :=
  match p.handle s.handler m with
  | none => (s.log (.refused m)).goto .ended
  | some (handler, out) =>
    { s with
      handler := handler
      out := s.out ++ out
      attempt := 0
      trace := .message m :: s.trace
      pc := .test }

def Program.beginWait (p : Program M H O C D) (s : Loop M H O C) (draw : D) : Loop M H O C :=
  s.goto (.waiting (p.delay s.attempt draw) (p.delay s.attempt draw))

def Program.thread (p : Program M H O C D) (s : Loop M H O C) (i : Input M C D) : Loop M H O C :=
  match s.pc with
  | .top => s.goto (if s.stop then .done else if p.gated then .gate else .dial)
  | .gate => (s.log (.checked i.clock)).goto (if p.active i.clock then .poll else .dial)
  | .poll => s.goto (if s.stop then .done else .nap)
  | .nap => (s.log .napped).goto .gate
  | .dial => (s.log .opened).goto .test
  | .test => s.goto (if s.stop then .ended else .read)
  | .read =>
    match i.message with
    | none => s.goto .ended
    | some m => p.receive s m
  | .ended =>
    if s.stop then s.goto (if p.gated then .done else .top)
    else
      let s := { s.log .closed with handler := p.ended s.handler }
      if p.gated then s.goto .endGate else p.beginWait s i.draw
  | .endGate =>
    if p.active i.clock then (s.log (.checked i.clock)).goto .top
    else p.beginWait (s.log (.checked i.clock)) i.draw
  | .waiting delay remaining =>
    if 0 < remaining then s.goto (if s.stop then .done else .asleep delay remaining)
    else { s.log (.waited delay) with attempt := s.attempt + 1, pc := .top }
  | .asleep delay remaining =>
    (s.log (.slept (min remaining p.tick))).goto (.waiting delay (remaining - min remaining p.tick))
  | .done => s

def Program.step (p : Program M H O C D) (s : Loop M H O C) : Action M C D → Loop M H O C
  | .cancel => { s with stop := true }
  | .thread i => p.thread s i

section Accounts
variable (p : Program M H O C D)

def Event.tally : Event M C → ℕ → ℕ
  | .message _, _ => 0
  | .waited _, n => n + 1
  | _, n => n

/-- The waits since the last message that was handled. -/
def fruitless (trace : List (Event M C)) : ℕ := trace.foldr Event.tally 0

/-- Every wait was for a delay of the fruitless connections before it. -/
def Drawn : List (Event M C) → Prop
  | [] => True
  | .waited delay :: earlier => (∃ draw, delay = p.delay (fruitless earlier) draw) ∧ Drawn earlier
  | _ :: earlier => Drawn earlier

def Program.absorb : Event M C → H × List O → H × List O
  | .message m, held =>
    match p.handle held.1 m with
    | none => held
    | some (handler, out) => (handler, held.2 ++ out)
  | .closed, held => (p.ended held.1, held.2)
  | _, held => held

/-- The handler's state and the calls it has made, from the events alone. -/
def replay (trace : List (Event M C)) : H × List O := trace.foldr p.absorb (p.start, [])

def Event.opens : Event M C → ℕ
  | .opened => 1
  | _ => 0

def Event.naps : Event M C → ℕ
  | .napped => 1
  | _ => 0

def Event.waits : Event M C → ℕ
  | .waited _ => 1
  | _ => 0

/-- The readings of the clock inside the window. -/
def Event.holds : Event M C → ℕ
  | .checked clock => (p.active clock).toNat
  | _ => 0

def Event.sleepTime : Event M C → ℤ
  | .slept slice => slice
  | _ => 0

def Event.waitTime : Event M C → ℤ
  | .waited delay => delay
  | _ => 0

def total {N : Type} [AddMonoid N] (weight : Event M C → N) (trace : List (Event M C)) : N :=
  (trace.map weight).sum

/-- Every connection follows at once a reading of the clock outside the window. -/
def OpenedOutside : List (Event M C) → Prop
  | .opened :: .checked clock :: earlier => p.active clock = false ∧ OpenedOutside earlier
  | .opened :: _ => False
  | _ :: earlier => OpenedOutside earlier
  | [] => True

end Accounts

/-- What one step of the thread can do: from where, with which events, to where. -/
inductive Move (p : Program M H O C D) (stop : Bool) (attempt : ℕ) :
    Pc → List (Event M C) → Pc → Prop
  | leave : stop = true → Move p stop attempt .top [] .done
  | approach : stop = false → p.gated = true → Move p stop attempt .top [] .gate
  | proceed : stop = false → p.gated = false → Move p stop attempt .top [] .dial
  | shut (clock : C) : p.active clock = true → Move p stop attempt .gate [.checked clock] .poll
  | enter (clock : C) : p.active clock = false → Move p stop attempt .gate [.checked clock] .dial
  | giveUp : stop = true → Move p stop attempt .poll [] .done
  | remain : stop = false → Move p stop attempt .poll [] .nap
  | nap : Move p stop attempt .nap [.napped] .gate
  | connect : Move p stop attempt .dial [.opened] .test
  | halt : stop = true → Move p stop attempt .test [] .ended
  | block : stop = false → Move p stop attempt .test [] .read
  | lost : Move p stop attempt .read [] .ended
  | refuse (m : M) : Move p stop attempt .read [.refused m] .ended
  | receive (m : M) : Move p stop attempt .read [.message m] .test
  | finish : stop = true → p.gated = true → Move p stop attempt .ended [] .done
  | turn : stop = true → p.gated = false → Move p stop attempt .ended [] .top
  | inspect : stop = false → p.gated = true → Move p stop attempt .ended [.closed] .endGate
  | rest (draw : D) : stop = false → p.gated = false → Move p stop attempt .ended [.closed]
      (.waiting (p.delay attempt draw) (p.delay attempt draw))
  | hold (clock : C) : p.active clock = true → Move p stop attempt .endGate [.checked clock] .top
  | resume (clock : C) (draw : D) : p.active clock = false →
    Move p stop attempt .endGate [.checked clock]
      (.waiting (p.delay attempt draw) (p.delay attempt draw))
  | wake (delay remaining : ℤ) : stop = true → 0 < remaining →
    Move p stop attempt (.waiting delay remaining) [] .done
  | drowse (delay remaining : ℤ) : stop = false → 0 < remaining →
    Move p stop attempt (.waiting delay remaining) [] (.asleep delay remaining)
  | slice (delay remaining : ℤ) :
    Move p stop attempt (.asleep delay remaining) [.slept (min remaining p.tick)]
      (.waiting delay (remaining - min remaining p.tick))
  | waited (delay remaining : ℤ) : remaining ≤ 0 →
    Move p stop attempt (.waiting delay remaining) [.waited delay] .top
  | idle : Move p stop attempt .done [] .done

structure Taken (p : Program M H O C D) (s : Loop M H O C) (events : List (Event M C))
    (next : Loop M H O C) : Prop where
  stop : next.stop = s.stop
  trace : next.trace = events ++ s.trace
  attempt : next.attempt = events.foldr Event.tally s.attempt
  held : (next.handler, next.out) = events.foldr p.absorb (s.handler, s.out)
  move : Move p s.stop s.attempt s.pc events next.pc

section Moves
variable (p : Program M H O C D) (s : Loop M H O C) (i : Input M C D)

theorem receive_taken (m : M) (reading : s.pc = .read) :
    ∃ events, Taken p s events (p.receive s m) := by
  unfold Program.receive
  cases handled : p.handle s.handler m with
  | none => exact ⟨[.refused m], rfl, rfl, rfl, rfl, reading ▸ .refuse m⟩
  | some result =>
    have held : p.absorb (.message m : Event M C) (s.handler, s.out) = (result.1, s.out ++ result.2) := by
      simp [Program.absorb, handled]
    exact ⟨[.message m], rfl, rfl, rfl, held.symm, reading ▸ .receive m⟩

theorem thread_taken : ∃ events, Taken p s events (p.thread s i) := by
  unfold Program.thread
  split
  all_goals rename_i here
  · cases flag : s.stop
    · cases gated : p.gated
      · exact ⟨[], rfl, rfl, rfl, rfl, here ▸ .proceed flag gated⟩
      · exact ⟨[], rfl, rfl, rfl, rfl, here ▸ .approach flag gated⟩
    · exact ⟨[], rfl, rfl, rfl, rfl, here ▸ .leave flag⟩
  · cases shut : p.active i.clock
    · exact ⟨[.checked i.clock], rfl, rfl, rfl, rfl, here ▸ .enter _ shut⟩
    · exact ⟨[.checked i.clock], rfl, rfl, rfl, rfl, here ▸ .shut _ shut⟩
  · cases flag : s.stop
    · exact ⟨[], rfl, rfl, rfl, rfl, here ▸ .remain flag⟩
    · exact ⟨[], rfl, rfl, rfl, rfl, here ▸ .giveUp flag⟩
  · exact ⟨[.napped], rfl, rfl, rfl, rfl, here ▸ .nap⟩
  · exact ⟨[.opened], rfl, rfl, rfl, rfl, here ▸ .connect⟩
  · cases flag : s.stop
    · exact ⟨[], rfl, rfl, rfl, rfl, here ▸ .block flag⟩
    · exact ⟨[], rfl, rfl, rfl, rfl, here ▸ .halt flag⟩
  · split
    · exact ⟨[], rfl, rfl, rfl, rfl, here ▸ .lost⟩
    · exact receive_taken p s _ here
  · split_ifs with flag gated gated
    · exact ⟨[], rfl, rfl, rfl, rfl, here ▸ .finish flag gated⟩
    · exact ⟨[], rfl, rfl, rfl, rfl, here ▸ .turn flag (by simpa using gated)⟩
    · exact ⟨[.closed], rfl, rfl, rfl, rfl, here ▸ .inspect (by simpa using flag) gated⟩
    · exact ⟨[.closed], rfl, rfl, rfl, rfl,
        here ▸ .rest i.draw (by simpa using flag) (by simpa using gated)⟩
  · split_ifs with shut
    · exact ⟨[.checked i.clock], rfl, rfl, rfl, rfl, here ▸ .hold _ shut⟩
    · exact ⟨[.checked i.clock], rfl, rfl, rfl, rfl, here ▸ .resume _ i.draw (by simpa using shut)⟩
  · split_ifs with owed flag
    · exact ⟨[], rfl, rfl, rfl, rfl, here ▸ .wake _ _ flag owed⟩
    · exact ⟨[], rfl, rfl, rfl, rfl, here ▸ .drowse _ _ (by simpa using flag) owed⟩
    · exact ⟨[.waited _], rfl, rfl, rfl, rfl, here ▸ .waited _ _ (not_lt.mp owed)⟩
  · exact ⟨[.slept _], rfl, rfl, rfl, rfl, here ▸ .slice _ _⟩
  · exact ⟨[], rfl, rfl, rfl, rfl, here ▸ .idle⟩

end Moves

section Reached
variable {p : Program M H O C D}

/-- The invariant rule of a loop: a property that a cancellation and every step of the
    thread keep holds after every interleaving of them. -/
theorem reached_invariant {I : Loop M H O C → Prop} (start : I p.init)
    (cancel : ∀ s, I s → I { s with stop := true })
    (keep : ∀ s events next, I s → Taken p s events next → I next) (acts : List (Action M C D)) :
    I (run p.step p.init acts) := by
  have every : ∀ s a, I s → I (p.step s a) := by
    intro s a inv
    cases a with
    | cancel => exact cancel s inv
    | thread i =>
      obtain ⟨events, taken⟩ := thread_taken p s i
      exact keep s events _ inv taken
  exact run_invariant every acts start

theorem attempt_eq_fruitless (acts : List (Action M C D)) :
    (run p.step p.init acts).attempt = fruitless (run p.step p.init acts).trace := by
  refine reached_invariant (I := fun s => s.attempt = fruitless s.trace) rfl ?_ ?_ acts
  · exact fun s same => same
  · intro s events next same taken
    rw [taken.attempt, taken.trace, fruitless, List.foldr_append, same, fruitless]

/-- The handler has seen the messages of the trace, and nothing else. -/
theorem held_eq_replay (acts : List (Action M C D)) :
    ((run p.step p.init acts).handler, (run p.step p.init acts).out) =
      replay p (run p.step p.init acts).trace := by
  refine reached_invariant (I := fun s => (s.handler, s.out) = replay p s.trace) rfl ?_ ?_ acts
  · exact fun s same => same
  · intro s events next same taken
    rw [taken.held, taken.trace, replay, List.foldr_append, same, replay]

/-- The delay a loop is waiting for was drawn for the attempts it counts. -/
def Pc.Drawn (p : Program M H O C D) (attempt : ℕ) : Pc → Prop
  | .waiting delay _ | .asleep delay _ => ∃ draw, delay = p.delay attempt draw
  | _ => True

theorem move_drawn {stop : Bool} {pc pc' : Pc} {events earlier : List (Event M C)}
    (move : Move p stop (fruitless earlier) pc events pc') (drawn : Drawn p earlier)
    (pending : pc.Drawn p (fruitless earlier)) :
    Drawn p (events ++ earlier) ∧ pc'.Drawn p (fruitless (events ++ earlier)) := by
  cases move with
  | rest draw => exact ⟨drawn, draw, rfl⟩
  | resume clock draw => exact ⟨drawn, draw, rfl⟩
  | drowse => exact ⟨drawn, pending⟩
  | slice => exact ⟨drawn, pending⟩
  | waited => exact ⟨⟨pending, drawn⟩, trivial⟩
  | _ => exact ⟨drawn, trivial⟩

theorem waits_drawn (acts : List (Action M C D)) : Drawn p (run p.step p.init acts).trace := by
  have inv := reached_invariant (p := p) (I := fun s => s.attempt = fruitless s.trace ∧
    Drawn p s.trace ∧ s.pc.Drawn p (fruitless s.trace)) ⟨rfl, trivial, trivial⟩ ?_ ?_ acts
  · exact inv.2.1
  · exact fun s inv => inv
  · rintro s events next ⟨counted, drawn, pending⟩ taken
    refine ⟨?_, ?_⟩
    · rw [taken.attempt, taken.trace, fruitless, List.foldr_append, counted, fruitless]
    · rw [taken.trace]
      exact move_drawn (counted ▸ taken.move) drawn pending

/-- The connections a loop may have opened beyond its pauses. -/
def Pc.credit (stop : Bool) : Pc → ℕ
  | .top => stop.toNat
  | .gate | .poll | .nap | .dial => 0
  | _ => 1

theorem credit_le_one (stop : Bool) (pc : Pc) : pc.credit stop ≤ 1 := by
  cases pc <;> cases stop <;> simp [Pc.credit]

theorem credit_cancel (stop : Bool) (pc : Pc) : pc.credit stop ≤ pc.credit true := by
  cases pc <;> cases stop <;> simp [Pc.credit]

theorem move_credit {stop : Bool} {attempt : ℕ} {pc pc' : Pc} {events : List (Event M C)}
    (move : Move p stop attempt pc events pc') :
    total Event.opens events + pc.credit stop ≤
      total Event.waits events + total (Event.holds p) events + pc'.credit stop := by
  cases move <;> simp_all [total, Pc.credit, Event.opens, Event.waits, Event.holds]

theorem total_append {N : Type} [AddMonoid N] (weight : Event M C → N)
    (later earlier : List (Event M C)) :
    total weight (later ++ earlier) = total weight later + total weight earlier := by
  simp [total]

/-- Between two connections the loop has finished a wait or has read the clock inside the
    window. -/
theorem pause_before_reconnect (acts : List (Action M C D)) :
    total Event.opens (run p.step p.init acts).trace ≤
      total Event.waits (run p.step p.init acts).trace +
        total (Event.holds p) (run p.step p.init acts).trace + 1 := by
  have credited := reached_invariant (p := p) (I := fun s => total Event.opens s.trace ≤
    total Event.waits s.trace + total (Event.holds p) s.trace + s.pc.credit s.stop)
    (Nat.zero_le _) ?_ ?_ acts
  · have bound := credit_le_one (run p.step p.init acts).stop (run p.step p.init acts).pc
    omega
  · intro s inv
    have bound := credit_cancel s.stop s.pc
    exact inv.trans (Nat.add_le_add_left bound _)
  · intro s events next inv taken
    have bound := move_credit taken.move
    simp only [taken.trace, taken.stop, total_append]
    omega

/-- The time slept is the delays waited for and what is over of the present one. -/
def Pc.Timed (slept waited : ℤ) : Pc → Prop
  | .waiting delay remaining => slept = waited + (delay - remaining) ∧ 0 ≤ remaining ∧ remaining ≤ delay
  | .asleep delay remaining => slept = waited + (delay - remaining) ∧ 0 < remaining ∧ remaining ≤ delay
  | .done => waited ≤ slept
  | _ => slept = waited

theorem timed_le {pc : Pc} {slept waited : ℤ} (timed : pc.Timed slept waited) : waited ≤ slept := by
  cases pc with
  | waiting => obtain ⟨same, -, within⟩ := timed; omega
  | asleep => obtain ⟨same, -, within⟩ := timed; omega
  | done => exact timed
  | _ => exact le_of_eq (Eq.symm timed)

theorem move_timed {stop : Bool} {attempt : ℕ} {pc pc' : Pc} {events : List (Event M C)}
    (delays : ∀ n draw, 0 ≤ p.delay n draw) (tick : 0 ≤ p.tick)
    (move : Move p stop attempt pc events pc') {slept waited : ℤ} (timed : pc.Timed slept waited) :
    pc'.Timed (total Event.sleepTime events + slept) (total Event.waitTime events + waited) := by
  cases move with
  | rest draw => simpa [total, Pc.Timed, Event.sleepTime, Event.waitTime, delays] using timed
  | resume clock draw => simpa [total, Pc.Timed, Event.sleepTime, Event.waitTime, delays] using timed
  | wake | drowse | slice | waited =>
    simp only [total, Pc.Timed, Event.sleepTime, Event.waitTime, List.map_cons, List.map_nil,
      List.sum_cons, List.sum_nil] at timed ⊢
    omega
  | leave | giveUp | finish | idle =>
    simpa [total, Pc.Timed] using timed_le timed
  | _ => simpa [total, Pc.Timed, Event.sleepTime, Event.waitTime] using timed

theorem timed (delays : ∀ n draw, 0 ≤ p.delay n draw) (tick : 0 ≤ p.tick)
    (acts : List (Action M C D)) :
    (run p.step p.init acts).pc.Timed (total Event.sleepTime (run p.step p.init acts).trace)
      (total Event.waitTime (run p.step p.init acts).trace) := by
  refine reached_invariant (I := fun s => s.pc.Timed (total Event.sleepTime s.trace)
    (total Event.waitTime s.trace)) rfl ?_ ?_ acts
  · exact fun s inv => inv
  · intro s events next inv taken
    rw [taken.trace, total_append, total_append]
    exact move_timed delays tick taken.move inv

theorem waits_le_time {low : ℤ} (bounded : ∀ n draw, low ≤ p.delay n draw)
    {trace : List (Event M C)} (drawn : Drawn p trace) :
    low * total Event.waits trace ≤ total Event.waitTime trace := by
  induction trace with
  | nil => simp [total]
  | cons e earlier ih =>
    have split : ∀ {N : Type} [AddMonoid N] (weight : Event M C → N),
        total weight (e :: earlier) = weight e + total weight earlier := by
      intro N _ weight
      simp [total]
    rw [split, split]
    cases e with
    | waited delay =>
      obtain ⟨⟨draw, rfl⟩, before⟩ := drawn
      have here := bounded (fruitless earlier) draw
      have later := ih before
      simp only [Event.waits, Event.waitTime, Nat.cast_add, Nat.cast_one, mul_add, mul_one]
      exact add_le_add here later
    | _ => simpa [Event.waits, Event.waitTime] using ih drawn

/-- No reconnect storm: each further connection costs the shortest delay, unless the clock
    was read inside the window before it. -/
theorem reconnects_paced {low : ℤ} (nonneg : 0 ≤ low) (bounded : ∀ n draw, low ≤ p.delay n draw)
    (tick : 0 ≤ p.tick) (acts : List (Action M C D)) :
    low * (total Event.opens (run p.step p.init acts).trace : ℕ) ≤
      total Event.sleepTime (run p.step p.init acts).trace +
        low * (total (Event.holds p) (run p.step p.init acts).trace + 1 : ℕ) := by
  have paused := pause_before_reconnect (p := p) acts
  have drawn := waits_le_time bounded (waits_drawn (p := p) acts)
  have slept := timed_le (timed (p := p) (fun n draw => nonneg.trans (bounded n draw)) tick acts)
  calc low * (total Event.opens (run p.step p.init acts).trace : ℕ)
      ≤ low * (total Event.waits (run p.step p.init acts).trace +
          (total (Event.holds p) (run p.step p.init acts).trace + 1) : ℕ) :=
        mul_le_mul_of_nonneg_left (by exact_mod_cast paused) nonneg
    _ = low * (total Event.waits (run p.step p.init acts).trace : ℕ) +
          low * (total (Event.holds p) (run p.step p.init acts).trace + 1 : ℕ) := by
        rw [Nat.cast_add, mul_add]
    _ ≤ _ := add_le_add_left (drawn.trans slept) _

/-- A gated loop about to connect has just read the clock outside the window. -/
def Pc.Cleared (p : Program M H O C D) (trace : List (Event M C)) : Pc → Prop
  | .dial => ∃ clock earlier, trace = .checked clock :: earlier ∧ p.active clock = false
  | _ => True

theorem move_outside (gated : p.gated = true) {stop : Bool} {attempt : ℕ} {pc pc' : Pc}
    {events earlier : List (Event M C)} (move : Move p stop attempt pc events pc')
    (outside : OpenedOutside p earlier) (cleared : pc.Cleared p earlier) :
    OpenedOutside p (events ++ earlier) ∧ pc'.Cleared p (events ++ earlier) := by
  cases move with
  | enter clock clear => exact ⟨outside, clock, earlier, rfl, clear⟩
  | proceed flag free =>
    rw [gated] at free
    cases free
  | connect =>
    obtain ⟨clock, before, rfl, clear⟩ := cleared
    exact ⟨⟨clear, outside⟩, trivial⟩
  | _ => exact ⟨outside, trivial⟩

theorem opened_outside (gated : p.gated = true) (acts : List (Action M C D)) :
    OpenedOutside p (run p.step p.init acts).trace := by
  have inv := reached_invariant (p := p) (I := fun s => OpenedOutside p s.trace ∧
    s.pc.Cleared p s.trace) ⟨trivial, trivial⟩ ?_ ?_ acts
  · exact inv.1
  · exact fun s inv => inv
  · rintro s events next ⟨outside, cleared⟩ taken
    rw [taken.trace]
    exact move_outside gated taken.move outside cleared

section Holds
variable {R : C → C → Prop} {rank : C → ℕ} {bound : ℕ}

def afterNap : List (Event M C) → Bool
  | .napped :: _ => true
  | _ => false

def lastReading : List (Event M C) → Option C
  | [] => none
  | .checked clock :: _ => some clock
  | _ :: earlier => lastReading earlier

/-- The two readings around a nap are related by `R`. -/
def Paced (R : C → C → Prop) : List (Event M C) → Prop
  | [] => True
  | .checked later :: earlier =>
    (afterNap earlier = true → ∀ first ∈ lastReading earlier, R first later) ∧ Paced R earlier
  | _ :: earlier => Paced R earlier

/-- The naps of the hold that the trace ends with. -/
def napsInRow : List (Event M C) → ℕ
  | .napped :: earlier => napsInRow earlier + 1
  | .checked _ :: earlier => if afterNap earlier then napsInRow earlier else 0
  | _ => 0

/-- What the trace says at the places around a nap. -/
structure Held (p : Program M H O C D) (rank : C → ℕ) (pc : Pc) (trace : List (Event M C)) : Prop where
  inside : pc = .poll ∨ pc = .nap → ∃ clock, lastReading trace = some clock ∧
    p.active clock = true ∧ napsInRow trace ≤ rank clock
  woken : pc = .gate → afterNap trace = true → ∃ clock, lastReading trace = some clock ∧
    p.active clock = true ∧ napsInRow trace ≤ rank clock + 1
  fresh : pc = .top → afterNap trace = false

theorem checked_naps_le (clock : C) (earlier : List (Event M C)) :
    napsInRow (.checked clock :: earlier) ≤ napsInRow earlier := by
  rw [napsInRow]
  split_ifs
  · exact le_rfl
  · exact Nat.zero_le _

theorem paced_earlier (events : List (Event M C)) {earlier : List (Event M C)}
    (paced : Paced R (events ++ earlier)) : Paced R earlier := by
  induction events with
  | nil => exact paced
  | cons e events ih =>
    cases e with
    | checked clock => exact ih paced.2
    | _ => exact ih paced

theorem held_elsewhere {pc : Pc} (poll : pc ≠ .poll) (nap : pc ≠ .nap) (gate : pc ≠ .gate)
    (top : pc ≠ .top) (trace : List (Event M C)) : Held p rank pc trace :=
  ⟨fun either => by cases either <;> contradiction, fun same => absurd same gate,
    fun same => absurd same top⟩

theorem move_held (gated : p.gated = true) (bounded : ∀ c, p.active c = true → rank c < bound)
    (progress : ∀ first later, R first later → p.active first = true → p.active later = true →
      rank first < rank later)
    {stop : Bool} {attempt : ℕ} {pc pc' : Pc} {events earlier : List (Event M C)}
    (move : Move p stop attempt pc events pc') (paced : Paced R (events ++ earlier))
    (held : Held p rank pc earlier) (few : napsInRow earlier ≤ bound) :
    Held p rank pc' (events ++ earlier) ∧ napsInRow (events ++ earlier) ≤ bound := by
  cases move with
  | approach =>
    refine ⟨⟨by simp, ?_, by simp⟩, few⟩
    intro _ napped
    rw [List.nil_append, held.fresh rfl] at napped
    cases napped
  | shut clock active =>
    have row : napsInRow (.checked clock :: earlier) ≤ rank clock := by
      rw [napsInRow]
      split_ifs with napped
      · obtain ⟨first, read, inside, naps⟩ := held.woken rfl napped
        have more := progress first clock (paced.1 napped first read) inside active
        omega
      · exact Nat.zero_le _
    refine ⟨⟨fun _ => ⟨clock, rfl, active, row⟩, by simp, by simp⟩, ?_⟩
    exact row.trans (bounded clock active).le
  | enter clock clear =>
    exact ⟨held_elsewhere (by simp) (by simp) (by simp) (by simp) _, (checked_naps_le clock earlier).trans few⟩
  | remain => exact ⟨⟨fun _ => held.inside (Or.inl rfl), by simp, by simp⟩, few⟩
  | nap =>
    obtain ⟨clock, read, active, naps⟩ := held.inside (Or.inr rfl)
    have more := bounded clock active
    refine ⟨⟨by simp, fun _ _ => ⟨clock, read, active, ?_⟩, by simp⟩, ?_⟩
    · exact Nat.succ_le_succ naps
    · exact (Nat.succ_le_succ naps).trans more
  | turn _ free =>
    rw [gated] at free
    cases free
  | hold clock active =>
    exact ⟨⟨by simp, by simp, fun _ => rfl⟩, (checked_naps_le clock earlier).trans few⟩
  | waited => exact ⟨⟨by simp, by simp, fun _ => rfl⟩, Nat.zero_le _⟩
  | resume clock draw clear =>
    exact ⟨held_elsewhere (by simp) (by simp) (by simp) (by simp) _, (checked_naps_le clock earlier).trans few⟩
  | idle => exact ⟨held, few⟩
  | leave | proceed | giveUp | halt | block | lost | finish | wake | drowse =>
    exact ⟨held_elsewhere (by simp) (by simp) (by simp) (by simp) _, few⟩
  | connect | refuse | receive | inspect | rest | slice =>
    exact ⟨held_elsewhere (by simp) (by simp) (by simp) (by simp) _, Nat.zero_le _⟩

/-- A hold is left after a bounded number of naps, if every nap takes the clock on inside
    the window and the window has room for only so many of them. -/
theorem naps_bounded (gated : p.gated = true) (bounded : ∀ c, p.active c = true → rank c < bound)
    (progress : ∀ first later, R first later → p.active first = true → p.active later = true →
      rank first < rank later)
    (acts : List (Action M C D)) (paced : Paced R (run p.step p.init acts).trace) :
    napsInRow (run p.step p.init acts).trace ≤ bound := by
  have start : Held p rank p.init.pc p.init.trace ∧ napsInRow p.init.trace ≤ bound :=
    ⟨⟨by simp [Program.init], by simp [Program.init], fun _ => rfl⟩, Nat.zero_le _⟩
  have inv := reached_invariant (p := p)
    (I := fun s => Paced R s.trace → Held p rank s.pc s.trace ∧ napsInRow s.trace ≤ bound)
    (fun _ => start) (fun _ inv => inv) ?_ acts
  · exact (inv paced).2
  · intro s events next inv taken paced
    rw [taken.trace] at paced ⊢
    obtain ⟨held, few⟩ := inv (paced_earlier events paced)
    exact move_held gated bounded progress taken.move paced held few

end Holds

/-- The places of a loop that is not gated. -/
def Pc.Free : Pc → Prop
  | .gate | .poll | .nap | .endGate => False
  | _ => True

theorem move_free (free : p.gated = false) {stop : Bool} {attempt : ℕ} {pc pc' : Pc}
    {events : List (Event M C)} (move : Move p stop attempt pc events pc') (outside : pc.Free) :
    pc'.Free ∧ total (Event.holds p) events = 0 ∧ total Event.naps events = 0 := by
  cases move <;> simp_all [Pc.Free, total, Event.holds, Event.naps]

theorem free_reached (free : p.gated = false) (acts : List (Action M C D)) :
    (run p.step p.init acts).pc.Free ∧ total (Event.holds p) (run p.step p.init acts).trace = 0 := by
  refine reached_invariant (I := fun s => s.pc.Free ∧ total (Event.holds p) s.trace = 0)
    ⟨trivial, rfl⟩ ?_ ?_ acts
  · exact fun s inv => inv
  · rintro s events next ⟨outside, zero⟩ taken
    obtain ⟨still, none, -⟩ := move_free free taken.move outside
    refine ⟨still, ?_⟩
    rw [taken.trace, total_append, zero, none]

end Reached

section Stopped
variable {p : Program M H O C D}

/-- The steps of the thread that a loop with its flag set has left. -/
def Pc.rank : Pc → ℕ
  | .nap => 6
  | .gate => 5
  | .dial | .read => 4
  | .test | .endGate | .asleep _ _ => 3
  | .ended | .waiting _ _ => 2
  | .top | .poll => 1
  | .done => 0

/-- A connection, a message or a slice of a delay. -/
def Event.work : Event M C → ℕ
  | .opened | .message _ | .slept _ => 1
  | _ => 0

def Pc.work : Pc → ℕ
  | .nap | .gate | .dial | .read | .asleep _ _ => 1
  | _ => 0

def Pc.naps : Pc → ℕ
  | .nap => 1
  | _ => 0

theorem stopped_move {attempt : ℕ} {pc pc' : Pc} {events : List (Event M C)}
    (move : Move p true attempt pc events pc') :
    pc'.rank ≤ pc.rank - 1 ∧ total Event.work events + pc'.work ≤ pc.work ∧
      total Event.naps events + pc'.naps ≤ pc.naps := by
  cases move <;> simp_all [total, Pc.rank, Pc.work, Pc.naps, Event.work, Event.naps]

def Action.isThread : Action M C D → Bool
  | .thread _ => true
  | .cancel => false

/-- What is left to do once the flag is set. -/
structure Winding (s next : Loop M H O C) (steps : ℕ) : Prop where
  rank : next.pc.rank ≤ s.pc.rank - steps
  work : total Event.work next.trace + next.pc.work ≤ total Event.work s.trace + s.pc.work
  naps : total Event.naps next.trace + next.pc.naps ≤ total Event.naps s.trace + s.pc.naps

theorem stopped_run {s : Loop M H O C} (stopped : s.stop = true) (acts : List (Action M C D)) :
    Winding s (run p.step s acts) (acts.countP Action.isThread) := by
  induction acts generalizing s with
  | nil => exact ⟨le_rfl, le_rfl, le_rfl⟩
  | cons a rest ih =>
    cases a with
    | cancel =>
      have same : p.step s .cancel = s := by
        cases s
        simp_all [Program.step]
      simp only [run, same, List.countP_cons, Action.isThread]
      exact ih stopped
    | thread i =>
      obtain ⟨events, taken⟩ := thread_taken p s i
      have later := ih (s := p.thread s i) (taken.stop.trans stopped)
      obtain ⟨rank, work, naps⟩ := stopped_move (stopped ▸ taken.move)
      have workNow := later.work
      have napsNow := later.naps
      have rankNow := later.rank
      rw [taken.trace, total_append] at workNow napsNow
      refine ⟨?_, ?_, ?_⟩
      · simp only [run, Program.step, List.countP_cons, Action.isThread, if_true]
        omega
      · simp only [run, Program.step]
        omega
      · simp only [run, Program.step]
        omega

theorem cancelled_run (s : Loop M H O C) (acts : List (Action M C D)) :
    Winding s (run p.step s (.cancel :: acts)) (acts.countP Action.isThread) := by
  obtain ⟨rank, work, naps⟩ := stopped_run (p := p) (s := p.step s .cancel) rfl acts
  exact ⟨rank, work, naps⟩

theorem rank_le_six (pc : Pc) : pc.rank ≤ 6 := by
  cases pc <;> simp [Pc.rank]

theorem rank_le_four {pc : Pc} (free : pc.Free) : pc.rank ≤ 4 := by
  cases pc <;> simp_all [Pc.rank, Pc.Free]

theorem work_le_one (pc : Pc) : pc.work ≤ 1 := by
  cases pc <;> simp [Pc.work]

theorem naps_le_one (pc : Pc) : pc.naps ≤ 1 := by
  cases pc <;> simp [Pc.naps]

theorem naps_eq_zero {pc : Pc} (free : pc.Free) : pc.naps = 0 := by
  cases pc <;> simp_all [Pc.naps, Pc.Free]

theorem done_of_rank {pc : Pc} (zero : pc.rank = 0) : pc = .done := by
  cases pc <;> simp_all [Pc.rank]

end Stopped

end StreamLoop
