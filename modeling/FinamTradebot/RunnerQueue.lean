import FinamTradebot.SpscQueue
import FinamTradebot.StrategyRunner

/-!
The queue of a runner. Six callers push into it, each in its own thread or callback,
while the strategy thread pops. Nothing orders their pushes.
-/
namespace FinamRunnerQueue
open FinamInterfaces FinamSpsc Runs
open FinamRunner hiding Action

section Drain
variable {ι α : Type} [DecidableEq ι] {k : ℕ}

def Consumes : Action ι α → Bool
  | .pop | .consume _ => true
  | .push _ _ | .produce _ => false

/-- The consumer alone can bring the queue from `s` to where one more item is popped. -/
def PopsNext (k : ℕ) (s : SpscQueue ι α) : Prop :=
  ∃ acts, (∀ a ∈ acts, Consumes a = true) ∧ Windowed k (run (SpscQueue.step k) s acts) ∧
    (run (SpscQueue.step k) s acts).accepted = s.accepted ∧
    (run (SpscQueue.step k) s acts).popped.length = s.popped.length + 1

theorem pops_next_of_step {s : SpscQueue ι α} {a : Action ι α} (consumes : Consumes a = true)
    (accepted : (s.step k a).accepted = s.accepted) (popped : (s.step k a).popped = s.popped)
    (later : PopsNext k (s.step k a)) : PopsNext k s := by
  obtain ⟨acts, consumer, window, same, longer⟩ := later
  refine ⟨a :: acts, ?_, window, same.trans accepted, ?_⟩
  · intro b member
    rcases List.mem_cons.mp member with rfl | inside
    · exact consumes
    · exact consumer b inside
  · rw [popped] at longer
    exact longer

theorem pops_next_releasing (fits : k ≤ 64) {s : SpscQueue ι α} (window : Windowed k s) {item : α}
    {tail : ℕ} (here : s.consumer = .releasing item tail) : PopsNext k s := by
  refine ⟨[.consume item], by simp [Consumes],
    windowed_step (a := .consume item) fits window trivial, ?_, ?_⟩
  · simp [run, SpscQueue.step, here]
  · simp [run, SpscQueue.step, here]

theorem pops_next_reading (fits : k ≤ 64) {s : SpscQueue ι α} (window : Windowed k s) {tail : ℕ}
    (here : s.consumer = .reading tail) : PopsNext k s := by
  have moves : s.step k (.consume (s.buffer tail)) =
      { s with
        consumer := .releasing (s.buffer tail) tail
        buffer := Function.update s.buffer tail (s.buffer tail) } := by
    simp only [SpscQueue.step, here]
  have next := windowed_step (a := .consume (s.buffer tail)) fits window trivial
  apply pops_next_of_step rfl (by rw [moves]) (by rw [moves])
  exact pops_next_releasing fits next (by rw [moves])

theorem pops_next_loaded (fits : k ≤ 64) {s : SpscQueue ι α} (window : Windowed k s)
    (nonempty : s.popped.length < s.accepted.length) {tail : ℕ} (here : s.consumer = .loaded tail) :
    PopsNext k s := by
  have sound := window.consumer
  rw [here] at sound
  obtain rfl : tail = s.tail := sound
  have apart : s.tail ≠ s.head := by
    intro same
    have drained := (empty_iff window).mp same
    omega
  have moves : s.step k (.consume (s.buffer 0)) = { s with consumer := .reading s.tail } := by
    simp only [SpscQueue.step, here, apart, ↓reduceIte]
  have next := windowed_step (a := .consume (s.buffer 0)) fits window trivial
  apply pops_next_of_step rfl (by rw [moves]) (by rw [moves])
  exact pops_next_reading fits next (by rw [moves])

theorem pops_next (fits : k ≤ 64) {s : SpscQueue ι α} (window : Windowed k s)
    (nonempty : s.popped.length < s.accepted.length) : PopsNext k s := by
  cases here : s.consumer with
  | releasing item tail => exact pops_next_releasing fits window here
  | reading tail => exact pops_next_reading fits window here
  | loaded tail => exact pops_next_loaded fits window nonempty here
  | idle =>
    have moves : s.step k .pop = { s with consumer := .loaded s.tail } := by
      simp only [SpscQueue.step, here]
    have next := windowed_step (a := .pop) fits window trivial
    apply pops_next_of_step rfl (by rw [moves]) (by rw [moves])
    refine pops_next_loaded fits next ?_ (by rw [moves])
    rw [moves]
    exact nonempty

/-- Left to itself, the consumer pops every accepted item that is still in the queue. -/
theorem consumer_drains (fits : k ≤ 64) {s : SpscQueue ι α} (window : Windowed k s) :
    ∃ acts, (∀ a ∈ acts, Consumes a = true) ∧
      (run (SpscQueue.step k) s acts).popped = s.accepted := by
  induction rest : s.accepted.length - s.popped.length generalizing s with
  | zero =>
    have below := window.below
    refine ⟨[], by simp, window.taken.eq_of_length ?_⟩
    omega
  | succ n ih =>
    obtain ⟨first, consumer, next, same, longer⟩ := pops_next fits window (by omega)
    obtain ⟨later, consumer', drained⟩ := ih next (by rw [same, longer]; omega)
    refine ⟨first ++ later, ?_, ?_⟩
    · intro a member
      rcases List.mem_append.mp member with inFirst | inLater
      · exact consumer a inFirst
      · exact consumer' a inLater
    · rw [run_append, drained, same]

end Drain

section Runner

/-- The callers of `push` on the queue of a runner: the three market data streams, the
    order stream, the strategy thread in the callback of its own `submit`, and the
    rollover watchdog. -/
inductive Producer where
  | book | trade | quote | orderStream | strategy | rollover
  deriving DecidableEq

instance : Fintype Producer where
  elems := {.book, .trade, .quote, .orderStream, .strategy, .rollover}
  complete := by
    intro i
    cases i <;> decide

abbrev RunnerQueue := SpscQueue Producer MdEvent

/-- `kQueueSize` is `2 ^ queueBits`. -/
def queueBits : ℕ := 10

theorem queue_size_eq : kQueueSize = 2 ^ queueBits := rfl

def queueStep (s : RunnerQueue) (a : Action Producer MdEvent) : RunnerQueue :=
  SpscQueue.step queueBits s a

/-- What was popped so far are the accepted events in their order, each once and unchanged,
    and the consumer gets the rest of them. -/
def Delivers (s : RunnerQueue) : Prop :=
  s.popped <+: s.accepted ∧
    ∃ acts, (∀ a ∈ acts, Consumes a = true) ∧
      (run queueStep s acts).popped = s.accepted

def DeliveredBy (s : RunnerQueue) : PopPc MdEvent → Prop
  | .loaded tail => tail = s.head → s.popped = s.accepted
  | .idle | .reading _ | .releasing _ _ => True

/-- A pop finds the queue empty only when every accepted event has been popped. -/
def EmptyWhenDelivered (s : RunnerQueue) : Action Producer MdEvent → Prop
  | .consume _ => DeliveredBy s s.consumer
  | .push _ _ | .produce _ | .pop => True

/-- In every interleaving in which each push that passes its check is the only one under
    way and has loaded the present `head_`, no accepted event is lost. -/
theorem events_delivered_of_exclusive_pushes (buffer : ℕ → MdEvent)
    (acts : List (Action Producer MdEvent))
    (exclusive : Along queueStep (Exclusive queueBits) (.start buffer) acts) :
    Along queueStep EmptyWhenDelivered (.start buffer) acts ∧
      Visits queueStep Delivers (.start buffer) acts := by
  have fits : queueBits ≤ 64 := by decide
  refine good_run_of_along (I := Windowed queueBits) ?_
    (fun s a window _ exclusive => windowed_step fits window exclusive)
    (windowed_start queueBits buffer) ?_ exclusive
  · intro s a window _ exclusive
    have next : Windowed queueBits (queueStep s a) := windowed_step fits window exclusive
    refine ⟨?_, next.taken, consumer_drains fits next⟩
    cases a with
    | consume moved =>
      change DeliveredBy s s.consumer
      cases here : s.consumer with
      | loaded tail =>
        intro empty
        exact window.taken.eq_of_length (pop_refused_empty window here empty)
      | idle | reading | releasing => trivial
    | push | produce | pop => trivial
  · have start : Windowed queueBits (.start buffer : RunnerQueue) := windowed_start queueBits buffer
    exact ⟨start.taken, consumer_drains fits start⟩

def bookEvent : MdEvent := flowBook 0

def tradeEvent : MdEvent := flowTrade 0

/-- A whole push of one producer, and a whole pop. -/
def wholePush (i : Producer) (e : MdEvent) : List (Action Producer MdEvent) :=
  [.push i e, .produce i, .produce i, .produce i]

def wholePop : List (Action Producer MdEvent) :=
  [.pop, .consume bookEvent, .consume bookEvent, .consume bookEvent]

/-- A push that no other access disturbs does to the contents of the ring what
    `StrategyRunner.push` does to the runner's queue. -/
theorem whole_push_is_runner_push {s : RunnerQueue} (window : Windowed queueBits s) {i : Producer}
    (idle : s.producers i = .idle) {r : StrategyRunner} (same : r.queue = s.contents) (e : MdEvent) :
    (run queueStep s (wholePush i e)).contents = (r.push e).1.queue := by
  have full := full_iff (by decide) window
  have below := window.below
  have above := window.above
  have length : r.queue.length = s.accepted.length - s.popped.length := by
    rw [same, contents_length, SpscQueue.enqueued]
  rw [← queue_size_eq] at full above
  by_cases refused : nextIndex queueBits s.head = s.tail
  · have turn := full.mp refused
    have noRoom : ¬r.queue.length < kQueueSize - 1 := by omega
    rw [StrategyRunner.push, if_neg noRoom, same]
    simp [wholePush, run, queueStep, SpscQueue.step, idle, SpscQueue.producer, refused,
      SpscQueue.contents]
  · have turn := full.not.mp refused
    have room : r.queue.length < kQueueSize - 1 := by omega
    rw [StrategyRunner.push, if_pos room, same, ← publish_contents window e]
    simp [wholePush, run, queueStep, SpscQueue.step, idle, SpscQueue.producer, refused,
      SpscQueue.contents]

def emptyQueue : RunnerQueue := .start (fun _ => bookEvent)

theorem pushes_in_turn_delivered :
    let acts := wholePush .book bookEvent ++ wholePush .trade tradeEvent ++ wholePop
    Along queueStep EmptyWhenDelivered emptyQueue acts ∧ Visits queueStep Delivers emptyQueue acts :=
  events_delivered_of_exclusive_pushes (fun _ => bookEvent) _ (by decide +kernel)

def overlappingPushes : List (Action Producer MdEvent) :=
  [.push .book bookEvent, .push .trade tradeEvent, .produce .book, .produce .trade,
    .produce .book, .produce .trade, .produce .book, .produce .trade]

/-- Two streams load the same `head_` and write the same slot: both pushes succeed, one
    event is popped and the queue is empty. -/
theorem overlapping_pushes_lose_event :
    let last := run queueStep emptyQueue (overlappingPushes ++ wholePop)
    last.accepted = [bookEvent, tradeEvent] ∧ last.popped = [tradeEvent] ∧
      last.head = last.tail ∧
      ¬Visits queueStep Delivers emptyQueue (overlappingPushes ++ wholePop) := by
  refine ⟨by decide +kernel, by decide +kernel, by decide +kernel, ?_⟩
  intro delivers
  have last := (visits_last delivers).1
  exact absurd last (by decide +kernel)

end Runner

end FinamRunnerQueue
