import FinamTradebot.Runs
import Mathlib.Data.Nat.ModEq
import Mathlib.Data.Fintype.Basic
import Mathlib.Logic.Function.Basic

/-!
core/spsc_queue.hpp with `N = 2 ^ k` slots. A push is four accesses to the shared state
(load of `head_`, load of `tail_`, write of the slot, store of `head_`) and so is a pop.
Each access is one step. The queue itself does not keep a second producer out, so pushes
are indexed by their producer. `accepted` and `popped` record what returned successfully.
-/
namespace FinamSpsc
open Runs

inductive PushPc (α : Type) where
  | idle
  | loaded (item : α) (head : ℕ)
  | writing (item : α) (head : ℕ)
  | publishing (item : α) (head : ℕ)

inductive PopPc (α : Type) where
  | idle
  | loaded (tail : ℕ)
  | reading (tail : ℕ)
  | releasing (item : α) (tail : ℕ)

structure SpscQueue (ι α : Type) where
  head : ℕ
  tail : ℕ
  buffer : ℕ → α
  producers : ι → PushPc α
  consumer : PopPc α
  accepted : List α
  popped : List α

/-- `moved` is what a move leaves in the slot it takes an item from. -/
inductive Action (ι α : Type) where
  | push (i : ι) (item : α)
  | produce (i : ι)
  | pop
  | consume (moved : α)

/-- `(index + 1) & kMask` on a `size_t`. -/
def nextIndex (k index : ℕ) : ℕ := ((index + 1) % 2 ^ 64) &&& (2 ^ k - 1)

section Steps
variable {ι α : Type} [DecidableEq ι]

def SpscQueue.start (buffer : ℕ → α) : SpscQueue ι α :=
  ⟨0, 0, buffer, fun _ => .idle, .idle, [], []⟩

def SpscQueue.size (k : ℕ) (s : SpscQueue ι α) : ℕ :=
  ((s.head + 2 ^ 64 - s.tail) % 2 ^ 64) &&& (2 ^ k - 1)

def SpscQueue.producer (s : SpscQueue ι α) (i : ι) (pc : PushPc α) : SpscQueue ι α :=
  { s with producers := Function.update s.producers i pc }

def SpscQueue.step (k : ℕ) (s : SpscQueue ι α) : Action ι α → SpscQueue ι α
  | .push i item =>
    match s.producers i with
    | .idle => s.producer i (.loaded item s.head)
    | _ => s
  | .produce i =>
    match s.producers i with
    | .idle => s
    | .loaded item head =>
      if nextIndex k head = s.tail then s.producer i .idle else s.producer i (.writing item head)
    | .writing item head =>
      { s with buffer := Function.update s.buffer head item }.producer i (.publishing item head)
    | .publishing item head =>
      { s with head := nextIndex k head, accepted := s.accepted ++ [item] }.producer i .idle
  | .pop =>
    match s.consumer with
    | .idle => { s with consumer := .loaded s.tail }
    | _ => s
  | .consume moved =>
    match s.consumer with
    | .idle => s
    | .loaded tail =>
      { s with consumer := if tail = s.head then .idle else .reading tail }
    | .reading tail =>
      { s with
        consumer := .releasing (s.buffer tail) tail
        buffer := Function.update s.buffer tail moved }
    | .releasing item tail =>
      { s with tail := nextIndex k tail, popped := s.popped ++ [item], consumer := .idle }

/-- The number of items published and not released. -/
def SpscQueue.enqueued (s : SpscQueue ι α) : ℕ := s.accepted.length - s.popped.length

/-- The slot index of an item that is published and not released. -/
def SpscQueue.Occupied (k : ℕ) (s : SpscQueue ι α) (slot : ℕ) : Prop :=
  ∃ j, s.popped.length ≤ j ∧ j < s.accepted.length ∧ j % 2 ^ k = slot

def PushPc.Busy : PushPc α → Prop
  | .writing _ _ | .publishing _ _ => True
  | .idle | .loaded _ _ => False

instance : DecidablePred (PushPc.Busy : PushPc α → Prop)
  | .writing _ _ | .publishing _ _ => .isTrue trivial
  | .idle | .loaded _ _ => .isFalse id

/-- A push that passes the check of `tail_` has loaded the present `head_`, and no other
    producer is between its check and its store of `head_`. -/
def ExclusiveCheck (k : ℕ) (s : SpscQueue ι α) (i : ι) : PushPc α → Prop
  | .loaded _ head =>
    nextIndex k head ≠ s.tail → head = s.head ∧ ∀ j, (s.producers j).Busy → j = i
  | .idle | .writing _ _ | .publishing _ _ => True

def Exclusive (k : ℕ) (s : SpscQueue ι α) : Action ι α → Prop
  | .produce i => ExclusiveCheck k s i (s.producers i)
  | .push _ _ | .pop | .consume _ => True

instance [Fintype ι] (k : ℕ) (s : SpscQueue ι α) (i : ι) : DecidablePred (ExclusiveCheck k s i)
  | .loaded _ head =>
    inferInstanceAs (Decidable (nextIndex k head ≠ s.tail →
      head = s.head ∧ ∀ j, (s.producers j).Busy → j = i))
  | .idle | .writing _ _ | .publishing _ _ => .isTrue trivial

instance [Fintype ι] (k : ℕ) (s : SpscQueue ι α) : DecidablePred (Exclusive k s)
  | .produce i => inferInstanceAs (Decidable (ExclusiveCheck k s i (s.producers i)))
  | .push _ _ | .pop | .consume _ => .isTrue trivial

end Steps

section Indices

theorem next_index_eq {k : ℕ} (fits : k ≤ 64) (index : ℕ) :
    nextIndex k index = (index + 1) % 2 ^ k := by
  unfold nextIndex
  rw [Nat.and_two_pow_sub_one_eq_mod, Nat.mod_mod_of_dvd _ (pow_dvd_pow 2 fits)]

theorem next_index_mod {k : ℕ} (fits : k ≤ 64) (n : ℕ) :
    nextIndex k (n % 2 ^ k) = (n + 1) % 2 ^ k := by
  rw [next_index_eq fits, Nat.mod_add_mod]

/-- Two counters less than a turn apart are equal when their slots are. -/
theorem slot_injective {N a b : ℕ} (le : a ≤ b) (close : b < a + N) (same : a % N = b % N) :
    a = b := by
  have zero := Nat.sub_mod_eq_zero_of_mod_eq same.symm
  rw [Nat.mod_eq_of_lt (by omega)] at zero
  omega

end Indices

section Window
variable {ι α : Type} {k : ℕ} {s t : SpscQueue ι α}

/-- The consumer has taken the item of the oldest slot and not released the slot. -/
def PopPc.Holding : PopPc α → Prop
  | .releasing _ _ => True
  | .idle | .loaded _ | .reading _ => False

def ConsumerSound (s : SpscQueue ι α) : PopPc α → Prop
  | .idle => True
  | .loaded tail => tail = s.tail
  | .reading tail => tail = s.tail ∧ s.popped.length < s.accepted.length
  | .releasing item tail => tail = s.tail ∧ s.accepted[s.popped.length]? = some item

def ProducerSound (k : ℕ) (s : SpscQueue ι α) : PushPc α → Prop
  | .idle | .loaded _ _ => True
  | .writing _ head => head = s.head ∧ s.accepted.length + 1 < s.popped.length + 2 ^ k
  | .publishing item head =>
    head = s.head ∧ s.accepted.length + 1 < s.popped.length + 2 ^ k ∧ s.buffer head = item

/-- The queue is a window on the accepted items: it begins at the first one not popped,
    is less than a turn long, and its slots hold the items. -/
structure Windowed (k : ℕ) (s : SpscQueue ι α) : Prop where
  head : s.head = s.accepted.length % 2 ^ k
  tail : s.tail = s.popped.length % 2 ^ k
  below : s.popped.length ≤ s.accepted.length
  above : s.accepted.length < s.popped.length + 2 ^ k
  taken : s.popped <+: s.accepted
  slots : ∀ j, s.popped.length ≤ j → j < s.accepted.length →
    (s.consumer.Holding → j ≠ s.popped.length) → s.accepted[j]? = some (s.buffer (j % 2 ^ k))
  consumer : ConsumerSound s s.consumer
  producers : ∀ i, ProducerSound k s (s.producers i)
  oneBusy : ∀ i j, (s.producers i).Busy → (s.producers j).Busy → i = j

theorem windowed_start (k : ℕ) (buffer : ℕ → α) :
    Windowed k (SpscQueue.start buffer : SpscQueue ι α) := by
  constructor <;> simp [SpscQueue.start, ConsumerSound, ProducerSound, PushPc.Busy, Nat.two_pow_pos k]

theorem quiet_sound (k : ℕ) (s : SpscQueue ι α) {pc : PushPc α} (quiet : ¬pc.Busy) :
    ProducerSound k s pc := by
  cases pc with
  | idle | loaded => trivial
  | writing | publishing => exact absurd trivial quiet

theorem producer_sound_mono (head : t.head = s.head) (accepted : t.accepted = s.accepted)
    (popped : s.popped.length ≤ t.popped.length) (slot : t.buffer s.head = s.buffer s.head)
    {pc : PushPc α} (sound : ProducerSound k s pc) : ProducerSound k t pc := by
  cases pc with
  | idle | loaded => trivial
  | writing item h =>
    obtain ⟨same, room⟩ := sound
    refine ⟨same.trans head.symm, ?_⟩
    rw [accepted]
    omega
  | publishing item h =>
    obtain ⟨rfl, room, written⟩ := sound
    refine ⟨head.symm, ?_, slot.trans written⟩
    rw [accepted]
    omega

theorem consumer_sound_mono (tail : t.tail = s.tail) (popped : t.popped = s.popped)
    (accepted : s.accepted <+: t.accepted) {pc : PopPc α} (sound : ConsumerSound s pc) :
    ConsumerSound t pc := by
  obtain ⟨rest, eq⟩ := accepted
  cases pc with
  | idle => trivial
  | loaded h => exact sound.trans tail.symm
  | reading h =>
    obtain ⟨same, nonempty⟩ := sound
    refine ⟨same.trans tail.symm, ?_⟩
    rw [popped, ← eq, List.length_append]
    omega
  | releasing item h =>
    obtain ⟨same, held⟩ := sound
    refine ⟨same.trans tail.symm, ?_⟩
    rw [popped, ← eq, List.getElem?_append_left (List.getElem?_eq_some_iff.mp held).1]
    exact held

theorem holding_nonempty (window : Windowed k s) (holding : s.consumer.Holding) :
    s.popped.length < s.accepted.length := by
  have consumer := window.consumer
  cases pc : s.consumer with
  | releasing item tail =>
    rw [pc] at consumer
    exact (List.getElem?_eq_some_iff.mp consumer.2).1
  | idle | loaded | reading =>
    rw [pc] at holding
    exact holding.elim

theorem others_quiet (window : Windowed k s) {i : ι} (busy : (s.producers i).Busy) {j : ι}
    (other : j ≠ i) : ¬(s.producers j).Busy :=
  fun here => other (window.oneBusy j i here busy)

/-- The slot a producer may write holds none of the items that are still to be popped. -/
theorem head_slot_free (window : Windowed k s) {j : ℕ} (lower : s.popped.length ≤ j)
    (upper : j < s.accepted.length) : j % 2 ^ k ≠ s.head := by
  rw [window.head]
  intro same
  have above := window.above
  have equal := slot_injective upper.le (by omega) same
  omega

/-- A check of `tail_` against the present `head_` fails exactly when the window is full. -/
theorem full_iff (fits : k ≤ 64) (window : Windowed k s) :
    nextIndex k s.head = s.tail ↔ s.accepted.length + 1 = s.popped.length + 2 ^ k := by
  have below := window.below
  have above := window.above
  have turn : 0 < 2 ^ k := Nat.two_pow_pos k
  rw [window.head, next_index_mod fits, window.tail]
  constructor
  · intro same
    have shifted : (s.popped.length + 2 ^ k) % 2 ^ k = (s.accepted.length + 1) % 2 ^ k := by
      rw [Nat.add_mod_right, same]
    exact (slot_injective (by omega) (by omega) shifted.symm)
  · intro full
    rw [full, Nat.add_mod_right]

theorem empty_iff (window : Windowed k s) :
    s.tail = s.head ↔ s.popped.length = s.accepted.length := by
  rw [window.head, window.tail]
  constructor
  · intro same
    exact slot_injective window.below window.above same
  · intro same
    rw [same]

theorem windowed_consumer (window : Windowed k s) {pc : PopPc α} (sound : ConsumerSound s pc)
    (released : ¬s.consumer.Holding) : Windowed k { s with consumer := pc } := by
  refine ⟨window.head, window.tail, window.below, window.above, window.taken, ?_,
    consumer_sound_mono (s := s) rfl rfl List.prefix_rfl sound, ?_, window.oneBusy⟩
  · intro j lower upper _
    exact window.slots j lower upper (fun holding => absurd holding released)
  · intro i
    exact producer_sound_mono rfl rfl le_rfl rfl (window.producers i)

theorem windowed_read (window : Windowed k s) {tail : ℕ} (here : s.consumer = .reading tail)
    (moved : α) :
    Windowed k { s with
      consumer := .releasing (s.buffer tail) tail
      buffer := Function.update s.buffer tail moved } := by
  have sound := window.consumer
  rw [here] at sound
  obtain ⟨rfl, nonempty⟩ := sound
  have free : ¬s.consumer.Holding := by rw [here]; exact id
  have above := window.above
  have oldest := window.slots s.popped.length le_rfl nonempty (fun holding => absurd holding free)
  refine ⟨window.head, window.tail, window.below, window.above, window.taken, ?_, ⟨rfl, ?_⟩, ?_,
    window.oneBusy⟩
  · intro j lower upper notHeld
    have later : j ≠ s.popped.length := notHeld trivial
    change s.popped.length ≤ j at lower
    change j < s.accepted.length at upper
    have apart : j % 2 ^ k ≠ s.tail := by
      rw [window.tail]
      intro same
      exact later (slot_injective lower (by omega) same.symm).symm
    simp only [Function.update_of_ne apart]
    exact window.slots j lower upper (fun holding => absurd holding free)
  · rw [window.tail]
    exact oldest
  · intro i
    have apart : s.head ≠ s.tail := by
      intro same
      have drained := (empty_iff window).mp same.symm
      omega
    refine producer_sound_mono (s := s) ?_ ?_ ?_ ?_ (window.producers i)
    · rfl
    · rfl
    · exact le_rfl
    · exact Function.update_of_ne apart moved s.buffer

theorem prefix_snoc {l m : List α} {x : α} (taken : l <+: m) (next : m[l.length]? = some x) :
    l ++ [x] <+: m := by
  obtain ⟨rest, rfl⟩ := taken
  rw [List.getElem?_append_right le_rfl, Nat.sub_self] at next
  cases rest with
  | nil => cases next
  | cons y tail =>
    obtain rfl : y = x := by simpa using next
    exact ⟨tail, by simp⟩

theorem windowed_release (fits : k ≤ 64) (window : Windowed k s) {item : α} {tail : ℕ}
    (here : s.consumer = .releasing item tail) :
    Windowed k { s with
      tail := nextIndex k tail
      popped := s.popped ++ [item]
      consumer := .idle } := by
  have sound := window.consumer
  have holding : s.consumer.Holding := by rw [here]; trivial
  have nonempty := holding_nonempty window holding
  rw [here] at sound
  obtain ⟨rfl, held⟩ := sound
  have above := window.above
  have length : (s.popped ++ [item]).length = s.popped.length + 1 := by simp
  refine ⟨window.head, ?_, ?_, ?_, prefix_snoc window.taken held, ?_, trivial, ?_, window.oneBusy⟩
  · simp only [length]
    rw [window.tail, next_index_mod fits]
  · simp only [length]
    omega
  · simp only [length]
    omega
  · intro j lower upper _
    simp only [length] at lower
    exact window.slots j (by omega) upper (fun _ => by omega)
  · intro i
    refine producer_sound_mono (s := s) ?_ ?_ ?_ ?_ (window.producers i)
    · rfl
    · rfl
    · simp
    · rfl

end Window

section Invariant
variable {ι α : Type} [DecidableEq ι] {k : ℕ} {s : SpscQueue ι α}

theorem producers_after {P : PushPc α → Prop} {i : ι} {pc : PushPc α} (here : P pc)
    (others : ∀ j, j ≠ i → P (s.producers j)) (j : ι) : P ((s.producer i pc).producers j) := by
  by_cases same : j = i
  · subst same
    simpa [SpscQueue.producer] using here
  · simpa [SpscQueue.producer, same] using others j same

theorem busy_after {i j : ι} {pc : PushPc α} (busy : ((s.producer i pc).producers j).Busy) :
    (j = i ∧ pc.Busy) ∨ (j ≠ i ∧ (s.producers j).Busy) := by
  by_cases same : j = i
  · subst same
    exact Or.inl ⟨rfl, by simpa [SpscQueue.producer] using busy⟩
  · exact Or.inr ⟨same, by simpa [SpscQueue.producer, same] using busy⟩

/-- A producer that moves to a step outside the write and the store of `head_`. -/
theorem windowed_producer (window : Windowed k s) {i : ι} {pc : PushPc α} (quiet : ¬pc.Busy) :
    Windowed k (s.producer i pc) := by
  refine ⟨window.head, window.tail, window.below, window.above, window.taken, window.slots,
    window.consumer, ?_, ?_⟩
  · apply producers_after (quiet_sound k _ quiet)
    intro j _
    exact producer_sound_mono rfl rfl le_rfl rfl (window.producers j)
  · intro j l first second
    rcases busy_after first with ⟨-, busy⟩ | ⟨-, busy⟩
    · exact absurd busy quiet
    · rcases busy_after second with ⟨-, busy'⟩ | ⟨-, busy'⟩
      · exact absurd busy' quiet
      · exact window.oneBusy j l busy busy'

/-- Producer `i` moves to a step between its check and its store while no other is there. -/
theorem one_busy_after {i : ι} {pc : PushPc α} (alone : ∀ j, (s.producers j).Busy → j = i) {j l : ι}
    (first : ((s.producer i pc).producers j).Busy)
    (second : ((s.producer i pc).producers l).Busy) : j = l := by
  have only : ∀ {m : ι}, ((s.producer i pc).producers m).Busy → m = i := by
    intro m busy
    rcases busy_after busy with ⟨same, -⟩ | ⟨-, before⟩
    · exact same
    · exact alone m before
  exact (only first).trans (only second).symm

theorem windowed_check (window : Windowed k s) {i : ι} {item : α}
    (room : s.accepted.length + 1 < s.popped.length + 2 ^ k)
    (alone : ∀ j, (s.producers j).Busy → j = i) :
    Windowed k (s.producer i (.writing item s.head)) := by
  refine ⟨window.head, window.tail, window.below, window.above, window.taken, window.slots,
    window.consumer, ?_, ?_⟩
  · apply producers_after
    · exact ⟨rfl, room⟩
    · intro j _
      exact producer_sound_mono rfl rfl le_rfl rfl (window.producers j)
  · intro j l first second
    exact one_busy_after alone first second

theorem windowed_write (window : Windowed k s) {i : ι} {item : α} {head : ℕ}
    (here : s.producers i = .writing item head) :
    Windowed k ({ s with buffer := Function.update s.buffer head item }.producer i
      (.publishing item head)) := by
  have sound := window.producers i
  have busy : (s.producers i).Busy := by rw [here]; trivial
  rw [here] at sound
  obtain ⟨rfl, room⟩ := sound
  refine ⟨window.head, window.tail, window.below, window.above, window.taken, ?_,
    consumer_sound_mono rfl rfl List.prefix_rfl window.consumer, ?_, ?_⟩
  · intro j lower upper notHeld
    have apart := head_slot_free window lower upper
    simp only [SpscQueue.producer, Function.update_of_ne apart]
    exact window.slots j lower upper notHeld
  · apply producers_after
    · exact ⟨rfl, room, by simp [SpscQueue.producer]⟩
    · intro j other
      exact quiet_sound k _ (others_quiet window busy other)
  · intro j l first second
    exact one_busy_after (fun m before => window.oneBusy m i before busy) first second

theorem windowed_publish (fits : k ≤ 64) (window : Windowed k s) {i : ι} {item : α} {head : ℕ}
    (here : s.producers i = .publishing item head) :
    Windowed k ({ s with head := nextIndex k head, accepted := s.accepted ++ [item] }.producer i
      .idle) := by
  have sound := window.producers i
  have busy : (s.producers i).Busy := by rw [here]; trivial
  rw [here] at sound
  obtain ⟨rfl, room, written⟩ := sound
  have below := window.below
  refine ⟨?_, window.tail, ?_, ?_, window.taken.trans (List.prefix_append _ _), ?_, ?_, ?_, ?_⟩
  · simp only [SpscQueue.producer, List.length_append, List.length_singleton]
    rw [window.head, next_index_mod fits]
  · simp only [SpscQueue.producer, List.length_append, List.length_singleton]
    omega
  · simp only [SpscQueue.producer, List.length_append, List.length_singleton]
    exact room
  · intro j lower upper notHeld
    simp only [SpscQueue.producer, List.length_append, List.length_singleton] at *
    rcases Nat.lt_succ_iff_lt_or_eq.mp upper with old | rfl
    · rw [List.getElem?_append_left old]
      exact window.slots j lower old notHeld
    · rw [← window.head, written]
      simp
  · refine consumer_sound_mono (s := s) ?_ ?_ ?_ window.consumer
    · rfl
    · rfl
    · exact List.prefix_append _ _
  · apply producers_after
    · trivial
    · intro j other
      exact quiet_sound k _ (others_quiet window busy other)
  · intro j l first second
    exact one_busy_after (fun m before => window.oneBusy m i before busy) first second

/-- Every step of a push that is exclusive, and every step of a pop, keeps the window. -/
theorem windowed_step (fits : k ≤ 64) (window : Windowed k s) {a : Action ι α}
    (exclusive : Exclusive k s a) : Windowed k (s.step k a) := by
  cases a with
  | push i item =>
    simp only [SpscQueue.step]
    split
    · exact windowed_producer window id
    · exact window
  | produce i =>
    simp only [SpscQueue.step]
    split
    · exact window
    · rename_i item head here
      split
      · exact windowed_producer window id
      · rename_i room
        simp only [Exclusive, here, ExclusiveCheck] at exclusive
        obtain ⟨rfl, alone⟩ := exclusive room
        have notFull := (full_iff fits window).not.mp room
        have above := window.above
        exact windowed_check window (by omega) alone
    · rename_i item head here
      exact windowed_write window here
    · rename_i item head here
      exact windowed_publish fits window here
  | pop =>
    simp only [SpscQueue.step]
    split
    · rename_i here
      exact windowed_consumer window rfl (by rw [here]; exact id)
    · exact window
  | consume moved =>
    simp only [SpscQueue.step]
    split
    · exact window
    · rename_i tail here
      have sound := window.consumer
      rw [here] at sound
      obtain rfl : tail = s.tail := sound
      refine windowed_consumer window ?_ (by rw [here]; exact id)
      split
      · trivial
      · rename_i nonempty
        have below := window.below
        have apart := (empty_iff window).not.mp nonempty
        exact ⟨rfl, by omega⟩
    · rename_i tail here
      exact windowed_read window here moved
    · rename_i item tail here
      exact windowed_release fits window here

end Invariant

section Fifo
variable {ι α : Type} {k : ℕ} {s : SpscQueue ι α}

/-- The queue as a list: what is published and not released. -/
def SpscQueue.contents (s : SpscQueue ι α) : List α := s.accepted.drop s.popped.length

/-- One step of a bounded queue that holds at most `bound` items. -/
def FifoStep (bound : ℕ) (before after : List α) : Prop :=
  after = before ∨ (∃ item, before.length < bound ∧ after = before ++ [item]) ∨
    ∃ item, before = item :: after

theorem contents_length (s : SpscQueue ι α) : s.contents.length = s.enqueued := by
  simp [SpscQueue.contents, SpscQueue.enqueued]

theorem size_eq_enqueued (fits : k ≤ 64) (window : Windowed k s) : s.size k = s.enqueued := by
  have below := window.below
  have above := window.above
  have wide : 2 ^ k ∣ 2 ^ 64 := pow_dvd_pow 2 fits
  have slot : s.tail < 2 ^ k := by
    rw [window.tail]
    exact Nat.mod_lt _ (Nat.two_pow_pos k)
  have bound : 2 ^ k ≤ 2 ^ 64 := Nat.pow_le_pow_right (by decide) fits
  unfold SpscQueue.size SpscQueue.enqueued
  rw [Nat.and_two_pow_sub_one_eq_mod, Nat.mod_mod_of_dvd _ wide]
  have balanced : s.head + 2 ^ 64 - s.tail + s.tail ≡
      s.accepted.length - s.popped.length + s.tail [MOD 2 ^ k] := by
    rw [Nat.sub_add_cancel (by omega)]
    calc s.head + 2 ^ 64 ≡ s.head + 0 [MOD 2 ^ k] :=
          Nat.ModEq.add_left _ ((Nat.modEq_zero_iff_dvd).mpr wide)
      _ ≡ s.accepted.length [MOD 2 ^ k] := by
          rw [Nat.add_zero, window.head]
          exact Nat.mod_modEq _ _
      _ = s.accepted.length - s.popped.length + s.popped.length := by omega
      _ ≡ s.accepted.length - s.popped.length + s.tail [MOD 2 ^ k] := by
          rw [window.tail]
          exact Nat.ModEq.add_left _ (Nat.mod_modEq _ _).symm
  have same := Nat.ModEq.add_right_cancel' _ balanced
  rw [Nat.ModEq, Nat.mod_eq_of_lt (show s.accepted.length - s.popped.length < 2 ^ k by omega)] at same
  exact same

theorem publish_contents (window : Windowed k s) (item : α) :
    (s.accepted ++ [item]).drop s.popped.length = s.contents ++ [item] := by
  rw [List.drop_append_of_le_length window.below]
  rfl

theorem release_contents {item : α} (held : s.accepted[s.popped.length]? = some item) :
    s.contents = item :: s.accepted.drop (s.popped ++ [item]).length := by
  obtain ⟨inside, value⟩ := List.getElem?_eq_some_iff.mp held
  rw [SpscQueue.contents, List.drop_eq_getElem_cons inside, value]
  simp

theorem pop_refused_empty (window : Windowed k s) {tail : ℕ} (here : s.consumer = .loaded tail)
    (empty : tail = s.head) : s.popped.length = s.accepted.length := by
  have sound := window.consumer
  rw [here] at sound
  have same : s.tail = s.head := (show tail = s.tail from sound).symm.trans empty
  exact (empty_iff window).mp same

variable [DecidableEq ι]

theorem step_fifo (window : Windowed k s) (a : Action ι α) :
    FifoStep (2 ^ k - 1) s.contents (s.step k a).contents := by
  cases a with
  | push i item =>
    simp only [SpscQueue.step]
    split <;> exact Or.inl rfl
  | produce i =>
    simp only [SpscQueue.step]
    split
    · exact Or.inl rfl
    · split <;> exact Or.inl rfl
    · exact Or.inl rfl
    · rename_i item head here
      have sound := window.producers i
      rw [here] at sound
      have room := sound.2.1
      have below := window.below
      refine Or.inr (Or.inl ⟨item, ?_, publish_contents window item⟩)
      rw [contents_length, SpscQueue.enqueued]
      omega
  | pop =>
    simp only [SpscQueue.step]
    split <;> exact Or.inl rfl
  | consume moved =>
    simp only [SpscQueue.step]
    split
    · exact Or.inl rfl
    · exact Or.inl rfl
    · exact Or.inl rfl
    · rename_i item tail here
      have sound := window.consumer
      rw [here] at sound
      exact Or.inr (Or.inr ⟨item, release_contents sound.2⟩)

/-- What each access of a push or a pop may rely on. -/
structure HonestStep (k : ℕ) (s : SpscQueue ι α) (a : Action ι α) : Prop where
  pushRefused : ∀ i item head, a = .produce i → s.producers i = .loaded item head →
    nextIndex k head = s.tail → s.enqueued = 2 ^ k - 1
  popRefused : ∀ moved tail, a = .consume moved → s.consumer = .loaded tail →
    tail = s.head → s.enqueued = 0
  writesFree : ∀ i item head, a = .produce i → s.producers i = .writing item head →
    ¬s.Occupied k head
  fifo : FifoStep (2 ^ k - 1) s.contents (s.step k a).contents

theorem honest_step (fits : k ≤ 64) (window : Windowed k s)
    (loaded : ∀ i item head, s.producers i = .loaded item head → head = s.head) (a : Action ι α) :
    HonestStep k s a := by
  constructor
  · rintro i item head - here full
    rw [loaded i item head here] at full
    have turn := (full_iff fits window).mp full
    unfold SpscQueue.enqueued
    omega
  · rintro moved tail - here empty
    have drained := pop_refused_empty window here empty
    unfold SpscQueue.enqueued
    omega
  · rintro i item head - here ⟨j, lower, upper, same⟩
    have sound := window.producers i
    rw [here] at sound
    exact head_slot_free window lower upper (same.trans sound.1)
  · exact step_fifo window a

end Fifo

section OneProducer
variable {α : Type} {k : ℕ} {s : SpscQueue Unit α}

/-- The only producer's loaded `head_` is the present one. -/
def HeadCurrent (s : SpscQueue Unit α) : Prop :=
  ∀ i item head, s.producers i = .loaded item head → head = s.head

theorem head_current_after {i : Unit} {pc : PushPc α}
    (fresh : ∀ item head, pc = .loaded item head → head = s.head) :
    HeadCurrent (s.producer i pc) :=
  producers_after (P := fun pc => ∀ item head, pc = .loaded item head → head = s.head) fresh
    (fun j other => absurd (Subsingleton.elim j i) other)

theorem head_current_step (current : HeadCurrent s) (a : Action Unit α) :
    HeadCurrent (s.step k a) := by
  cases a with
  | push i item =>
    simp only [SpscQueue.step]
    split
    · apply head_current_after
      rintro item head ⟨⟩
      rfl
    · exact current
  | produce i =>
    simp only [SpscQueue.step]
    split
    · exact current
    · split
      · apply head_current_after
        rintro item head ⟨⟩
      · apply head_current_after
        rintro item head ⟨⟩
    · apply head_current_after
      rintro item head ⟨⟩
    · apply head_current_after
      rintro item head ⟨⟩
  | pop =>
    simp only [SpscQueue.step]
    split <;> exact current
  | consume moved =>
    simp only [SpscQueue.step]
    split <;> exact current

theorem exclusive_of_current (current : HeadCurrent s) (a : Action Unit α) : Exclusive k s a := by
  cases a with
  | produce i =>
    change ExclusiveCheck k s i (s.producers i)
    cases here : s.producers i with
    | loaded item head => exact fun _ => ⟨current i item head here, fun _ _ => rfl⟩
    | idle | writing | publishing => trivial
  | push | pop | consume => trivial

/-- With one producer and one consumer, under every interleaving of their accesses, the
    popped items are a prefix of the accepted ones, `size` is their difference, and every
    step is one of a bounded FIFO: refusals happen only at a full or an empty queue, and
    a slot is written only while it is free. -/
theorem one_producer_refines_fifo (fits : k < 64) (buffer : ℕ → α) (acts : List (Action Unit α)) :
    Along (SpscQueue.step k) (HonestStep k) (.start buffer) acts ∧
      Visits (SpscQueue.step k)
        (fun s => s.popped <+: s.accepted ∧ s.size k = s.enqueued) (.start buffer) acts := by
  have start : Windowed k (.start buffer : SpscQueue Unit α) ∧
      HeadCurrent (.start buffer : SpscQueue Unit α) := by
    refine ⟨windowed_start k buffer, ?_⟩
    rintro i item head ⟨⟩
  refine good_run_of_along (C := fun _ _ => True)
    (I := fun s => Windowed k s ∧ HeadCurrent s) ?_ ?_ start ?_ (along_intro (fun _ _ => trivial) _ _)
  · rintro s a ⟨window, current⟩ - -
    have next := windowed_step fits.le window (exclusive_of_current current a)
    exact ⟨honest_step fits.le window current a, next.taken, size_eq_enqueued fits.le next⟩
  · rintro s a ⟨window, current⟩ - -
    exact ⟨windowed_step fits.le window (exclusive_of_current current a),
      head_current_step current a⟩
  · exact ⟨start.1.taken, size_eq_enqueued fits.le start.1⟩

theorem two_slots_fifo :
    let acts : List (Action Unit ℕ) := [.push () 7, .produce (), .produce (), .produce (),
      .push () 8, .produce (), .pop, .consume 0, .consume 0, .consume 0]
    Along (SpscQueue.step 1) (HonestStep 1) (.start (fun _ => 0)) acts ∧
      Visits (SpscQueue.step 1) (fun s => s.popped <+: s.accepted ∧ s.size 1 = s.enqueued)
        (.start (fun _ => 0)) acts :=
  one_producer_refines_fifo (by decide) (fun _ => 0) _

end OneProducer

end FinamSpsc
