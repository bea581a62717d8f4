import FinamTradebot.MarketDataClient
import FinamTradebot.Runs
import Mathlib.Data.List.Nodup
import Mathlib.Logic.Function.Basic

/-!
The level events of `subscribe_book_events` rebuild the top of the book. A reader of the
events keeps a bid and an ask size for each level and sets them from every event; what it
has after a snapshot is compared with the snapshot itself.
-/
namespace FinamBookDeltas
open FinamInterfaces FinamOrderBook FinamMarketData Runs

/-- The bid and the ask size at each level. -/
abbrev Sizes := ℤ → ℚ × ℚ

def setLevel (s : Sizes) (e : BookLevelEvent) : Sizes :=
  Function.update s e.level (e.newBidSize, e.newAskSize)

structure Reader where
  prev : PrevBook := {}
  sizes : Sizes := fun _ => (0, 0)

def Reader.step (r : Reader) (book : OrderBook) : Reader :=
  let (prev, events) := onBook r.prev book
  { prev := prev, sizes := run setLevel r.sizes events }

/-- The old sizes of an event are the sizes read so far at its level. -/
def Continues (s : Sizes) (e : BookLevelEvent) : Prop := s e.level = (e.oldBidSize, e.oldAskSize)

/-- What one snapshot emits and what the reader has after it. -/
structure Rebuilds (r : Reader) (book : OrderBook) : Prop where
  top : ∀ k < kBookLevels, (r.step book).sizes k = (levelQty book.bids k, levelQty book.asks k)
  continues : Along setLevel Continues r.sizes (onBook r.prev book).2
  increasing : ((onBook r.prev book).2.map BookLevelEvent.level).Pairwise (· < ·)
  inRange : ∀ e ∈ (onBook r.prev book).2, 0 ≤ e.level ∧ e.level < kBookLevels

section Levels
variable {prev : PrevBook} {book : OrderBook} {ks : List ℕ} {s : Sizes}

theorem level_event_cases (prev : PrevBook) (book : OrderBook) (k : ℕ) :
    (levelEvent prev book k = none ∧ (levelQty prev.bids k, levelQty prev.asks k) =
      (levelQty book.bids k, levelQty book.asks k)) ∨
    ∃ e, levelEvent prev book k = some e ∧ e.level = k ∧
      (e.oldBidSize, e.oldAskSize) = (levelQty prev.bids k, levelQty prev.asks k) ∧
      (e.newBidSize, e.newAskSize) = (levelQty book.bids k, levelQty book.asks k) := by
  unfold levelEvent
  split
  · rename_i same
    exact Or.inl ⟨rfl, by rw [same.1, same.2]⟩
  · exact Or.inr ⟨_, rfl, rfl, rfl, rfl⟩

/-- Only the levels of the list are written. -/
theorem fold_frame {k : ℕ} (outside : k ∉ ks) :
    run setLevel s (ks.filterMap (levelEvent prev book)) k = s k := by
  induction ks generalizing s with
  | nil => rfl
  | cons first rest ih =>
    have other : k ≠ first := List.ne_of_not_mem_cons outside
    have later : k ∉ rest := List.not_mem_of_not_mem_cons outside
    rcases level_event_cases prev book first with ⟨silent, -⟩ | ⟨e, emits, level, -, -⟩
    · rw [List.filterMap_cons_none silent]
      exact ih later
    · have apart : (k : ℤ) ≠ e.level := by
        rw [level]
        exact_mod_cast other
      rw [List.filterMap_cons_some emits, run, ih later, setLevel, Function.update_of_ne apart]

/-- The sizes at the head of the list are those of the snapshot, and the rest finds its old
    sizes unchanged. -/
theorem fold_levels (prev : PrevBook) (book : OrderBook) (distinct : ks.Nodup)
    (agrees : ∀ k ∈ ks, s k = (levelQty prev.bids k, levelQty prev.asks k)) :
    (∀ k ∈ ks, run setLevel s (ks.filterMap (levelEvent prev book)) k =
      (levelQty book.bids k, levelQty book.asks k)) ∧
    Along setLevel Continues s (ks.filterMap (levelEvent prev book)) := by
  induction ks generalizing s with
  | nil => exact ⟨by simp, trivial⟩
  | cons first rest ih =>
    obtain ⟨fresh, later⟩ := List.nodup_cons.mp distinct
    have here := agrees first List.mem_cons_self
    rcases level_event_cases prev book first with ⟨silent, same⟩ | ⟨e, emits, level, old, new⟩
    · rw [List.filterMap_cons_none silent]
      obtain ⟨top, continues⟩ := ih later (fun k member => agrees k (List.mem_cons_of_mem first member))
      refine ⟨?_, continues⟩
      intro k member
      rcases List.mem_cons.mp member with rfl | inside
      · rw [fold_frame fresh, here, same]
      · exact top k inside
    · rw [List.filterMap_cons_some emits]
      have kept : ∀ k ∈ rest, setLevel s e k = (levelQty prev.bids k, levelQty prev.asks k) := by
        intro k member
        have apart : (k : ℤ) ≠ e.level := by
          rw [level]
          intro equal
          exact fresh (Nat.cast_injective equal ▸ member)
        rw [setLevel, Function.update_of_ne apart]
        exact agrees k (List.mem_cons_of_mem first member)
      obtain ⟨top, continues⟩ := ih later kept
      refine ⟨?_, ?_, continues⟩
      · intro k member
        rcases List.mem_cons.mp member with rfl | inside
        · rw [run, fold_frame fresh, setLevel, ← level, Function.update_self, new]
        · exact top k inside
      · unfold Continues
        rw [level, here, old]

theorem emitted_level {k : ℕ} {e : BookLevelEvent} (emits : levelEvent prev book k = some e) :
    e.level = k := by
  rcases level_event_cases prev book k with ⟨silent, -⟩ | ⟨f, emits', level, -, -⟩
  · rw [silent] at emits
    cases emits
  · rw [emits] at emits'
    cases emits'
    exact level

theorem emitted_increasing (prev : PrevBook) (book : OrderBook) :
    ((onBook prev book).2.map BookLevelEvent.level).Pairwise (· < ·) := by
  refine List.pairwise_map.mpr (List.pairwise_filterMap.mpr ?_)
  refine List.pairwise_lt_range.imp ?_
  intro j k before e emitsJ f emitsK
  rw [emitted_level emitsJ, emitted_level emitsK]
  exact_mod_cast before

theorem emitted_in_range (prev : PrevBook) (book : OrderBook) :
    ∀ e ∈ (onBook prev book).2, 0 ≤ e.level ∧ e.level < kBookLevels := by
  intro e member
  obtain ⟨k, inside, emits⟩ := List.mem_filterMap.mp member
  rw [emitted_level emits]
  have below := List.mem_range.mp inside
  constructor
  · exact Int.natCast_nonneg k
  · exact_mod_cast below

end Levels

section Run
variable {r : Reader} {book : OrderBook}

def Reader.Synced (r : Reader) : Prop :=
  ∀ k < kBookLevels, r.sizes k = (levelQty r.prev.bids k, levelQty r.prev.asks k)

theorem rebuilds_step (synced : r.Synced) : Rebuilds r book := by
  obtain ⟨top, continues⟩ := fold_levels r.prev book List.nodup_range
    (fun k member => synced k (List.mem_range.mp member))
  exact ⟨fun k below => top k (List.mem_range.mpr below), continues,
    emitted_increasing r.prev book, emitted_in_range r.prev book⟩

/-- For every sequence of snapshots, the events rebuild the top of each of them from sizes
    of zero, continue from the sizes read so far and come in order of their levels. -/
theorem deltas_rebuild_top_of_book (books : List OrderBook) :
    Along Reader.step Rebuilds {} books := by
  have start : Reader.Synced {} := by
    intro k _
    rfl
  exact along_invariant (I := Reader.Synced) (fun r book synced => rebuilds_step synced)
    (fun r book synced => (rebuilds_step synced).top) books start

end Run

end FinamBookDeltas
