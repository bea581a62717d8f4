import FinamTradebot.ConfluenceStrategy
import FinamTradebot.MarketDataClient
import FinamTradebot.StrategyRunner

/-!
Which price the spoof statistics are written under. `on_book` compares two snapshots by
the index of a level and gives a level event one price for both of its sides;
`update_spoof_on_book` turns the event into calls of the filter. What really changed is
read off the snapshots by price.
-/
namespace FinamSpoofAttribution
open FinamInterfaces FinamOrderBook FinamMarketData FinamSpoof FinamConfluence FinamRunner

inductive SpoofCall where
  | add (price : ℚ) (ts : ℤ)
  | cancel (price : ℚ) (ts : ℤ)
  deriving DecidableEq, Repr

def applyCall (f : SpoofFilter) : SpoofCall → SpoofFilter
  | .add price ts => f.onLargeAdd price ts
  | .cancel price ts => f.onLargeCancel price ts

/-- A size grew by more than the threshold. -/
def Jumps (large old new : ℚ) : Prop := large < new - old

/-- A size above the threshold is gone. -/
def Vanishes (large old new : ℚ) : Prop := large < old ∧ new < 1 / 1000000000

instance (large old new : ℚ) : Decidable (Jumps large old new) := inferInstanceAs (Decidable (_ < _))

instance (large old new : ℚ) : Decidable (Vanishes large old new) := inferInstanceAs (Decidable (_ ∧ _))

/-- The calls that `update_spoof_on_book` makes for an event. -/
def spoofCalls (large : ℚ) (e : BookLevelEvent) : List SpoofCall :=
  (if Jumps large e.oldBidSize e.newBidSize then [.add e.price e.ts] else []) ++
  (if Jumps large e.oldAskSize e.newAskSize then [.add e.price e.ts] else []) ++
  (if Vanishes large e.oldBidSize e.newBidSize then [.cancel e.price e.ts] else []) ++
  (if Vanishes large e.oldAskSize e.newAskSize then [.cancel e.price e.ts] else [])

def snapshotCalls (large : ℚ) (prev : PrevBook) (book : OrderBook) : List SpoofCall :=
  (onBook prev book).2.flatMap (spoofCalls large)

/-- The size resting at a price on one side of a snapshot. -/
def sizeAt (rows : List OrderBookRow) (price : ℚ) : ℚ :=
  match rows.find? (fun row => decide (row.price = price)) with
  | some row => row.quantity
  | none => 0

structure Sorted (bids asks : List OrderBookRow) : Prop where
  bids : bids.Pairwise (fun a b => b.price < a.price)
  asks : asks.Pairwise (fun a b => a.price < b.price)

section Changes
variable (change : ℚ → ℚ → Prop) (prev : PrevBook) (book : OrderBook)

/-- The change happened at a price, on one of the two sides. -/
def ChangedAt (price : ℚ) : Prop :=
  change (sizeAt prev.bids price) (sizeAt book.bids price) ∨
    change (sizeAt prev.asks price) (sizeAt book.asks price)

/-- The change shows at an index, on one of the two sides. -/
def ChangedIndex (k : ℕ) : Prop :=
  change (levelQty prev.bids k) (levelQty book.bids k) ∨
    change (levelQty prev.asks k) (levelQty book.asks k)

/-- The change happened to the row that names the price of the level, against what its own
    side has at that price in the other snapshot, or to the other side at that price. The
    row is the new bid, else the new ask, else the old bid, else the old ask. -/
def ChangedRow (k : ℕ) : Prop :=
  match book.bids[k]?, book.asks[k]?, prev.bids[k]?, prev.asks[k]? with
  | some row, _, _, _ => change (sizeAt prev.bids row.price) row.quantity ∨
      change (sizeAt prev.asks row.price) (sizeAt book.asks row.price)
  | none, some row, _, _ => change (sizeAt prev.bids row.price) (sizeAt book.bids row.price) ∨
      change (sizeAt prev.asks row.price) row.quantity
  | none, none, some row, _ => change row.quantity (sizeAt book.bids row.price) ∨
      change (sizeAt prev.asks row.price) (sizeAt book.asks row.price)
  | none, none, none, some row => change (sizeAt prev.bids row.price) (sizeAt book.bids row.price) ∨
      change row.quantity (sizeAt book.asks row.price)
  | none, none, none, none => False

end Changes

def Attributed (large : ℚ) (prev : PrevBook) (book : OrderBook) : SpoofCall → Prop
  | .add price _ => ChangedAt (Jumps large) prev book price
  | .cancel price _ => ChangedAt (Vanishes large) prev book price

/-- The condition on two snapshots at one level: where the sizes at the index differ, a
    jump or a loss seen at the index is one of the row that names the level's price. -/
def Faithful (large : ℚ) (prev : PrevBook) (book : OrderBook) (k : ℕ) : Prop :=
  (levelQty prev.bids k ≠ levelQty book.bids k ∨ levelQty prev.asks k ≠ levelQty book.asks k) →
    (ChangedIndex (Jumps large) prev book k → ChangedRow (Jumps large) prev book k) ∧
    (ChangedIndex (Vanishes large) prev book k → ChangedRow (Vanishes large) prev book k)

section Sizes
variable {rows : List OrderBookRow} {row : OrderBookRow} {prev : PrevBook} {book : OrderBook}

theorem size_of_row (distinct : rows.Pairwise (fun a b => a.price ≠ b.price)) (member : row ∈ rows) :
    sizeAt rows row.price = row.quantity := by
  unfold sizeAt
  induction rows with
  | nil => cases member
  | cons first rest ih =>
    obtain ⟨apart, later⟩ := List.pairwise_cons.mp distinct
    rcases List.mem_cons.mp member with rfl | inside
    · rw [List.find?_cons_of_pos (by simp)]
    · have other : first.price ≠ row.price := apart row inside
      rw [List.find?_cons_of_neg (by simpa using other)]
      exact ih later inside

theorem sorted_bid_size {bids asks : List OrderBookRow} (sorted : Sorted bids asks) {k : ℕ}
    (here : bids[k]? = some row) : sizeAt bids row.price = row.quantity :=
  size_of_row (sorted.bids.imp (fun below => ne_of_gt below)) (List.mem_of_getElem? here)

theorem sorted_ask_size {bids asks : List OrderBookRow} (sorted : Sorted bids asks) {k : ℕ}
    (here : asks[k]? = some row) : sizeAt asks row.price = row.quantity :=
  size_of_row (sorted.asks.imp (fun below => ne_of_lt below)) (List.mem_of_getElem? here)

/-- The row that names the level's price changed exactly if something changed at that
    price. -/
theorem changed_row_iff (change : ℚ → ℚ → Prop) (before : Sorted prev.bids prev.asks)
    (after : Sorted book.bids book.asks) {k : ℕ}
    (differ : levelQty prev.bids k ≠ levelQty book.bids k ∨
      levelQty prev.asks k ≠ levelQty book.asks k) :
    ChangedRow change prev book k ↔ ChangedAt change prev book (levelPrice prev book k) := by
  unfold ChangedRow ChangedAt levelPrice
  cases newBid : book.bids[k]? with
  | some row => simp only [sorted_bid_size after newBid]
  | none =>
    cases newAsk : book.asks[k]? with
    | some row => simp only [sorted_ask_size after newAsk]
    | none =>
      cases oldBid : prev.bids[k]? with
      | some row => simp only [sorted_bid_size before oldBid]
      | none =>
        cases oldAsk : prev.asks[k]? with
        | some row => simp only [sorted_ask_size before oldAsk]
        | none => simp [levelQty, newBid, newAsk, oldBid, oldAsk] at differ

end Sizes

section Calls
variable {large : ℚ} {prev : PrevBook} {book : OrderBook}

theorem one_call (P : Prop) [Decidable P] (f : SpoofFilter) (c : SpoofCall) :
    (if P then [c] else []).foldl applyCall f = if P then applyCall f c else f := by
  split <;> rfl

theorem update_calls (s : ConfluenceStrategy) (e : BookLevelEvent) :
    s.updateSpoofOnBook e =
      { s with
        spoofFilter := (spoofCalls s.cfg.spoofCfg.minLargeQty e).foldl applyCall s.spoofFilter } := by
  unfold spoofCalls
  rw [List.foldl_append, List.foldl_append, List.foldl_append, one_call, one_call, one_call, one_call]
  rfl

theorem updates_calls (s : ConfluenceStrategy) (events : List BookLevelEvent) :
    (events.foldl ConfluenceStrategy.updateSpoofOnBook s).spoofFilter =
      (events.flatMap (spoofCalls s.cfg.spoofCfg.minLargeQty)).foldl applyCall s.spoofFilter := by
  induction events generalizing s with
  | nil => rfl
  | cons e rest ih =>
    rw [List.foldl_cons, ih, List.flatMap_cons, List.foldl_append, update_calls]

theorem event_calls_attributed {k : ℕ} {e : BookLevelEvent} (emits : levelEvent prev book k = some e) :
    (∀ c ∈ spoofCalls large e, Attributed large prev book c) ↔
      (ChangedIndex (Jumps large) prev book k →
        ChangedAt (Jumps large) prev book (levelPrice prev book k)) ∧
      (ChangedIndex (Vanishes large) prev book k →
        ChangedAt (Vanishes large) prev book (levelPrice prev book k)) := by
  unfold levelEvent at emits
  split at emits
  · cases emits
  · cases emits
    simp only [spoofCalls, List.forall_mem_append, ChangedIndex]
    have call : ∀ (P : Prop) [Decidable P] (c : SpoofCall),
        (∀ d ∈ (if P then [c] else []), Attributed large prev book d) ↔
          (P → Attributed large prev book c) := by
      intro P _ c
      split <;> simp_all
    rw [call, call, call, call, or_imp, or_imp]
    exact ⟨fun all => ⟨⟨all.1.1.1, all.1.1.2⟩, all.1.2, all.2⟩,
      fun all => ⟨⟨⟨all.1.1, all.1.2⟩, all.2.1⟩, all.2.2⟩⟩

theorem level_faithful_iff (before : Sorted prev.bids prev.asks) (after : Sorted book.bids book.asks)
    (k : ℕ) :
    (∀ e ∈ levelEvent prev book k, ∀ c ∈ spoofCalls large e, Attributed large prev book c) ↔
      Faithful large prev book k := by
  by_cases differ : levelQty prev.bids k ≠ levelQty book.bids k ∨
      levelQty prev.asks k ≠ levelQty book.asks k
  · have emits : ∃ e, levelEvent prev book k = some e := by
      unfold levelEvent
      rw [if_neg (fun same => differ.elim (fun h => h same.1) (fun h => h same.2))]
      exact ⟨_, rfl⟩
    obtain ⟨e, emits⟩ := emits
    unfold Faithful
    rw [emits, changed_row_iff (Jumps large) before after differ,
      changed_row_iff (Vanishes large) before after differ, ← event_calls_attributed emits]
    simp [differ]
  · have silent : levelEvent prev book k = none := by
      push Not at differ
      unfold levelEvent
      exact if_pos differ
    simp [silent, Faithful, differ]

/-- For every two snapshots with sorted sides, the calls that reach the spoof filter are
    attributed to prices that changed so exactly if at each of the first levels what the
    index shows happened to the row that names the level's price. -/
theorem spoof_calls_attributed_iff (s : ConfluenceStrategy) (prev : PrevBook) (book : OrderBook)
    (before : Sorted prev.bids prev.asks) (after : Sorted book.bids book.asks) :
    let large := s.cfg.spoofCfg.minLargeQty
    let calls := snapshotCalls large prev book
    ((onBook prev book).2.foldl ConfluenceStrategy.updateSpoofOnBook s).spoofFilter =
        calls.foldl applyCall s.spoofFilter ∧
      ((∀ c ∈ calls, Attributed large prev book c) ↔
        ∀ k < kBookLevels, Faithful large prev book k) := by
  intro large calls
  refine ⟨updates_calls s _, ?_⟩
  have perLevel : (∀ c ∈ calls, Attributed large prev book c) ↔
      ∀ k < kBookLevels, ∀ e ∈ levelEvent prev book k, ∀ c ∈ spoofCalls large e,
        Attributed large prev book c := by
    constructor
    · intro all k below e emits c inside
      refine all c (List.mem_flatMap.mpr ⟨e, ?_, inside⟩)
      exact List.mem_filterMap.mpr ⟨k, List.mem_range.mpr below, emits⟩
    · intro all c member
      obtain ⟨e, emitted, inside⟩ := List.mem_flatMap.mp member
      obtain ⟨k, below, emits⟩ := List.mem_filterMap.mp emitted
      exact all k (List.mem_range.mp below) e emits c inside
  rw [perLevel]
  exact forall₂_congr (fun k _ => level_faithful_iff before after k)

end Calls

section Instances
variable (large : ℚ) (change : ℚ → ℚ → Prop) [∀ old new, Decidable (change old new)] (prev : PrevBook)
  (book : OrderBook)

instance (k : ℕ) : Decidable (ChangedIndex change prev book k) :=
  inferInstanceAs (Decidable (_ ∨ _))

instance (price : ℚ) : Decidable (ChangedAt change prev book price) :=
  inferInstanceAs (Decidable (_ ∨ _))

instance : DecidablePred (Attributed large prev book)
  | .add price _ => inferInstanceAs (Decidable (ChangedAt (Jumps large) prev book price))
  | .cancel price _ => inferInstanceAs (Decidable (ChangedAt (Vanishes large) prev book price))

end Instances

def topBook (bidQty askQty : ℤ) : OrderBook :=
  { symbol := makeCfg.symbol, bids := [⟨100, bidQty⟩], asks := [⟨101, askQty⟩], ts := 0 }

theorem top_book_sorted (bidQty askQty : ℤ) :
    Sorted (topBook bidQty askQty).bids (topBook bidQty askQty).asks :=
  ⟨List.pairwise_singleton _ _, List.pairwise_singleton _ _⟩

/-- A large bid at a price that stays at its index. -/
theorem bid_add_attributed :
    let prev : PrevBook := ⟨(topBook 5 5).bids, (topBook 5 5).asks⟩
    snapshotCalls 10 prev (topBook 60 5) = [.add 100 0] ∧
      ∀ c ∈ snapshotCalls 10 prev (topBook 60 5), Attributed 10 prev (topBook 60 5) c := by
  intro prev
  refine ⟨by decide +kernel, ?_⟩
  refine ((spoof_calls_attributed_iff (.init flatLibm makeCfg) prev (topBook 60 5) (top_book_sorted 5 5)
    (top_book_sorted 60 5)).2).mpr ?_
  intro k _ differ
  cases k with
  | zero =>
    have lost : ¬ChangedIndex (Vanishes 10) prev (topBook 60 5) 0 := by decide +kernel
    exact ⟨fun _ => Or.inl (by decide +kernel), fun gone => absurd gone lost⟩
  | succ k => simp [prev, topBook, levelQty] at differ

/-- A large ask at 101 is counted as an add at 100, where nothing changed. -/
theorem ask_add_misattributed :
    let prev : PrevBook := ⟨(topBook 5 5).bids, (topBook 5 5).asks⟩
    Sorted prev.bids prev.asks ∧ Sorted (topBook 5 60).bids (topBook 5 60).asks ∧
      makeCfg.spoofCfg.minLargeQty = 10 ∧ snapshotCalls 10 prev (topBook 5 60) = [.add 100 0] ∧
      ¬∀ c ∈ snapshotCalls 10 prev (topBook 5 60), Attributed 10 prev (topBook 5 60) c :=
  ⟨top_book_sorted 5 5, top_book_sorted 5 60, by decide +kernel, by decide +kernel, by decide +kernel⟩

end FinamSpoofAttribution
