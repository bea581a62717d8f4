import FinamTradebot.MarketDataClient
import FinamTradebot.Runs
import Mathlib.Data.List.Induction
import Mathlib.Tactic.Linarith

/-!
The delivered order book is the replay of the stream. The rule is stated on the rows
since the last connect alone, for each side: a price is listed if its last row is not a
removal. The maps of the stream thread are the replay of the writes those rows make.
-/
namespace FinamBookReplay
open FinamInterfaces FinamMarketData LastWrite Runs

def size (side : OrderSide) (row : StreamRow) : Option ℚ :=
  match side with
  | .buy => row.buySize.map decimalToDouble
  | .sell => row.sellSize.map decimalToDouble

/-- The last row of a side at a price. -/
def lastRow (side : OrderSide) (price : ℚ) (rows : List StreamRow) : Option StreamRow :=
  (rows.filter fun row =>
    (size side row).isSome && decide (decimalToDouble row.price = price)).getLast?

/-- The price is listed with this quantity: its last row is not a removal and has that size. -/
def Listed (side : OrderSide) (rows : List StreamRow) (listed : OrderBookRow) : Prop :=
  ∃ row qty, lastRow side listed.price rows = some row ∧ size side row = some qty ∧
    ¬row.removes qty ∧ (listed.quantity : ℚ) = qty

structure Replays (rows : List StreamRow) (book : OrderBook) : Prop where
  bids : ∀ listed, listed ∈ book.bids ↔ Listed .buy rows listed
  asks : ∀ listed, listed ∈ book.asks ↔ Listed .sell rows listed
  descends : book.bids.Pairwise (fun a b => b.price < a.price)
  ascends : book.asks.Pairwise (fun a b => a.price < b.price)
  positive : ∀ listed ∈ book.bids ++ book.asks, 1 ≤ listed.quantity

/-- A row sets one of its two sizes, and sizes are whole numbers. -/
structure Valid (row : StreamRow) : Prop where
  oneSide : row.buySize.isSome = !row.sellSize.isSome
  integral : ∀ side, ∀ qty ∈ size side row, ∃ n : ℤ, qty = n

def eventRows : StreamEvent → List StreamRow
  | .message books _ => books.flatten
  | .reconnect => []

def isReconnect (_ : BookStream) : StreamEvent → Bool
  | .message _ _ => false
  | .reconnect => true

def bookStep (symbol : String) (s : BookStream) (e : StreamEvent) : BookStream :=
  (s.onEvent symbol e).1

def bookRecord (symbol : String) : Logged BookStream StreamEvent → StreamEvent →
    Logged BookStream StreamEvent :=
  Logged.record (bookStep symbol) isReconnect

def rowsOf (log : List StreamEvent) : List StreamRow := log.flatMap eventRows

/-- One callback for a message, with the replay of the rows since the last connect. -/
def DeliversReplay (symbol : String) (l : Logged BookStream StreamEvent) (e : StreamEvent) : Prop :=
  match e with
  | .message _ _ => ∃ book, (l.state.onEvent symbol e).2 = [book] ∧
      Replays (rowsOf (bookRecord symbol l e).log) book
  | .reconnect => (l.state.onEvent symbol e).2 = []

section Writes
variable {side : OrderSide} {rows : List StreamRow} {row : StreamRow}

/-- The write a row makes on a side. -/
def writeOf (side : OrderSide) (row : StreamRow) : Option (Write ℚ OrderBookRow) :=
  (size side row).map fun qty =>
    { key := decimalToDouble row.price
      value := if row.removes qty then none else some ⟨decimalToDouble row.price, truncate qty⟩ }

def writes (side : OrderSide) (rows : List StreamRow) : List (Write ℚ OrderBookRow) :=
  rows.filterMap (writeOf side)

theorem write_key {w : Write ℚ OrderBookRow} (made : writeOf side row = some w) :
    w.key = decimalToDouble row.price := by
  obtain ⟨qty, -, rfl⟩ := Option.map_eq_some_iff.mp made
  rfl

theorem last_row_append (price : ℚ) (rows : List StreamRow) (row : StreamRow) :
    lastRow side price (rows ++ [row]) =
      if (size side row).isSome = true ∧ decimalToDouble row.price = price then some row
      else lastRow side price rows := by
  unfold lastRow
  by_cases here : (size side row).isSome = true ∧ decimalToDouble row.price = price
  · simp [List.filter_append, here]
  · have outside : ((size side row).isSome && decide (decimalToDouble row.price = price)) = false := by
      simpa using here
    rw [if_neg here]
    simp [List.filter_append, outside]

/-- The last write under a price is that of the last row at the price. -/
theorem last_write_rows (price : ℚ) (rows : List StreamRow) :
    lastWrite price (writes side rows) = (lastRow side price rows).bind (writeOf side) := by
  induction rows using List.reverseRecOn with
  | nil => rfl
  | append_singleton rest row ih =>
    unfold writes at ih ⊢
    rw [List.filterMap_append, last_row_append]
    cases made : writeOf side row with
    | none =>
      have unset : size side row = none := Option.map_eq_none_iff.mp made
      simp [made, unset, ih]
    | some w =>
      have key := write_key made
      have set : (size side row).isSome = true := by
        obtain ⟨qty, here, -⟩ := Option.map_eq_some_iff.mp made
        simp [here]
      have single : List.filterMap (writeOf side) [row] = [w] := by simp [made]
      rw [single, last_write_append, key, ih]
      by_cases same : decimalToDouble row.price = price
      · simp [same, set, made]
      · simp [same]

theorem truncate_int (n : ℤ) : truncate (n : ℚ) = n := by
  simp [truncate]

/-- The values of the replayed writes are the listed rows. -/
theorem written_iff_listed (valid : ∀ row ∈ rows, Valid row) (listed : OrderBookRow) :
    (∃ w, lastWrite w.key (writes side rows) = some w ∧ w.value = some listed) ↔
      Listed side rows listed := by
  have whole : ∀ {price row}, lastRow side price rows = some row →
      ∀ qty ∈ size side row, (truncate qty : ℚ) = qty := by
    intro price row last qty here
    have member := (List.mem_filter.mp (List.mem_of_getLast? last)).1
    obtain ⟨n, rfl⟩ := (valid row member).integral side qty here
    rw [truncate_int]
  constructor
  · rintro ⟨w, last, value⟩
    rw [last_write_rows] at last
    obtain ⟨row, found, made⟩ := Option.bind_eq_some_iff.mp last
    have key := write_key made
    obtain ⟨qty, here, rfl⟩ := Option.map_eq_some_iff.mp made
    by_cases removed : row.removes qty
    · simp [removed] at value
    · obtain rfl : ⟨decimalToDouble row.price, truncate qty⟩ = listed := by simpa [removed] using value
      exact ⟨row, qty, found, here, removed, whole found qty here⟩
  · rintro ⟨row, qty, last, here, kept, quantity⟩
    have price : decimalToDouble row.price = listed.price := by
      have := (List.mem_filter.mp (List.mem_of_getLast? last)).2
      simp only [Bool.and_eq_true, decide_eq_true_eq] at this
      exact this.2
    have same : truncate qty = listed.quantity := by
      have := whole last qty here
      exact_mod_cast this.trans quantity.symm
    have made : writeOf side row = some ⟨listed.price, some listed⟩ := by
      simp [writeOf, here, kept, price, same]
    refine ⟨⟨listed.price, some listed⟩, ?_, rfl⟩
    rw [last_write_rows, last, Option.bind_some, made]

theorem listed_positive {listed : OrderBookRow} (isListed : Listed side rows listed) :
    1 ≤ listed.quantity := by
  obtain ⟨row, qty, last, here, kept, quantity⟩ := isListed
  have positive : 0 < qty := by
    have := not_lt.mp (fun small => kept (Or.inr small))
    linarith
  rw [← quantity] at positive
  exact_mod_cast positive

theorem writes_keyed : ∀ w ∈ writes side rows, ∀ listed ∈ w.value, listed.price = w.key := by
  intro w member listed value
  obtain ⟨row, -, made⟩ := List.mem_filterMap.mp member
  obtain ⟨qty, -, rfl⟩ := Option.map_eq_some_iff.mp made
  by_cases removed : row.removes qty
  · simp [removed] at value
  · obtain rfl : ⟨decimalToDouble row.price, truncate qty⟩ = listed := by simpa [removed] using value
    rfl

end Writes

section Maps
variable {s : BookStream} {row : StreamRow} {rows : List StreamRow}

instance : Std.TransCmp descending :=
  inferInstanceAs (Std.TransCmp fun a b : ℚ => compare b a)

instance : Std.LawfulEqCmp descending :=
  inferInstanceAs (Std.LawfulEqCmp fun a b : ℚ => compare b a)

theorem row_bids (s : BookStream) (row : StreamRow) :
    (s.applyRow row).bidsMap = replay s.bidsMap (writes .buy [row]) := by
  unfold BookStream.applyRow
  cases buy : row.buySize with
  | some text =>
    by_cases removed : row.removes (decimalToDouble text)
    · simp [writes, writeOf, size, buy, removed, replay, put]
    · simp [writes, writeOf, size, buy, removed, replay, put]
  | none =>
    have unset : writes .buy [row] = [] := by simp [writes, writeOf, size, buy]
    rw [unset]
    cases row.sellSize with
    | none => rfl
    | some text =>
      dsimp only
      split <;> rfl

theorem row_asks (s : BookStream) (valid : Valid row) :
    (s.applyRow row).asksMap = replay s.asksMap (writes .sell [row]) := by
  have oneSide := valid.oneSide
  unfold BookStream.applyRow
  cases sell : row.sellSize with
  | some text =>
    have buy : row.buySize = none := by simpa [sell] using oneSide
    simp only [buy]
    by_cases removed : row.removes (decimalToDouble text)
    · simp [writes, writeOf, size, sell, removed, replay, put]
    · simp [writes, writeOf, size, sell, removed, replay, put]
  | none =>
    have unset : writes .sell [row] = [] := by simp [writes, writeOf, size, sell]
    rw [unset]
    cases row.buySize with
    | none => rfl
    | some text =>
      dsimp only
      split <;> rfl

theorem writes_append (side : OrderSide) (first second : List StreamRow) :
    writes side (first ++ second) = writes side first ++ writes side second :=
  List.filterMap_append

structure Maps (s : BookStream) (rows : List StreamRow) : Prop where
  bids : s.bidsMap = replay ∅ (writes .buy rows)
  asks : s.asksMap = replay ∅ (writes .sell rows)

theorem maps_row (maps : Maps s rows) (valid : Valid row) : Maps (s.applyRow row) (rows ++ [row]) := by
  constructor
  · rw [row_bids, maps.bids, writes_append, replay_append]
  · rw [row_asks s valid, maps.asks, writes_append, replay_append]

theorem maps_rows {more : List StreamRow} (maps : Maps s rows) (valid : ∀ row ∈ more, Valid row) :
    Maps (more.foldl BookStream.applyRow s) (rows ++ more) := by
  induction more generalizing s rows with
  | nil => simpa using maps
  | cons row rest ih =>
    have first := maps_row maps (valid row List.mem_cons_self)
    have later := ih first (fun r member => valid r (List.mem_cons_of_mem row member))
    rwa [List.append_assoc] at later

/-- The snapshot of maps that hold the replay. -/
theorem snapshot_replays (maps : Maps s rows) (valid : ∀ row ∈ rows, Valid row) (symbol : String)
    (now : ℤ) : Replays rows (s.snapshot symbol now) := by
  have bids : ∀ listed, listed ∈ (s.snapshot symbol now).bids ↔ Listed .buy rows listed := by
    intro listed
    unfold BookStream.snapshot
    rw [maps.bids, mem_replay]
    exact written_iff_listed valid listed
  have asks : ∀ listed, listed ∈ (s.snapshot symbol now).asks ↔ Listed .sell rows listed := by
    intro listed
    unfold BookStream.snapshot
    rw [maps.asks, mem_replay]
    exact written_iff_listed valid listed
  refine ⟨bids, asks, ?_, ?_, ?_⟩
  · unfold BookStream.snapshot
    rw [maps.bids]
    refine (replay_ordered writes_keyed).imp ?_
    intro a b ordered
    exact compare_lt_iff_lt.mp ordered
  · unfold BookStream.snapshot
    rw [maps.asks]
    refine (replay_ordered writes_keyed).imp ?_
    intro a b ordered
    exact compare_lt_iff_lt.mp ordered
  · intro listed member
    rcases List.mem_append.mp member with bid | ask
    · exact listed_positive ((bids listed).mp bid)
    · exact listed_positive ((asks listed).mp ask)

end Maps

section Run
variable {symbol : String} {l : Logged BookStream StreamEvent} {e : StreamEvent}

structure Tracks (l : Logged BookStream StreamEvent) : Prop where
  maps : Maps l.state (rowsOf l.log)
  valid : ∀ row ∈ rowsOf l.log, Valid row

theorem message_rows (books : List (List StreamRow)) (now : ℤ) :
    rowsOf (bookRecord symbol l (.message books now)).log = rowsOf l.log ++ books.flatten := by
  simp [bookRecord, Logged.record, isReconnect, rowsOf, eventRows]

theorem message_state (books : List (List StreamRow)) (now : ℤ) :
    (bookRecord symbol l (.message books now)).state =
      books.flatten.foldl BookStream.applyRow l.state := by
  simp only [bookRecord, Logged.record, bookStep, BookStream.onEvent, List.foldl_flatten]

theorem tracks_step (tracks : Tracks l) (valid : ∀ row ∈ eventRows e, Valid row) :
    Tracks (bookRecord symbol l e) := by
  cases e with
  | message books now =>
    constructor
    · rw [message_state, message_rows]
      exact maps_rows tracks.maps valid
    · rw [message_rows]
      intro row member
      rcases List.mem_append.mp member with old | new
      · exact tracks.valid row old
      · exact valid row new
  | reconnect => exact ⟨⟨rfl, rfl⟩, fun row none => by cases none⟩

theorem delivers_step (tracks : Tracks l) (valid : ∀ row ∈ eventRows e, Valid row) :
    DeliversReplay symbol l e := by
  cases e with
  | message books now =>
    obtain ⟨maps, all⟩ : Tracks (bookRecord symbol l (.message books now)) := tracks_step tracks valid
    refine ⟨(bookRecord symbol l (.message books now)).state.snapshot symbol now, rfl, ?_⟩
    exact snapshot_replays maps all symbol now
  | reconnect => rfl

/-- For every sequence of messages and reconnects with valid rows, each message runs the
    callback once, with the replay of the rows since the last connect. -/
theorem delivered_book_replays_stream (symbol : String) (events : List StreamEvent)
    (valid : ∀ e ∈ events, ∀ row ∈ eventRows e, Valid row) :
    Along (bookRecord symbol) (DeliversReplay symbol) ⟨{}, []⟩ events := by
  have rows : Along (bookRecord symbol) (fun _ e => ∀ row ∈ eventRows e, Valid row) ⟨{}, []⟩ events :=
    (along_iff_forall _ _ events).mpr valid
  exact along_of_invariant (I := Tracks) (fun l e tracks here => delivers_step tracks here)
    (fun l e tracks here => tracks_step tracks here) ⟨⟨rfl, rfl⟩, fun row none => by cases none⟩ rows

end Run

def buyRow (price size : String) (action : RowAction) : StreamRow := ⟨price, some size, none, action⟩
def sellRow (price size : String) (action : RowAction) : StreamRow := ⟨price, none, some size, action⟩

/-- Two bids, one of them removed and the other changed, an ask, and a new connection. -/
def smallStream : List StreamEvent :=
  [.message [[buyRow "99" "5" .add, sellRow "101.5" "2" .add], [buyRow "100" "7" .add]] 1,
    .message [[buyRow "100.0" "0" .update, buyRow "99" "6" .update]] 2,
    .reconnect,
    .message [[buyRow "98" "1" .add]] 3]

theorem small_stream_replayed :
    Along (bookRecord "Si-6.26@FORTS") (DeliversReplay "Si-6.26@FORTS") ⟨{}, []⟩ smallStream ∧
      ((outputs (BookStream.onEvent "Si-6.26@FORTS") {} smallStream).map
        (List.map (fun book => (book.bids, book.asks)))) =
        [[([⟨100, 7⟩, ⟨99, 5⟩], [⟨203 / 2, 2⟩])], [([⟨99, 6⟩], [⟨203 / 2, 2⟩])], [],
          [([⟨98, 1⟩], [])]] := by
  refine ⟨delivered_book_replays_stream _ smallStream ?_, by decide +kernel⟩
  have buys : ∀ price text action, (∃ n : ℤ, decimalToDouble text = n) →
      Valid (buyRow price text action) := by
    intro price text action whole
    refine ⟨rfl, ?_⟩
    intro side qty here
    cases side with
    | buy =>
      cases here
      exact whole
    | sell => cases here
  have sells : ∀ price text action, (∃ n : ℤ, decimalToDouble text = n) →
      Valid (sellRow price text action) := by
    intro price text action whole
    refine ⟨rfl, ?_⟩
    intro side qty here
    cases side with
    | buy => cases here
    | sell =>
      cases here
      exact whole
  simp only [smallStream, eventRows, List.forall_mem_cons, List.flatten_cons, List.flatten_nil,
    List.cons_append, List.nil_append, List.not_mem_nil, false_imp_iff, implies_true, and_true,
    true_and]
  exact ⟨⟨buys _ _ _ ⟨5, by decide +kernel⟩, sells _ _ _ ⟨2, by decide +kernel⟩,
      buys _ _ _ ⟨7, by decide +kernel⟩⟩,
    ⟨buys _ _ _ ⟨0, by decide +kernel⟩, buys _ _ _ ⟨6, by decide +kernel⟩⟩,
    buys _ _ _ ⟨1, by decide +kernel⟩⟩

end FinamBookReplay
