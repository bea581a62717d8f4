import FinamTradebot.LastWrite
import FinamTradebot.OrderBookState
import FinamTradebot.OrderClient
import Mathlib.Order.Std

/-!
market_data/market_data_client.cpp: the thread of `subscribe_order_book`, which keeps the
two sides of the book between the messages of the stream, and `on_book` of
`subscribe_book_events`, which turns snapshots into level events. A `std::map` is a tree
map with the comparison of its order; back-off and log lines are left out.
-/
namespace FinamMarketData
open FinamInterfaces FinamOrderBook FinamOrderClient

structure OrderBookRow where
  price : ℚ
  quantity : ℤ
  deriving DecidableEq, Repr

structure OrderBook where
  symbol : Symbol
  asks : List OrderBookRow
  bids : List OrderBookRow
  ts : ℤ
  deriving DecidableEq, Repr

inductive RowAction where
  | unspecified | remove | add | update | other (code : ℤ)
  deriving DecidableEq, Repr

/-- The prices and sizes of a row are decimal texts; a size that is not set is `none`. -/
structure StreamRow where
  price : String
  buySize : Option String
  sellSize : Option String
  action : RowAction

def decimalToDouble (text : String) : ℚ := (stod text).getD 0

def symbolFromString (s : String) : Symbol :=
  if '@' ∈ s.toList then
    let reversed := s.toList.reverse
    ⟨String.ofList (reversed.dropWhile (· ≠ '@')).tail.reverse,
      String.ofList (reversed.takeWhile (· ≠ '@')).reverse⟩
  else ⟨s, ""⟩

/-- The comparison of `std::greater`. -/
def descending (a b : ℚ) : Ordering := compare b a

abbrev BidsMap := Std.TreeMap ℚ OrderBookRow descending
abbrev AsksMap := Std.TreeMap ℚ OrderBookRow compare

structure BookStream where
  bidsMap : BidsMap := ∅
  asksMap : AsksMap := ∅

def StreamRow.removes (row : StreamRow) (qty : ℚ) : Prop :=
  row.action = .remove ∨ qty < 1 / 1000000000

instance (row : StreamRow) (qty : ℚ) : Decidable (row.removes qty) :=
  inferInstanceAs (Decidable (_ ∨ _))

def BookStream.applyRow (s : BookStream) (row : StreamRow) : BookStream :=
  let price := decimalToDouble row.price
  match row.buySize, row.sellSize with
  | some size, _ =>
    let qty := decimalToDouble size
    if row.removes qty then { s with bidsMap := s.bidsMap.erase price }
    else { s with bidsMap := s.bidsMap.insert price ⟨price, truncate qty⟩ }
  | none, some size =>
    let qty := decimalToDouble size
    if row.removes qty then { s with asksMap := s.asksMap.erase price }
    else { s with asksMap := s.asksMap.insert price ⟨price, truncate qty⟩ }
  | none, none => s

def BookStream.snapshot (s : BookStream) (symbol : String) (now : ℤ) : OrderBook :=
  { ts := now
    symbol := symbolFromString symbol
    bids := s.bidsMap.toList.map Prod.snd
    asks := s.asksMap.toList.map Prod.snd }

/-- What the stream thread sees: a message with the rows of each of its order books, or
    the end of a stream, after which it connects again. -/
inductive StreamEvent where
  | message (books : List (List StreamRow)) (now : ℤ)
  | reconnect

/-- The books are those passed to the callback. -/
def BookStream.onEvent (symbol : String) (s : BookStream) :
    StreamEvent → BookStream × List OrderBook
  | .message books now =>
    let s := books.foldl (fun s rows => rows.foldl BookStream.applyRow s) s
    (s, [s.snapshot symbol now])
  | .reconnect => ({}, [])

structure PrevBook where
  bids : List OrderBookRow := []
  asks : List OrderBookRow := []

def levelQty (rows : List OrderBookRow) (k : ℕ) : ℚ :=
  match rows[k]? with
  | some row => row.quantity
  | none => 0

def levelPrice (prev : PrevBook) (book : OrderBook) (k : ℕ) : ℚ :=
  match book.bids[k]?, book.asks[k]?, prev.bids[k]?, prev.asks[k]? with
  | some row, _, _, _ => row.price
  | none, some row, _, _ => row.price
  | none, none, some row, _ => row.price
  | none, none, none, some row => row.price
  | none, none, none, none => 0

def levelEvent (prev : PrevBook) (book : OrderBook) (k : ℕ) : Option BookLevelEvent :=
  if levelQty prev.bids k = levelQty book.bids k ∧ levelQty prev.asks k = levelQty book.asks k then none
  else some
    { level := k
      price := levelPrice prev book k
      oldBidSize := levelQty prev.bids k
      newBidSize := levelQty book.bids k
      oldAskSize := levelQty prev.asks k
      newAskSize := levelQty book.asks k
      ts := book.ts }

def onBook (prev : PrevBook) (book : OrderBook) : PrevBook × List BookLevelEvent :=
  (⟨book.bids, book.asks⟩, (List.range kBookLevels).filterMap (levelEvent prev book))

end FinamMarketData
