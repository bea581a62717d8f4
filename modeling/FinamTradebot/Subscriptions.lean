import FinamTradebot.Backoff
import FinamTradebot.BookDeltas
import FinamTradebot.BookReplay
import FinamTradebot.StreamLoop

/-!
The stream threads of market_data/market_data_client.cpp and of order/order_client.cpp.
Every `subscribe_` function starts a thread with the same loop around its own messages; the
loop is the general one of a stream thread, with the delays of a default
`ExponentialBackoff`. A `SubscriptionHandle` sets the flag of its thread. The order stream
is the gated one, and keeps out of the maintenance window of core/maintenance.hpp.
-/
namespace FinamSubscriptions
open FinamInterfaces FinamOrderBook FinamOrderClient FinamMarketData FinamBackoff FinamBookReplay
open FinamBookDeltas StreamLoop Runs

structure ProtoTimestamp where
  seconds : ℤ
  nanos : ℤ
  deriving DecidableEq, Repr

def tsFromProto (ts : ProtoTimestamp) : ℤ := ts.seconds * nsPerSec + ts.nanos

/-- The delay `wait` draws for `attempt_`. -/
def backoffDelay (attempt : ℕ) (draw : Draw) : ℤ :=
  match computeDelay Rounding.exact {} attempt draw with
  | .ok delay => delay
  | .error _ => 0

section Threads
variable {M H O : Type}

/-- The loop that the `subscribe_` functions share. -/
def subscription (start : H) (handle : H → M → Option (H × List O)) (ended : H → H) :
    Program M H O Unit Draw :=
  { start := start
    handle := handle
    ended := ended
    gated := false
    active := fun _ => false
    delay := backoffDelay
    tick := BackoffConfig.tick {} }

structure MaintenanceConfig where
  startUtcMin : ℤ := 120
  endUtcMin : ℤ := 195
  deriving DecidableEq, Repr

def MaintenanceConfig.inWindow (cfg : MaintenanceConfig) (utcMin : ℤ) : Bool :=
  decide (cfg.startUtcMin ≤ utcMin ∧ utcMin < cfg.endUtcMin)

def MaintenanceConfig.isActive (cfg : MaintenanceConfig) (now : ℤ) : Bool :=
  cfg.inWindow (minuteOfDay now)

end Threads

section Quotes

structure ProtoQuote where
  symbol : String
  bid : String
  ask : String
  last : String
  lastSize : String
  timestamp : ProtoTimestamp
  deriving DecidableEq, Repr

/-- The code of the error is `none` where no error is set. -/
structure QuoteResponse where
  errorCode : Option ℤ
  quote : List ProtoQuote
  deriving DecidableEq, Repr

def quoteOf (q : ProtoQuote) : Quote :=
  { symbol := symbolFromString q.symbol
    bid := decimalToDouble q.bid
    ask := decimalToDouble q.ask
    last := decimalToDouble q.last
    volume := truncate (decimalToDouble q.lastSize)
    ts := tsFromProto q.timestamp }

def onQuotes (_ : Unit) (resp : QuoteResponse) : Option (Unit × List Quote) :=
  match resp.errorCode with
  | none => some ((), resp.quote.map quoteOf)
  | some code => if code ≠ 0 then none else some ((), resp.quote.map quoteOf)

def subscribeQuotes : Program QuoteResponse Unit Quote Unit Draw := subscription () onQuotes id

end Quotes

section Bars

structure ProtoBar where
  opening : String
  high : String
  low : String
  close : String
  volume : String
  timestamp : ProtoTimestamp
  deriving DecidableEq, Repr

def barOf (symbol : Symbol) (timeframe : String) (b : ProtoBar) : Bar :=
  { symbol := symbol
    timeframe := timeframe
    opening := decimalToDouble b.opening
    high := decimalToDouble b.high
    low := decimalToDouble b.low
    close := decimalToDouble b.close
    volume := truncate (decimalToDouble b.volume)
    ts := tsFromProto b.timestamp }

def subscribeBars (symbol : Symbol) (timeframe : String) :
    Program (List ProtoBar) Unit Bar Unit Draw :=
  subscription ()
    (fun _ bars => some ((), bars.map (barOf (symbolFromString symbol.toString) timeframe))) id

end Bars

section Trades

structure ProtoTrade where
  price : String
  size : String
  side : ProtoSide
  timestamp : ProtoTimestamp
  deriving DecidableEq, Repr

/-- A trade without a side is a purchase if its price is not below that of the trade before. -/
def tradeOf (lastPrice : ℚ) (t : ProtoTrade) : TradeEvent :=
  { price := decimalToDouble t.price
    volume := decimalToDouble t.size
    isBuy :=
      match t.side with
      | .buy => true
      | .sell => false
      | .other _ => decide (lastPrice ≤ decimalToDouble t.price)
    ts := tsFromProto t.timestamp }

def onTrades (lastPrice : ℚ) : List ProtoTrade → ℚ × List TradeEvent
  | [] => (lastPrice, [])
  | t :: rest =>
    ((onTrades (decimalToDouble t.price) rest).1,
      tradeOf lastPrice t :: (onTrades (decimalToDouble t.price) rest).2)

def subscribeLatestTrades : Program (List ProtoTrade) ℚ TradeEvent Unit Draw :=
  subscription 0 (fun lastPrice trades => some (onTrades lastPrice trades)) id

end Trades

section Books

structure BookResponse where
  books : List (List StreamRow)
  now : ℤ

def onBookResponse (symbol : String) (s : BookStream) (resp : BookResponse) :
    BookStream × List OrderBook :=
  s.onEvent symbol (.message resp.books resp.now)

def subscribeOrderBook (symbol : Symbol) : Program BookResponse BookStream OrderBook Unit Draw :=
  subscription {} (fun s resp => some (onBookResponse symbol.toString s resp))
    (fun s => (s.onEvent symbol.toString .reconnect).1)

def onBooks (prev : PrevBook) : List OrderBook → PrevBook × List BookLevelEvent
  | [] => (prev, [])
  | book :: rest =>
    ((onBooks (onBook prev book).1 rest).1,
      (onBook prev book).2 ++ (onBooks (onBook prev book).1 rest).2)

/-- `subscribe_book_events` subscribes to the order book with `on_book` as its callback; the
    book before is kept over reconnects, the maps are not. -/
def subscribeBookEvents (symbol : Symbol) :
    Program BookResponse (BookStream × PrevBook) BookLevelEvent Unit Draw :=
  subscription ({}, {})
    (fun s resp =>
      let delivered := onBookResponse symbol.toString s.1 resp
      some ((delivered.1, (onBooks s.2 delivered.2).1), (onBooks s.2 delivered.2).2))
    (fun s => ((s.1.onEvent symbol.toString .reconnect).1, s.2))

end Books

section Orders

/-- The thread of `run_order_stream`. Its calls are the reports it hands to `upsert`, each
    with the time of the call. -/
def runOrderStream : Program (List (OrderReport × ℤ)) Unit (OrderReport × ℤ) ℤ Draw :=
  { start := ()
    handle := fun _ reports => some ((), reports)
    ended := id
    gated := true
    active := MaintenanceConfig.isActive {}
    delay := backoffDelay
    tick := BackoffConfig.tick {} }

end Orders

section Delays

theorem middle_default (n : ℕ) : 500 ≤ middle Rounding.exact {} n ∧
    middle Rounding.exact {} n ≤ 30000 := by
  have power : (1 : ℚ) ≤ 2 ^ min n 6 := one_le_pow₀ (by norm_num)
  constructor
  · refine le_min ?_ (by norm_num [Rounding.exact])
    simp only [Rounding.exact, id]
    push_cast
    linarith
  · exact (min_le_right _ _).trans (by norm_num [Rounding.exact])

theorem backoff_delay_envelope (n : ℕ) (draw : Draw) :
    InEnvelope Rounding.exact {} n (backoffDelay n draw) := by
  have high := (drawn_within (R := Rounding.exact) default_valid n draw).2.2
  have small : drawn Rounding.exact {} n draw < 2 ^ 63 := by
    refine high.trans_lt ?_
    have cap := (middle_default n).2
    simp only [Rounding.exact, id] at cap ⊢
    norm_num
    linarith
  have computed := compute_delay_eq (R := Rounding.exact) default_valid n draw
  rw [if_pos small] at computed
  rw [backoffDelay, computed]
  exact in_envelope default_valid n draw

theorem backoff_delay_ge (n : ℕ) (draw : Draw) : 375 ≤ backoffDelay n draw := by
  have low := (backoff_delay_envelope n draw).1
  refine le_trans (Int.le_floor.mpr ?_) low
  have base := (middle_default n).1
  simp only [Rounding.exact, id] at base ⊢
  norm_num
  linarith

end Delays

section Backoff
variable {M H O C : Type}

/-- Every wait lies in the jitter around the delay for the fruitless connections before it. -/
def Enveloped : List (Event M C) → Prop
  | [] => True
  | .waited delay :: earlier =>
    InEnvelope Rounding.exact {} (fruitless earlier) delay ∧ Enveloped earlier
  | _ :: earlier => Enveloped earlier

theorem enveloped_of_drawn {p : Program M H O C Draw} (delays : p.delay = backoffDelay)
    {trace : List (Event M C)} (drawn : Drawn p trace) : Enveloped trace := by
  induction trace with
  | nil => trivial
  | cons e earlier ih =>
    cases e with
    | waited delay =>
      obtain ⟨⟨draw, rfl⟩, before⟩ := drawn
      exact ⟨delays ▸ backoff_delay_envelope (fruitless earlier) draw, ih before⟩
    | _ => exact ih drawn

/-- `attempt_` counts the waits since the last handled message, every delay is that of its
    attempt, and each connection after the first costs 375 ms of sleep, less one for each
    reading of the clock inside the window. -/
structure BacksOff (p : Program M H O C Draw) (s : Loop M H O C) : Prop where
  attempt : s.attempt = fruitless s.trace
  delays : Enveloped s.trace
  paced : 375 * (total Event.opens s.trace : ℕ) ≤
    total Event.sleepTime s.trace + 375 * (total (Event.holds p) s.trace + 1 : ℕ)

theorem backs_off {p : Program M H O C Draw} (delays : p.delay = backoffDelay)
    (tick : p.tick = BackoffConfig.tick {}) (acts : List (Action M C Draw)) :
    BacksOff p (run p.step p.init acts) := by
  have positive : 0 ≤ p.tick := by
    rw [tick]
    decide
  refine ⟨attempt_eq_fruitless acts, enveloped_of_drawn delays (waits_drawn acts), ?_⟩
  exact reconnects_paced (by norm_num) (fun n draw => delays ▸ backoff_delay_ge n draw) positive acts

/-- Whatever the messages and their handler are, and wherever a cancellation falls, the
    thread of a subscription reconnects by the schedule of its back-off. -/
theorem subscription_backs_off (start : H) (handle : H → M → Option (H × List O)) (ended : H → H)
    (acts : List (Action M Unit Draw)) :
    let p := subscription start handle ended
    BacksOff p (run p.step p.init acts) ∧
      total (Event.holds p) (run p.step p.init acts).trace = 0 :=
  ⟨backs_off rfl rfl acts, (free_reached rfl acts).2⟩

end Backoff

section Cancel
variable {M H O C : Type}

/-- What a thread still does after its flag was set: at most one connection, message or
    slice of a delay, and the naps given; after so many of its steps it is over. -/
structure Stops (steps naps : ℕ) (s next : Loop M H O C) (threads : ℕ) : Prop where
  work : total Event.work next.trace ≤ total Event.work s.trace + 1
  naps : total Event.naps next.trace ≤ total Event.naps s.trace + naps
  ended : steps ≤ threads → next.pc = .done

theorem stops {p : Program M H O C Draw} {s : Loop M H O C} {steps naps : ℕ}
    (short : s.pc.rank ≤ steps) (few : s.pc.naps ≤ naps) (acts : List (Action M C Draw)) :
    Stops steps naps s (run p.step s (.cancel :: acts)) (acts.countP Action.isThread) := by
  obtain ⟨rank, work, naps⟩ := cancelled_run (p := p) s acts
  have one := work_le_one s.pc
  refine ⟨by omega, by omega, ?_⟩
  intro enough
  exact done_of_rank (by omega)

/-- A cancelled subscription ends within four steps of its thread, wherever the thread is
    when the flag is set. -/
theorem cancelled_subscription_stops (start : H) (handle : H → M → Option (H × List O))
    (ended : H → H) (before after : List (Action M Unit Draw)) :
    let p := subscription start handle ended
    Stops 4 0 (run p.step p.init before) (run p.step p.init (before ++ .cancel :: after))
      (after.countP Action.isThread) := by
  intro p
  have free := (free_reached (p := p) rfl before).1
  rw [run_append]
  exact stops (rank_le_four free) (naps_eq_zero free).le after

/-- `shutdown` sets the flag of the order stream: the thread may sleep through one poll of the
    maintenance window, connects or handles at most one message, and ends. -/
theorem shut_down_order_stream_stops (before after : List (Action (List (OrderReport × ℤ)) ℤ Draw)) :
    let p := runOrderStream
    Stops 6 1 (run p.step p.init before) (run p.step p.init (before ++ .cancel :: after))
      (after.countP Action.isThread) := by
  intro p
  rw [run_append]
  exact stops (rank_le_six _) (naps_le_one _) after

end Cancel

section Handled
variable {M H O C : Type}

/-- The messages a thread has handled, the first one first. -/
def handled : List (Event M C) → List M
  | [] => []
  | .message m :: earlier => handled earlier ++ [m]
  | _ :: earlier => handled earlier

end Handled

section LatestTrades

theorem on_trades_append (lastPrice : ℚ) (first later : List ProtoTrade) :
    onTrades lastPrice (first ++ later) =
      ((onTrades (onTrades lastPrice first).1 later).1,
        (onTrades lastPrice first).2 ++ (onTrades (onTrades lastPrice first).1 later).2) := by
  induction first generalizing lastPrice with
  | nil => rfl
  | cons t rest ih => simp [onTrades, ih]

theorem on_trades_eq_zip (lastPrice : ℚ) (trades : List ProtoTrade) :
    (onTrades lastPrice trades).2 =
      List.zipWith tradeOf (lastPrice :: trades.map fun t => decimalToDouble t.price) trades := by
  induction trades generalizing lastPrice with
  | nil => rfl
  | cons t rest ih => simp [onTrades, ih]

theorem replay_trades (trace : List (Event (List ProtoTrade) Unit)) :
    replay subscribeLatestTrades trace = onTrades 0 (handled trace).flatten := by
  induction trace with
  | nil => rfl
  | cons e earlier ih =>
    cases e with
    | message trades =>
      have absorbed : replay subscribeLatestTrades (.message trades :: earlier) =
          ((onTrades (replay subscribeLatestTrades earlier).1 trades).1,
            (replay subscribeLatestTrades earlier).2 ++
              (onTrades (replay subscribeLatestTrades earlier).1 trades).2) := rfl
      rw [absorbed, ih]
      simp [handled, on_trades_append]
    | _ => exact ih

/-- The callback gets every trade of the messages handled, in order and once, however the
    server cuts them into messages and connections. A trade without a side is compared with
    the trade before it, also over a reconnect; the first one of all with 0. -/
theorem latest_trades_delivered (acts : List (Action (List ProtoTrade) Unit Draw)) :
    let s := run subscribeLatestTrades.step subscribeLatestTrades.init acts
    s.out = List.zipWith tradeOf
      (0 :: (handled s.trace).flatten.map fun t => decimalToDouble t.price) (handled s.trace).flatten := by
  intro s
  have held : s.out = (replay subscribeLatestTrades s.trace).2 :=
    congrArg Prod.snd (held_eq_replay (p := subscribeLatestTrades) acts)
  rw [held, replay_trades, on_trades_eq_zip]

end LatestTrades

section OrderStream

theorem replay_reports (trace : List (Event (List (OrderReport × ℤ)) ℤ)) :
    (replay runOrderStream trace).2 = (handled trace).flatten := by
  induction trace with
  | nil => rfl
  | cons e earlier ih =>
    cases e with
    | message reports =>
      have absorbed : replay runOrderStream (.message reports :: earlier) =
          ((), (replay runOrderStream earlier).2 ++ reports) := rfl
      rw [absorbed, ih]
      simp [handled]
    | _ => exact ih

/-- In every interleaving the order stream connects only right after a reading of the clock
    outside the maintenance window, keeps to its back-off, and hands on every report it has
    read, in order and once. -/
theorem order_stream_runs (acts : List (Action (List (OrderReport × ℤ)) ℤ Draw)) :
    let s := run runOrderStream.step runOrderStream.init acts
    OpenedOutside runOrderStream s.trace ∧ BacksOff runOrderStream s ∧
      s.out = (handled s.trace).flatten := by
  intro s
  have held : s.out = (replay runOrderStream s.trace).2 :=
    congrArg Prod.snd (held_eq_replay (p := runOrderStream) acts)
  exact ⟨opened_outside rfl acts, backs_off rfl rfl acts, held.trans (replay_reports s.trace)⟩

end OrderStream

section Maintenance

/-- A nap of `poll_interval` between two readings of the clock: it takes half a minute at
    least, and not until the next day's window. -/
def Napped (first later : ℤ) : Prop :=
  first + 30 * nsPerSec ≤ later ∧ later ≤ first + 79200 * nsPerSec

def secondOfDay (now : ℤ) : ℤ := (now.tdiv nsPerSec).tmod 86400

theorem active_seconds {now : ℤ} (active : MaintenanceConfig.isActive {} now = true) :
    7200 ≤ secondOfDay now ∧ secondOfDay now < 11700 := by
  have minutes : 120 ≤ (secondOfDay now).tdiv 60 ∧ (secondOfDay now).tdiv 60 < 195 :=
    of_decide_eq_true active
  have nonneg : 0 ≤ secondOfDay now := by
    by_contra negative
    have small : (-secondOfDay now).tdiv 60 = -secondOfDay now / 60 :=
      Int.tdiv_eq_ediv_of_nonneg (by omega)
    rw [Int.neg_tdiv] at small
    omega
  rw [Int.tdiv_eq_ediv_of_nonneg nonneg] at minutes
  omega

theorem seconds_eq {now : ℤ} (active : MaintenanceConfig.isActive {} now = true) :
    0 ≤ now ∧ secondOfDay now = now / nsPerSec % 86400 := by
  have inside := active_seconds active
  have nonneg : 0 ≤ now := by
    by_contra negative
    have mirrored : secondOfDay (-now) = -secondOfDay now := by
      simp only [secondOfDay, Int.neg_tdiv, Int.neg_tmod]
    have positive : 0 ≤ secondOfDay (-now) :=
      Int.tmod_nonneg 86400 (Int.tdiv_nonneg (by omega) (by decide))
    omega
  refine ⟨nonneg, ?_⟩
  rw [secondOfDay, Int.tdiv_eq_ediv_of_nonneg nonneg,
    Int.tmod_eq_emod_of_nonneg (Int.ediv_nonneg nonneg (by decide))]

/-- The half minutes of the window that lie behind a reading inside it. -/
def halfMinutes (now : ℤ) : ℕ := ((secondOfDay now - 7200) / 30).toNat

theorem half_minutes_lt {now : ℤ} (active : MaintenanceConfig.isActive {} now = true) :
    halfMinutes now < 150 := by
  have inside := active_seconds active
  unfold halfMinutes
  omega

theorem nap_progress {first later : ℤ} (napped : Napped first later)
    (before : MaintenanceConfig.isActive {} first = true)
    (after : MaintenanceConfig.isActive {} later = true) : halfMinutes first < halfMinutes later := by
  have insideFirst := active_seconds before
  have insideLater := active_seconds after
  have firstEq := (seconds_eq before).2
  have laterEq := (seconds_eq after).2
  obtain ⟨shortest, longest⟩ := napped
  have apart : secondOfDay first + 30 ≤ secondOfDay later := by
    rw [firstEq] at insideFirst ⊢
    rw [laterEq] at insideLater ⊢
    simp only [nsPerSec] at *
    omega
  unfold halfMinutes
  omega

/-- The order stream is not held longer than the window lasts: while the naps between two
    readings of the clock take their half minute, a hold ends after 150 of them, the half
    minutes from 05:00 to 06:15 in Moscow. -/
theorem maintenance_hold_bounded (acts : List (Action (List (OrderReport × ℤ)) ℤ Draw))
    (paced : Paced Napped (run runOrderStream.step runOrderStream.init acts).trace) :
    napsInRow (run runOrderStream.step runOrderStream.init acts).trace ≤ 150 :=
  naps_bounded rfl (fun _ active => half_minutes_lt active)
    (fun _ _ napped before after => nap_progress napped before after) acts paced

/-- The thread starts at 02:00 and reads the clock again after one nap. -/
def startedAtTwo : List (Action (List (OrderReport × ℤ)) ℤ Draw) :=
  [7200, 7200, 7200, 7200, 7230].map fun second =>
    .thread ⟨none, second * nsPerSec, .of 400⟩

theorem one_nap_held :
    let s := run runOrderStream.step runOrderStream.init startedAtTwo
    s.pc = .poll ∧ napsInRow s.trace = 1 ∧ napsInRow s.trace ≤ 150 := by
  intro s
  have reached : s.trace = [.checked (7230 * nsPerSec), .napped, .checked (7200 * nsPerSec)] := rfl
  refine ⟨by decide +kernel, by rw [reached]; rfl, maintenance_hold_bounded _ ?_⟩
  have napped : Napped (7200 * nsPerSec) (7230 * nsPerSec) := ⟨by decide, by decide⟩
  refine ⟨?_, ?_, trivial⟩
  · intro _ first read
    cases read
    exact napped
  · intro none
    cases none

end Maintenance

section BookEvents
variable {symbol : Symbol}

abbrev BookTrace := List (Event BookResponse Unit)

/-- The rows read since the stream was last given up. -/
def rowsSinceEnd : BookTrace → List StreamRow
  | [] => []
  | .message resp :: earlier => rowsSinceEnd earlier ++ resp.books.flatten
  | .closed :: _ => []
  | _ :: earlier => rowsSinceEnd earlier

/-- The rows behind the last book that was delivered. -/
def rowsDelivered : BookTrace → List StreamRow
  | [] => []
  | .message resp :: earlier => rowsSinceEnd (.message resp :: earlier)
  | _ :: earlier => rowsDelivered earlier

def ValidRows (trace : BookTrace) : Prop :=
  ∀ resp ∈ handled trace, ∀ row ∈ resp.books.flatten, Valid row

/-- What the thread keeps: maps that replay the rows since the last end, the book delivered
    last, and events that bring a reader from nothing to the top of it. -/
structure Follows (trace : BookTrace) (held : (BookStream × PrevBook) × List BookLevelEvent) : Prop where
  maps : Maps held.1.1 (rowsSinceEnd trace)
  valid : ∀ row ∈ rowsSinceEnd trace, Valid row
  delivered : ∃ book, Replays (rowsDelivered trace) book ∧ held.1.2 = ⟨book.bids, book.asks⟩
  synced : Reader.Synced ⟨held.1.2, run setLevel (fun _ => (0, 0)) held.2⟩

theorem valid_rows_tail {e : Event BookResponse Unit} {earlier : BookTrace}
    (valid : ValidRows (e :: earlier)) : ValidRows earlier := by
  intro resp member
  refine valid resp ?_
  cases e with
  | message m => exact List.mem_append_left _ member
  | _ => exact member

theorem replays_nothing : Replays [] ⟨⟨"", ""⟩, [], [], 0⟩ := by
  have none : ∀ side listed, ¬Listed side [] listed := by
    rintro side listed ⟨row, qty, found, -⟩
    cases found
  refine ⟨?_, ?_, List.Pairwise.nil, List.Pairwise.nil, ?_⟩
  · intro listed
    simp [none]
  · intro listed
    simp [none]
  · intro listed member
    cases member

theorem absorb_response (symbol : Symbol) (resp : BookResponse)
    (held : (BookStream × PrevBook) × List BookLevelEvent) :
    let stream := (onBookResponse symbol.toString held.1.1 resp).1
    let events := onBook held.1.2 (stream.snapshot symbol.toString resp.now)
    (subscribeBookEvents symbol).absorb (.message resp) held =
      ((stream, events.1), held.2 ++ events.2) := by
  intro stream events
  have single : held.2 ++ (events.2 ++ []) = held.2 ++ events.2 := by
    rw [List.append_nil]
  rw [← single]
  rfl

theorem follows_message (symbol : Symbol) {earlier : BookTrace} {resp : BookResponse}
    {held : (BookStream × PrevBook) × List BookLevelEvent} (follows : Follows earlier held)
    (valid : ∀ row ∈ resp.books.flatten, Valid row) :
    Follows (.message resp :: earlier) ((subscribeBookEvents symbol).absorb (.message resp) held) := by
  obtain ⟨maps, all, -, synced⟩ := follows
  have maps : Maps (onBookResponse symbol.toString held.1.1 resp).1
      (rowsSinceEnd (.message resp :: earlier)) := by
    simp only [onBookResponse, BookStream.onEvent, rowsSinceEnd]
    rw [← List.foldl_flatten]
    exact maps_rows maps valid
  have all : ∀ row ∈ rowsSinceEnd (.message resp :: earlier), Valid row := by
    intro row member
    rcases List.mem_append.mp member with old | new
    · exact all row old
    · exact valid row new
  rw [absorb_response]
  refine ⟨maps, all, ⟨_, snapshot_replays maps all symbol.toString resp.now, rfl⟩, ?_⟩
  intro k below
  rw [run_append]
  exact (rebuilds_step synced).top k below

theorem follows_trace (symbol : Symbol) {trace : BookTrace} (valid : ValidRows trace) :
    Follows trace (replay (subscribeBookEvents symbol) trace) := by
  induction trace with
  | nil =>
    refine ⟨⟨rfl, rfl⟩, ?_, ⟨_, replays_nothing, rfl⟩, ?_⟩
    · intro row member
      cases member
    · intro k below
      rfl
  | cons e earlier ih =>
    have follows := ih (valid_rows_tail valid)
    cases e with
    | message resp =>
      exact follows_message symbol follows (valid resp (List.mem_append_right _ (List.mem_singleton_self resp)))
    | closed =>
      refine ⟨⟨rfl, rfl⟩, ?_, follows.delivered, follows.synced⟩
      intro row member
      cases member
    | _ => exact ⟨follows.maps, follows.valid, follows.delivered, follows.synced⟩

/-- The level events follow the stream: in every interleaving whose rows are valid, a reader
    that sets the levels from every event has, at each level, the sizes of the book that
    replays the rows since the connection of the last message, and no rows before it. -/
theorem book_events_follow_stream (symbol : Symbol) (acts : List (Action BookResponse Unit Draw))
    (valid : ValidRows (run (subscribeBookEvents symbol).step (subscribeBookEvents symbol).init acts).trace) :
    let s := run (subscribeBookEvents symbol).step (subscribeBookEvents symbol).init acts
    ∃ book, Replays (rowsDelivered s.trace) book ∧ ∀ k < kBookLevels,
      run setLevel (fun _ => (0, 0)) s.out k = (levelQty book.bids k, levelQty book.asks k) := by
  intro s
  have follows := follows_trace symbol valid
  rw [← held_eq_replay (p := subscribeBookEvents symbol) acts] at follows
  obtain ⟨book, replays, delivered⟩ := follows.delivered
  have prev : s.handler.2 = ⟨book.bids, book.asks⟩ := delivered
  refine ⟨book, replays, ?_⟩
  intro k below
  have synced : run setLevel (fun _ => (0, 0)) s.out k =
      (levelQty s.handler.2.bids k, levelQty s.handler.2.asks k) := follows.synced k below
  rw [synced, prev]

def twoRows : BookResponse := ⟨[[buyRow "99" "5" .add], [sellRow "101.5" "2" .add]], 7⟩

/-- One message with two rows, after which the stream is lost. -/
def lostAfterMessage : List (Action BookResponse Unit Draw) :=
  (List.replicate 4 (some twoRows) ++ List.replicate 3 none).map fun message =>
    .thread ⟨message, (), .of 400⟩

theorem lost_after_message_followed :
    let p := subscribeBookEvents ⟨"SiH6", "FORTS"⟩
    let s := run p.step p.init lostAfterMessage
    s.pc = .waiting 400 400 ∧ rowsSinceEnd s.trace = [] ∧
      ∃ book, Replays (rowsDelivered s.trace) book ∧ ∀ k < kBookLevels,
        run setLevel (fun _ => (0, 0)) s.out k = (levelQty book.bids k, levelQty book.asks k) := by
  intro p s
  refine ⟨by decide +kernel, rfl, book_events_follow_stream _ _ ?_⟩
  intro resp member row here
  have rows : handled s.trace = [twoRows] := rfl
  obtain rfl : resp = twoRows := List.mem_singleton.mp (rows ▸ member)
  have five : decimalToDouble "5" = (5 : ℤ) := by decide +kernel
  have two : decimalToDouble "2" = (2 : ℤ) := by decide +kernel
  rcases List.mem_cons.mp here with rfl | later
  · refine ⟨rfl, ?_⟩
    intro side qty sized
    cases side with
    | buy => cases sized; exact ⟨5, five⟩
    | sell => cases sized
  · obtain rfl := List.mem_singleton.mp later
    refine ⟨rfl, ?_⟩
    intro side qty sized
    cases side with
    | buy => cases sized
    | sell => cases sized; exact ⟨2, two⟩

end BookEvents

end FinamSubscriptions
