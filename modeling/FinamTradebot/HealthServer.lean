import FinamTradebot.CircuitBreaker
import FinamTradebot.HttpReply
import FinamTradebot.WireOrders

/-!
core/health_server.hpp, with the status provider of main.cpp. A request is what `recv` has
written to the buffer, up to its first zero byte; texts are lists of their bytes, all of
them ASCII here. The provider reads the account and then, twice, the flag of the breaker;
each read is a step of its own among those of the trading threads.
-/
namespace FinamHealth
open FinamInterfaces FinamOrderClient FinamRisk FinamCircuitBreaker FinamWireOrders
open DecimalText HttpReply Runs

structure HealthStatus where
  ok : Bool := true
  activeSymbol : String := ""
  dailyPnl : ℚ := 0
  liquidValue : ℚ := 0
  circuitBreaker : Bool := false
  deriving DecidableEq, Repr

section Texts

/-- The text in a buffer of 256 bytes that ends at a zero. -/
def received (bytes : List Char) : List Char := (bytes.take 255).takeWhile (· ≠ Char.ofNat 0)

def asksFor (target : String) (bytes : List Char) : Bool := decide (target.toList <:+: received bytes)

def isMetrics (bytes : List Char) : Bool := asksFor "GET /metrics" bytes
def isHealth (bytes : List Char) : Bool := asksFor "GET /health" bytes

/-- `std::to_string` of a `double`. -/
def fixedText (x : ℚ) : List Char := (fixedNumeral 6 x).render

def flagText (b : Bool) : List Char := if b then ['1'] else ['0']

def metricLines (st : HealthStatus) : List (List Char) :=
  ["# HELP tradebot_ok Bot health (1=ok, 0=tripped)".toList,
    "tradebot_ok ".toList ++ flagText st.ok,
    "# HELP tradebot_daily_pnl Daily PnL in ticks".toList,
    "tradebot_daily_pnl ".toList ++ fixedText st.dailyPnl,
    "# HELP tradebot_liquid_value Net liquidation value".toList,
    "tradebot_liquid_value ".toList ++ fixedText st.liquidValue,
    "# HELP tradebot_circuit_breaker Circuit breaker (1=tripped)".toList,
    "tradebot_circuit_breaker ".toList ++ flagText st.circuitBreaker]

def buildBody (st : HealthStatus) (metrics : Bool) : List Char :=
  if metrics then (metricLines st).flatMap (· ++ ['\n'])
  else if st.ok then "ok".toList else "circuit_breaker_tripped".toList

def httpCode (st : HealthStatus) : String := if st.ok then "200 OK" else "503 Service Unavailable"

def statusLine (st : HealthStatus) : List Char := "HTTP/1.1 ".toList ++ (httpCode st).toList

def fieldLines (body : List Char) : List (List Char) :=
  ["Content-Type: text/plain".toList, "Content-Length: ".toList ++ Nat.toDigits 10 body.length,
    "Connection: close".toList]

def response (st : HealthStatus) (metrics : Bool) : List Char :=
  write (statusLine st :: fieldLines (buildBody st metrics)) (buildBody st metrics)

/-- `none` where the connection is closed without a reply. -/
def handleRequest (bytes : List Char) (st : HealthStatus) : Option (List Char) :=
  if !isHealth bytes && !isMetrics bytes then none else some (response st (isMetrics bytes))

end Texts

section Read

theorem no_return_digits (n : ℕ) : '\r' ∉ Nat.toDigits 10 n := by
  intro member
  exact absurd (to_digits_digit member) (by decide)

theorem response_read (st : HealthStatus) (metrics : Bool) :
    read (response st metrics) =
      some ⟨statusLine st, fieldLines (buildBody st metrics), buildBody st metrics⟩ := by
  refine read_write ?_ rfl
  intro line member
  rcases List.mem_cons.mp member with rfl | member
  · unfold statusLine httpCode
    cases st.ok <;> decide +kernel
  · simp only [fieldLines, List.mem_cons, List.not_mem_nil, or_false] at member
    rcases member with rfl | rfl | rfl
    · decide +kernel
    · refine ⟨by simp, ?_⟩
      intro inside
      rcases List.mem_append.mp inside with head | digits
      · exact absurd head (by decide +kernel)
      · exact no_return_digits _ digits
    · decide +kernel

/-- The value a scraper finds in the text of `/metrics`. -/
def gauge (name : String) (body : List Char) : Option ℚ :=
  (after (name ++ " ").toList (body.splitOn '\n')).bind fun text => stod (String.ofList text)

theorem fixed_text_clean (x : ℚ) : '\n' ∉ fixedText x := by
  intro member
  exact absurd (render_chars (fixed_well_formed 6 x) _ member) (by decide)

theorem metric_lines_clean (st : HealthStatus) : ∀ line ∈ metricLines st, '\n' ∉ line := by
  have flags : ∀ b, '\n' ∉ flagText b := by decide
  have numbers := fixed_text_clean
  have joined : ∀ name value : List Char, '\n' ∉ name → '\n' ∉ value → '\n' ∉ name ++ value := by
    intro name value first second member
    exact (List.mem_append.mp member).elim first second
  intro line member
  simp only [metricLines, List.mem_cons, List.not_mem_nil, or_false] at member
  rcases member with rfl | rfl | rfl | rfl | rfl | rfl | rfl | rfl
  · decide +kernel
  · exact joined _ _ (by decide +kernel) (flags _)
  · decide +kernel
  · exact joined _ _ (by decide +kernel) (numbers _)
  · decide +kernel
  · exact joined _ _ (by decide +kernel) (numbers _)
  · decide +kernel
  · exact joined _ _ (by decide +kernel) (flags _)

theorem gauge_of_line {st : HealthStatus} {name : String} (text : List Char)
    (line : after (name ++ " ").toList (metricLines st ++ [[]]) = some text) :
    gauge name (buildBody st true) = stod (String.ofList text) := by
  rw [gauge, buildBody, if_pos rfl, split_lines (metric_lines_clean st), line]
  rfl

theorem flag_read (b : Bool) : stod (String.ofList (flagText b)) = some (if b then 1 else 0) := by
  cases b <;> decide +kernel

theorem fixed_text_read {x : ℚ} (bounded : |x| + 1 ≤ doubleLimit) :
    ∃ y, stod (String.ofList (fixedText x)) = some y ∧ |y - x| ≤ 1 / 2 / 10 ^ 6 := by
  have near := fixed_within (show 0 < 6 by decide) x
  refine ⟨_, stod_render (fixed_well_formed 6 x) ?_, near⟩
  have split := abs_sub_abs_le_abs_sub (fixedNumeral 6 x).value x
  have small : (1 : ℚ) / 2 / 10 ^ 6 < 1 := by norm_num
  linarith

/-- What a scraper of `/metrics` finds: the two flags, and the two amounts to half a
    millionth. -/
structure Scraped (st : HealthStatus) (body : List Char) : Prop where
  ok : gauge "tradebot_ok" body = some (if st.ok then 1 else 0)
  circuitBreaker : gauge "tradebot_circuit_breaker" body = some (if st.circuitBreaker then 1 else 0)
  dailyPnl : ∃ y, gauge "tradebot_daily_pnl" body = some y ∧ |y - st.dailyPnl| ≤ 1 / 2 / 10 ^ 6
  liquidValue : ∃ y, gauge "tradebot_liquid_value" body = some y ∧ |y - st.liquidValue| ≤ 1 / 2 / 10 ^ 6

theorem metrics_scraped {st : HealthStatus} (pnl : |st.dailyPnl| + 1 ≤ doubleLimit)
    (liquid : |st.liquidValue| + 1 ≤ doubleLimit) : Scraped st (buildBody st true) := by
  constructor
  · rw [gauge_of_line (flagText st.ok) rfl, flag_read]
  · rw [gauge_of_line (flagText st.circuitBreaker) rfl, flag_read]
  · rw [gauge_of_line (fixedText st.dailyPnl) rfl]
    exact fixed_text_read pnl
  · rw [gauge_of_line (fixedText st.liquidValue) rfl]
    exact fixed_text_read liquid

end Read

section Server

/-- Where the server thread is. `late` records whether the breaker was set when the request
    came in. -/
inductive Probe where
  | idle
  | account (bytes : List Char) (late : Bool)
  | ok (bytes : List Char) (late : Bool) (account : AccountState)
  | breaker (bytes : List Char) (late : Bool) (account : AccountState) (ok : Bool)

structure Exchange where
  bytes : List Char
  late : Bool
  status : HealthStatus
  reply : List Char

structure Server where
  board : Board
  symbols : String
  probe : Probe := .idle
  log : List Exchange := []

inductive ServerAction where
  | bot (action : Action)
  | request (bytes : List Char)
  | serve

def Server.status (s : Server) (account : AccountState) (ok : Bool) : HealthStatus :=
  { ok := ok
    activeSymbol := s.symbols
    dailyPnl := account.dailyPnl
    liquidValue := account.liquidValue
    circuitBreaker := s.board.rm.tripped }

def Server.serve (s : Server) : Server :=
  match s.probe with
  | .idle => s
  | .account bytes late => { s with probe := .ok bytes late s.board.rm.state }
  | .ok bytes late account => { s with probe := .breaker bytes late account (!s.board.rm.tripped) }
  | .breaker bytes late account ok =>
    let status := s.status account ok
    match handleRequest bytes status with
    | none => { s with probe := .idle }
    | some reply => { s with probe := .idle, log := s.log ++ [⟨bytes, late, status, reply⟩] }

def Server.step (s : Server) : ServerAction → Server
  | .bot action => { s with board := s.board.step action }
  | .request bytes =>
    match s.probe with
    | .idle =>
      if !isHealth bytes && !isMetrics bytes then s
      else { s with probe := .account bytes s.board.rm.tripped }
    | _ => s
  | .serve => s.serve

def Server.start (cfg : RiskConfig) (symbols : String) : Server := ⟨.start cfg, symbols, .idle, []⟩

/-- What a reply says of the breaker. A request that came in after the trip is refused, no
    request is refused before it, and the two flags do not contradict each other. -/
structure Exchange.Honest (tripped : Bool) (x : Exchange) : Prop where
  reply : x.reply = response x.status (isMetrics x.bytes)
  late : x.late = true → x.status.ok = false
  refused : x.status.ok = false → x.status.circuitBreaker = true
  tripped : x.status.circuitBreaker = true → tripped = true

def Probe.Honest (tripped : Bool) : Probe → Prop
  | .idle => True
  | .account _ late | .ok _ late _ => late = true → tripped = true
  | .breaker _ late _ well => (late = true → well = false) ∧ (well = false → tripped = true)

structure Honest (s : Server) : Prop where
  probe : s.probe.Honest s.board.rm.tripped
  log : ∀ x ∈ s.log, x.Honest s.board.rm.tripped

theorem Exchange.Honest.mono {x : Exchange} {before after : Bool} (stays : before = true → after = true)
    (honest : x.Honest before) : x.Honest after :=
  ⟨honest.reply, honest.late, honest.refused, fun set => stays (honest.tripped set)⟩

theorem Probe.Honest.mono {probe : Probe} {before after : Bool} (stays : before = true → after = true)
    (honest : probe.Honest before) : probe.Honest after := by
  cases probe with
  | idle => trivial
  | account bytes late => exact fun set => stays (honest set)
  | ok bytes late account => exact fun set => stays (honest set)
  | breaker bytes late account well => exact ⟨honest.1, fun refused => stays (honest.2 refused)⟩

theorem honest_serve {s : Server} (honest : Honest s) : Honest s.serve := by
  obtain ⟨probe, log⟩ := honest
  unfold Server.serve
  split
  · rename_i idle
    exact ⟨probe, log⟩
  · rename_i bytes late here
    rw [here] at probe
    exact ⟨probe, log⟩
  · rename_i bytes late account here
    rw [here] at probe
    refine ⟨⟨?_, ?_⟩, log⟩
    · intro set
      rw [probe set]
      rfl
    · intro refused
      simpa using refused
  · rename_i bytes late account ok here
    rw [here] at probe
    dsimp only
    split
    · exact ⟨trivial, log⟩
    · rename_i reply answered
      refine ⟨trivial, ?_⟩
      intro x member
      rcases List.mem_append.mp member with old | new
      · exact log x old
      · rw [List.mem_singleton.mp new]
        refine ⟨?_, probe.1, probe.2, id⟩
        unfold handleRequest at answered
        split at answered
        · cases answered
        · exact (Option.some.inj answered).symm

theorem honest_step {s : Server} (honest : Honest s) (a : ServerAction) : Honest (s.step a) := by
  cases a with
  | bot action =>
    have stays : s.board.rm.tripped = true → (s.board.step action).rm.tripped = true :=
      step_tripped action
    exact ⟨honest.probe.mono stays, fun x member => (honest.log x member).mono stays⟩
  | request bytes =>
    simp only [Server.step]
    split
    · split
      · exact honest
      · exact ⟨id, honest.log⟩
    · exact honest
  | serve => exact honest_serve honest

/-- In every interleaving of the trading threads and the server: a reply is a message that a
    client reads to its end, with 503 for every request that came in after the trip and for
    none before it, and a scrape never shows a bot that is neither well nor tripped. -/
theorem health_replies_honest (cfg : RiskConfig) (symbols : String) (acts : List ServerAction) :
    let s := run Server.step (.start cfg symbols) acts
    ∀ x ∈ s.log, x.Honest s.board.rm.tripped ∧
      read x.reply = some ⟨statusLine x.status, fieldLines (buildBody x.status (isMetrics x.bytes)),
        buildBody x.status (isMetrics x.bytes)⟩ ∧
      (isMetrics x.bytes = true → |x.status.dailyPnl| + 1 ≤ doubleLimit →
        |x.status.liquidValue| + 1 ≤ doubleLimit →
          Scraped x.status (buildBody x.status (isMetrics x.bytes))) := by
  intro s x member
  have start : Honest (.start cfg symbols) := ⟨trivial, fun x none => by cases none⟩
  have honest : Honest s := run_invariant (I := Honest) (fun s a inv => honest_step inv a) acts start
  have here := honest.log x member
  refine ⟨here, ?_, ?_⟩
  · rw [here.reply]
    exact response_read x.status _
  · intro metrics pnl liquid
    rw [metrics]
    exact metrics_scraped pnl liquid

/-- The breaker trips, and then the container asks for the health of the bot. -/
def askedAfterTrip : List ServerAction :=
  [.bot (.trip 0 "daily loss"), .bot (.advance 0), .request "GET /health HTTP/1.1".toList, .serve,
    .bot (.advance 0), .serve, .serve]

theorem asked_after_trip_refused :
    let s := run Server.step (.start {} "Si") askedAfterTrip
    ∃ x ∈ s.log, x.late = true ∧ x.Honest s.board.rm.tripped ∧
      (read x.reply).map Reply.body = some "circuit_breaker_tripped".toList := by
  intro s
  have one : s.log.length = 1 ∧ s.log.all (fun x => x.late && !x.status.ok && !isMetrics x.bytes) = true := by
    decide +kernel
  obtain ⟨x, only⟩ := List.length_eq_one_iff.mp one.1
  have member : x ∈ s.log := by rw [only]; exact List.mem_singleton_self x
  have flags := List.all_eq_true.mp one.2 x member
  simp only [Bool.and_eq_true, Bool.not_eq_true'] at flags
  obtain ⟨honest, body, -⟩ := health_replies_honest {} "Si" askedAfterTrip x member
  refine ⟨x, member, flags.1.1, honest, ?_⟩
  rw [body, flags.2]
  simp [buildBody, flags.1.2]

end Server

end FinamHealth
