import FinamTradebot.Contract
import FinamTradebot.OrderClient
import FinamTradebot.StrategyRunner

/-!
risk/risk_manager.cpp. The replies of the two services (`GetAccount`, `GetAssetParams`)
and the clock are arguments; a failed call carries its status message. `open_pos_` is a
list of entries under distinct keys. The order in which a hash map is iterated is not
specified, so a fill names the key whose entry the iteration meets first.
-/
namespace FinamRisk
open FinamInterfaces FinamContract FinamOrderClient FinamRunner Civil

structure RiskConfig where
  perTradePct : ℚ := 2
  maxDailyLossPct : ℚ := 5
  maxDrawdownPct : ℚ := 15
  maxPositions : ℤ := 3
  rolloverDays : ℤ := 5
  deriving DecidableEq

structure AccountState where
  liquidValue : ℚ := 0
  usedMargin : ℚ := 0
  freeMargin : ℚ := 0
  dailyPnl : ℚ := 0
  openPositions : ℚ := 0
  updatedAt : ℤ := 0
  deriving DecidableEq

structure OpenPos where
  entryPrice : ℚ
  qty : ℤ
  deriving DecidableEq

structure RiskManager where
  cfg : RiskConfig
  state : AccountState := {}
  peakLiquid : ℚ := 0
  openPos : List (ℤ × OpenPos) := []
  tripped : Bool := false
  tripReason : String := ""
  deriving DecidableEq

def RiskManager.init (cfg : RiskConfig) : RiskManager := { cfg := cfg }

section Account

structure GetAccountResponse where
  equity : String
  moneyReserved : String
  availableCash : String
  unrealizedProfit : String
  positionsSize : ℕ
  deriving DecidableEq

def decimalToDouble (text : String) : ℚ := (stod text).getD 0

def accountState (resp : GetAccountResponse) (now : ℤ) : AccountState :=
  { liquidValue := decimalToDouble resp.equity
    usedMargin := decimalToDouble resp.moneyReserved
    freeMargin := decimalToDouble resp.availableCash
    dailyPnl := decimalToDouble resp.unrealizedProfit
    openPositions := resp.positionsSize
    updatedAt := now }

def RiskManager.refreshAccount (rm : RiskManager) (reply : Except String GetAccountResponse)
    (now : ℤ) : RiskManager × Result Unit :=
  match reply with
  | .error message => (rm, .error ⟨.rpcError, message⟩)
  | .ok resp =>
    let s := accountState resp now
    ({ rm with
        state := s
        peakLiquid := if rm.peakLiquid < s.liquidValue then s.liquidValue else rm.peakLiquid },
      .ok ())

end Account

section Fills

def OpenPos.opposes (side : OrderSide) (p : OpenPos) : Bool :=
  match side with
  | .buy => decide (p.qty < 0)
  | .sell => decide (0 < p.qty)

def findOpposite (first : ℤ) (side : OrderSide) (entries : List (ℤ × OpenPos)) :
    Option (ℤ × OpenPos) :=
  match entries.find? (fun kv => kv.1 == first && kv.2.opposes side) with
  | some kv => some kv
  | none => entries.find? (fun kv => kv.2.opposes side)

def eraseKey (tid : ℤ) (entries : List (ℤ × OpenPos)) : List (ℤ × OpenPos) :=
  entries.filter (fun kv => kv.1 != tid)

/-- The profit of closing `qty` contracts of an entry. -/
def OpenPos.pnl (p : OpenPos) (price : ℚ) (qty : ℤ) : ℚ :=
  (price - p.entryPrice) * qty * (if 0 < p.qty then 1 else -1)

def AccountState.realize (s : AccountState) (pnl : ℚ) : AccountState :=
  { s with dailyPnl := s.dailyPnl + pnl, liquidValue := s.liquidValue + pnl }

def RiskManager.onFill (first : ℤ) (rm : RiskManager) (upd : OrderUpdate) : RiskManager :=
  if upd.qtyFilled ≤ 0 then rm
  else
    match findOpposite first upd.side rm.openPos with
    | some (key, entry) =>
      let s := rm.state.realize (entry.pnl upd.price upd.qtyFilled)
      { rm with
        state := s
        peakLiquid := if rm.peakLiquid < s.liquidValue then s.liquidValue else rm.peakLiquid
        openPos := eraseKey key rm.openPos }
    | none =>
      { rm with
        openPos := eraseKey upd.transactionId rm.openPos ++
          [(upd.transactionId, ⟨upd.price, upd.side.signed upd.qtyFilled⟩)] }

theorem find_opposite_some {first : ℤ} {side : OrderSide} {entries : List (ℤ × OpenPos)}
    {kv : ℤ × OpenPos} (found : findOpposite first side entries = some kv) :
    kv ∈ entries ∧ kv.2.opposes side = true := by
  unfold findOpposite at found
  split at found
  · rename_i hit
    obtain rfl := Option.some.inj found
    have both := List.find?_some hit
    exact ⟨List.mem_of_find?_eq_some hit, ((Bool.and_eq_true _ _).mp both).2⟩
  · exact ⟨List.mem_of_find?_eq_some found, by simpa using List.find?_some found⟩

theorem find_opposite_none {first : ℤ} {side : OrderSide} {entries : List (ℤ × OpenPos)}
    (absent : findOpposite first side entries = none) {kv : ℤ × OpenPos} (member : kv ∈ entries) :
    kv.2.opposes side = false := by
  unfold findOpposite at absent
  split at absent
  · cases absent
  · simpa using List.find?_eq_none.mp absent kv member

/-- What a fill adds to the two sums of the account state. -/
def fillPnl (first : ℤ) (entries : List (ℤ × OpenPos)) (upd : OrderUpdate) : ℚ :=
  match findOpposite first upd.side entries with
  | some (_, entry) => entry.pnl upd.price upd.qtyFilled
  | none => 0

def fillEntries (first : ℤ) (entries : List (ℤ × OpenPos)) (upd : OrderUpdate) :
    List (ℤ × OpenPos) :=
  match findOpposite first upd.side entries with
  | some (key, _) => eraseKey key entries
  | none =>
    eraseKey upd.transactionId entries ++
      [(upd.transactionId, ⟨upd.price, upd.side.signed upd.qtyFilled⟩)]

theorem realize_zero (s : AccountState) : s.realize 0 = s := by
  simp [AccountState.realize]

theorem realize_realize (s : AccountState) (a b : ℚ) : (s.realize a).realize b = s.realize (a + b) := by
  simp [AccountState.realize, add_assoc]

section OnFill
variable (first : ℤ) (rm : RiskManager) {upd : OrderUpdate}

theorem on_fill_entries (positive : 0 < upd.qtyFilled) :
    (rm.onFill first upd).openPos = fillEntries first rm.openPos upd := by
  unfold RiskManager.onFill fillEntries
  rw [if_neg (not_le.mpr positive)]
  cases findOpposite first upd.side rm.openPos <;> rfl

theorem on_fill_state (positive : 0 < upd.qtyFilled) :
    (rm.onFill first upd).state = rm.state.realize (fillPnl first rm.openPos upd) := by
  unfold RiskManager.onFill fillPnl
  rw [if_neg (not_le.mpr positive)]
  cases findOpposite first upd.side rm.openPos with
  | none => exact (realize_zero rm.state).symm
  | some kv => rfl

end OnFill

end Fills

section Breaker

def RiskManager.tripCircuitBreaker (rm : RiskManager) (reason : String) : RiskManager :=
  if rm.tripped then rm else { rm with tripped := true, tripReason := reason }

def RiskManager.absorb (rm : RiskManager) : Effect → RiskManager
  | .trip reason => rm.tripCircuitBreaker reason
  | .submit _ _ => rm

end Breaker

section Checks

structure Money where
  units : ℤ
  nanos : ℤ
  deriving DecidableEq

structure GetAssetParamsResponse where
  longInitialMargin : Money
  shortInitialMargin : Money
  deriving DecidableEq

def Money.toDouble (m : Money) : ℚ := m.units + m.nanos / 1000000000

def fetchInitialMargin (reply : Except String GetAssetParamsResponse) (isLong : Bool) : Result ℚ :=
  match reply with
  | .error message => .error ⟨.rpcError, message⟩
  | .ok resp =>
    .ok (if isLong then resp.longInitialMargin.toDouble else resp.shortInitialMargin.toDouble)

def reject (code : ErrorCode) (message : String) : Result Unit := .error ⟨code, message⟩

def RiskManager.checkCircuitBreaker (rm : RiskManager) : Result Unit :=
  if rm.tripped then reject .riskLimitExceeded ("circuit breaker tripped: " ++ rm.tripReason)
  else .ok ()

def RiskManager.lossPct (rm : RiskManager) : ℚ := -rm.state.dailyPnl / rm.state.liquidValue * 100

def RiskManager.checkDailyLoss (rm : RiskManager) : Result Unit :=
  if rm.state.liquidValue < 1 then .ok ()
  else if rm.cfg.maxDailyLossPct ≤ rm.lossPct then reject .dailyLossLimitHit "daily loss limit hit"
  else .ok ()

def RiskManager.drawdownPct (rm : RiskManager) : ℚ :=
  (rm.peakLiquid - rm.state.liquidValue) / rm.peakLiquid * 100

def RiskManager.checkDrawdown (rm : RiskManager) : Result Unit :=
  if rm.peakLiquid < 1 then .ok ()
  else if rm.cfg.maxDrawdownPct ≤ rm.drawdownPct then
    reject .riskLimitExceeded "max drawdown exceeded"
  else .ok ()

def RiskManager.checkPositionCount (rm : RiskManager) : Result Unit :=
  if (rm.cfg.maxPositions : ℚ) ≤ rm.state.openPositions then
    reject .riskLimitExceeded "max positions reached"
  else .ok ()

/-- `none` where `std::stoi` throws. -/
def stoi (text : String) : Option ℤ :=
  match stol text with
  | none => none
  | some value => if -2 ^ 31 ≤ value ∧ value < 2 ^ 31 then some value else none

/-- The expiry that `check_expiry` reads from a code of the form "{ROOT}-{M}.{YY}": the
    month between the first dash and the first dot, the year after the dot. The length
    of the first part is a `size_t` and wraps when the dot comes first. -/
def dashedExpiry (code : List Char) : Option Expiry :=
  match code.findIdx? (· == '-'), code.findIdx? (· == '.') with
  | some dash, some dot =>
    let length := (dot + 2 ^ 64 - dash - 1) % 2 ^ 64
    match stoi (String.ofList ((code.drop (dash + 1)).take length)),
        stoi (String.ofList (code.drop (dot + 1))) with
    | some month, some year => some ⟨2000 + year, month⟩
    | _, _ => none
  | _, _ => none

/-- `to_time_t` and `gmtime_r`. -/
def gmtime (now : ℤ) : Date := ofDays (now.tdiv nsPerSec / 86400)

def checkExpiry (rolloverDays now : ℤ) (sym : Symbol) : Result Unit :=
  let ed := expiryDay sym
  if ed = 0 then .ok ()
  else
    match dashedExpiry sym.securityCode.toList with
    | none => .ok ()
    | some exp =>
      let cur := gmtime now
      if exp.year < cur.year ∨ (cur.year = exp.year ∧ exp.month < cur.month) then
        reject .riskLimitExceeded ("contract expired: " ++ sym.toString)
      else if cur.year = exp.year ∧ cur.month = exp.month ∧ ed - rolloverDays ≤ cur.day then
        reject .riskLimitExceeded "rollover window: switch to next contract"
      else .ok ()

def requiredMargin (margin : ℚ) (req : OrderRequest) : ℚ := margin * req.quantity

def RiskManager.maxAllowed (rm : RiskManager) : ℚ := rm.state.liquidValue * rm.cfg.perTradePct / 100

def RiskManager.checkMargin (rm : RiskManager) (reply : Except String GetAssetParamsResponse)
    (req : OrderRequest) : Result Unit :=
  match fetchInitialMargin reply (req.side == .buy) with
  | .error _ => .ok ()
  | .ok margin =>
    if rm.state.freeMargin < requiredMargin margin req then
      reject .insufficientMargin "insufficient margin"
    else if 1 < rm.state.liquidValue ∧ rm.maxAllowed < requiredMargin margin req then
      reject .riskLimitExceeded "per-trade margin limit exceeded"
    else .ok ()

/-- What a check reads from outside: the clock and the reply about the margin. -/
structure CheckInput where
  now : ℤ
  params : Except String GetAssetParamsResponse

def RiskManager.check (rm : RiskManager) (input : CheckInput) (req : OrderRequest) : Result Unit := do
  rm.checkCircuitBreaker
  rm.checkDailyLoss
  rm.checkDrawdown
  rm.checkPositionCount
  checkExpiry rm.cfg.rolloverDays input.now req.symbol
  rm.checkMargin input.params req

theorem check_ok_iff {rm : RiskManager} {input : CheckInput} {req : OrderRequest} :
    rm.check input req = .ok () ↔
      rm.checkCircuitBreaker = .ok () ∧ rm.checkDailyLoss = .ok () ∧ rm.checkDrawdown = .ok () ∧
        rm.checkPositionCount = .ok () ∧
        checkExpiry rm.cfg.rolloverDays input.now req.symbol = .ok () ∧
        rm.checkMargin input.params req = .ok () := by
  unfold RiskManager.check
  cases rm.checkCircuitBreaker <;> cases rm.checkDailyLoss <;> cases rm.checkDrawdown <;>
    cases rm.checkPositionCount <;> cases checkExpiry rm.cfg.rolloverDays input.now req.symbol <;>
    simp [bind, Except.bind]

end Checks

section Events

/-- What can change the manager from outside. -/
inductive RiskEvent where
  | fill (first : ℤ) (upd : OrderUpdate)
  | poll (reply : Except String GetAccountResponse) (now : ℤ)
  | trip (reason : String)

def RiskManager.react (rm : RiskManager) : RiskEvent → RiskManager
  | .fill first upd => rm.onFill first upd
  | .poll reply now => (rm.refreshAccount reply now).1
  | .trip reason => rm.tripCircuitBreaker reason

end Events

section Frames
variable (rm : RiskManager)

/-- A fill changes the two sums of the account, the peak and the entries. -/
theorem on_fill_frame (first : ℤ) (upd : OrderUpdate) : ∃ pnl peak entries,
    rm.onFill first upd =
      { rm with state := rm.state.realize pnl, peakLiquid := peak, openPos := entries } := by
  unfold RiskManager.onFill
  split
  · exact ⟨0, rm.peakLiquid, rm.openPos, by rw [realize_zero]⟩
  · split
    · exact ⟨_, _, _, rfl⟩
    · exact ⟨0, rm.peakLiquid, _, by rw [realize_zero]⟩

/-- A poll changes the account and the peak. -/
theorem refresh_frame (reply : Except String GetAccountResponse) (now : ℤ) : ∃ state peak,
    (rm.refreshAccount reply now).1 = { rm with state := state, peakLiquid := peak } := by
  cases reply with
  | error message => exact ⟨rm.state, rm.peakLiquid, rfl⟩
  | ok resp => exact ⟨_, _, rfl⟩

/-- A trip changes the flag and the reason, and leaves the flag set. -/
theorem trip_frame (reason : String) : ∃ text,
    rm.tripCircuitBreaker reason = { rm with tripped := true, tripReason := text } := by
  unfold RiskManager.tripCircuitBreaker
  split
  · rename_i tripped
    exact ⟨rm.tripReason, by rw [← tripped]⟩
  · exact ⟨reason, rfl⟩

end Frames

end FinamRisk
