import Mathlib.Data.Rat.Floor
import Mathlib.Algebra.Order.Ring.Rat

/-!
The records of core/interfaces.hpp. A `double` is an exact rational: rounding of
IEEE arithmetic is not modelled. A `time_point` is the number of nanoseconds since
the epoch. Signed 32-bit and 64-bit counters are unbounded integers, since the
source's arithmetic on them has no defined meaning beyond their range; the one
narrowing conversion of the source is written out where it happens.
-/
namespace FinamInterfaces

inductive ErrorCode where
  | ok | connectionFailed | streamDisconnected | timeout | rpcError
  | orderRejected | insufficientMargin | invalidPrice | invalidQuantity
  | riskLimitExceeded | dailyLossLimitHit
  | invalidArgument | notImplemented | internal
  deriving DecidableEq, Repr

structure Error where
  code : ErrorCode
  message : String
  deriving DecidableEq, Repr

abbrev Result (α : Type) := Except Error α

structure Symbol where
  securityCode : String
  securityBoard : String
  deriving DecidableEq, Repr

def Symbol.toString (s : Symbol) : String := s.securityCode ++ "@" ++ s.securityBoard

structure Quote where
  symbol : Symbol
  bid : ℚ
  ask : ℚ
  last : ℚ := 0
  volume : ℤ := 0
  ts : ℤ
  deriving DecidableEq, Repr

structure Bar where
  symbol : Symbol
  timeframe : String
  opening : ℚ
  high : ℚ
  low : ℚ
  close : ℚ
  volume : ℤ := 0
  ts : ℤ
  date : String := ""
  deriving DecidableEq, Repr

inductive OrderSide where
  | buy | sell
  deriving DecidableEq, Repr

inductive OrderStatus where
  | pending | partialFill | filled | cancelled | rejected
  deriving DecidableEq, Repr

inductive OrderType where
  | market | limit
  deriving DecidableEq, Repr

def OrderStatus.Terminal : OrderStatus → Prop
  | .filled | .cancelled | .rejected => True
  | .pending | .partialFill => False

instance : DecidablePred OrderStatus.Terminal
  | .filled | .cancelled | .rejected => .isTrue trivial
  | .pending | .partialFill => .isFalse id

structure OrderUpdate where
  orderNo : ℤ := 0
  transactionId : ℤ
  symbol : Symbol
  clientId : String := ""
  side : OrderSide
  status : OrderStatus
  type : OrderType
  price : ℚ
  qtyTotal : ℤ
  qtyFilled : ℤ
  message : String := ""
  ts : ℤ
  deriving DecidableEq, Repr

inductive Direction where
  | buy | sell | close | none
  deriving DecidableEq, Repr

structure Signal where
  symbol : Symbol
  direction : Direction := .none
  orderType : OrderType := .market
  price : ℚ := 0
  quantity : ℤ := 0
  reason : String := ""
  deriving DecidableEq, Repr

structure OrderRequest where
  clientId : String
  symbol : Symbol
  side : OrderSide
  type : OrderType := .market
  price : ℚ := 0
  quantity : ℤ
  deriving DecidableEq, Repr

def OrderSide.signed : OrderSide → ℤ → ℤ
  | .buy, qty => qty
  | .sell, qty => -qty

@[simp] theorem signed_buy (qty : ℤ) : OrderSide.signed .buy qty = qty := rfl
@[simp] theorem signed_sell (qty : ℤ) : OrderSide.signed .sell qty = -qty := rfl

@[simp] theorem signed_zero (side : OrderSide) : side.signed 0 = 0 := by
  cases side <;> rfl

theorem signed_sub (side : OrderSide) (a b : ℤ) :
    side.signed (a - b) = side.signed a - side.signed b := by
  cases side <;> simp [OrderSide.signed]; omega

theorem signed_eq_zero_iff (side : OrderSide) (qty : ℤ) : side.signed qty = 0 ↔ qty = 0 := by
  cases side <;> simp [OrderSide.signed]

/-- Conversion of a `double` to an integer type: the fraction is cut off. -/
def truncate (x : ℚ) : ℤ := x.num.tdiv x.den

/-- `static_cast<int32_t>` of a 64-bit integer. -/
def toInt32 (x : ℤ) : ℤ := x.bmod (2 ^ 32)

def nsPerSec : ℤ := 1000000000

/-- `to_time_t`, then the minute of the UTC day. C++ division and remainder both
    round towards zero. -/
def minuteOfDay (ts : ℤ) : ℤ := ((ts.tdiv nsPerSec).tmod 86400).tdiv 60

end FinamInterfaces
