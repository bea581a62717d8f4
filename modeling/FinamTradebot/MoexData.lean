import FinamTradebot.Contract
import FinamTradebot.OrderClient
import FinamTradebot.OrderedDict
import Mathlib.Data.String.Basic

/-!
scripts/fetch_moex_data.py: the contracts of a range of dates, the pages of candles of one
contract and the merge of the contracts' bars. An exception is the error of an `Except`; a
`while` loop takes fuel and is `none` where the fuel runs out. The answers of the exchange
are a function of the request.
-/
namespace FinamMoex
open FinamInterfaces FinamContract FinamOrderClient Civil OrderedDict

inductive PyError where
  | keyError | valueError | typeError | overflowError
  deriving DecidableEq, Repr

/-- A loop that ends: from some amount of fuel on it gives this value. -/
def Returns {α : Type} (compute : ℕ → Option (Except PyError α)) (value : α) : Prop :=
  ∃ enough, ∀ fuel, enough ≤ fuel → compute fuel = some (.ok value)

/-- `datetime.date`, by its day number: a day of the years 1 to 9999. -/
structure PyDate where
  days : ℤ
  range : toDays 1 1 1 ≤ days ∧ days ≤ toDays 9999 12 31

def PyDate.year (d : PyDate) : ℤ := (ofDays d.days).year
def PyDate.month (d : PyDate) : ℤ := (ofDays d.days).month
def PyDate.day (d : PyDate) : ℤ := (ofDays d.days).day

theorem first_of_month_range {year month : ℤ}
    (valid : (1 ≤ year ∧ year ≤ 9999) ∧ 1 ≤ month ∧ month ≤ 12) :
    toDays 1 1 1 ≤ toDays year month 1 ∧ toDays year month 1 ≤ toDays 9999 12 31 := by
  have first := month_start_le (j := monthIndex 1 1) (k := monthIndex year month)
    (by unfold monthIndex; omega)
  have last := month_start_le (j := monthIndex year month) (k := monthIndex 9999 12)
    (by unfold monthIndex; omega)
  unfold toDays
  omega

/-- `date(year, month, 1)`. -/
def firstOfMonth (year month : ℤ) : Except PyError PyDate :=
  if valid : (1 ≤ year ∧ year ≤ 9999) ∧ 1 ≤ month ∧ month ≤ 12 then
    .ok ⟨toDays year month 1, first_of_month_range valid⟩
  else .error .valueError

def monthLetter : ℤ → Option Char
  | 3 => some 'H'
  | 6 => some 'M'
  | 9 => some 'U'
  | 12 => some 'Z'
  | _ => none

def makeSecid (ticker : String) (month year : ℤ) : Except PyError String :=
  match monthLetter month with
  | none => .error .keyError
  | some letter => .ok (ticker.push letter ++ toString (year % 100))

structure SeriesEntry where
  secid : String
  month : ℤ
  year : ℤ
  deriving DecidableEq, Repr

/-- The first loop of `quarterly_series`: on to a quarterly month. -/
def reachQuarter : ℕ → ℤ → ℤ → Option Expiry
  | 0, _, _ => none
  | fuel + 1, year, month =>
    if month % 3 ≠ 0 then
      if 12 < month + 1 then reachQuarter fuel (year + 1) 3 else reachQuarter fuel year (month + 1)
    else some ⟨year, month⟩

/-- The second loop: one quarter after the other. -/
def collectSeries (ticker : String) (toDate : PyDate) :
    ℕ → ℤ → ℤ → List SeriesEntry → Option (Except PyError (List SeriesEntry))
  | 0, _, _, _ => none
  | fuel + 1, year, month, series =>
    match firstOfMonth year month with
    | .error e => some (.error e)
    | .ok first =>
      if first.days ≤ toDate.days then
        match makeSecid ticker month year with
        | .error e => some (.error e)
        | .ok secid =>
          let series := series ++ [⟨secid, month, year⟩]
          if 12 < month + 3 then collectSeries ticker toDate fuel (year + 1) (month + 3 - 12) series
          else collectSeries ticker toDate fuel year (month + 3) series
      else some (.ok series)

def quarterlySeries (fuel : ℕ) (ticker : String) (fromDate toDate : PyDate) :
    Option (Except PyError (List SeriesEntry)) :=
  match reachQuarter fuel fromDate.year fromDate.month with
  | none => none
  | some e => collectSeries ticker toDate fuel e.year e.month []

section Candles

/-- A Python `float`. -/
inductive PyFloat where
  | finite (x : ℚ)
  | infinite (negative : Bool)
  | nan
  deriving DecidableEq, Repr

/-- A value in a decoded row; of a list or an object only its text is kept. -/
inductive Json where
  | null
  | bool (b : Bool)
  | int (n : ℤ)
  | float (x : PyFloat)
  | text (s : String)
  | nested (shown : String)
  deriving DecidableEq, Repr

/-- The conversions of the language whose texts are not written out here: `float` of a
    text, `none` where it raises `ValueError`, and `str` of a value that is no text. -/
structure Builtins where
  floatOfText : String → Option PyFloat
  strOfValue : Json → String

def Builtins.str (py : Builtins) : Json → String
  | .text s => s
  | value => py.strOfValue value

def Builtins.float (py : Builtins) : Json → Except PyError PyFloat
  | .null => .error .typeError
  | .bool b => .ok (.finite (if b then 1 else 0))
  | .int n =>
    if -doubleLimit < (n : ℚ) ∧ (n : ℚ) < doubleLimit then .ok (.finite n) else .error .overflowError
  | .float x => .ok x
  | .text s =>
    match py.floatOfText s with
    | none => .error .valueError
    | some x => .ok x
  | .nested _ => .error .typeError

/-- `int` of a `float`. -/
def PyFloat.toInt : PyFloat → Except PyError ℤ
  | .finite x => .ok (truncate x)
  | .infinite _ => .error .overflowError
  | .nan => .error .valueError

structure Candle where
  date : String
  opening : PyFloat
  high : PyFloat
  low : PyFloat
  close : PyFloat
  volume : ℤ
  deriving DecidableEq, Repr

abbrev Row := List Json

/-- `rec[key]` of `rec = dict(zip(columns, row))`: the last of equal columns counts. -/
def item (columns : List String) (row : Row) (key : String) : Except PyError Json :=
  match ((columns.zip row).reverse).lookup key with
  | none => .error .keyError
  | some value => .ok value

def parseRow (py : Builtins) (columns : List String) (row : Row) : Except PyError Candle := do
  let begins ← item columns row "begin"
  let opening ← item columns row "open" >>= py.float
  let high ← item columns row "high" >>= py.float
  let low ← item columns row "low" >>= py.float
  let close ← item columns row "close" >>= py.float
  let volume ← item columns row "volume" >>= py.float >>= PyFloat.toInt
  return ⟨String.ofList ((py.str begins).toList.take 10), opening, high, low, close, volume⟩

/-- `except (KeyError, ValueError, TypeError)`. -/
def PyError.caught : PyError → Bool
  | .keyError | .valueError | .typeError => true
  | .overflowError => false

def appendRow (py : Builtins) (columns : List String) (bars : List Candle) (row : Row) :
    Except PyError (List Candle) :=
  match parseRow py columns row with
  | .ok candle => .ok (bars ++ [candle])
  | .error e => if e.caught then .ok bars else .error e

/-- The fields of the address of one page. -/
structure PageRequest where
  sec : String
  interval : ℤ
  fromDate : PyDate
  till : PyDate
  start : ℕ

/-- What comes back: an exception of the request, or the `columns` and the `data` of the
    `candles`. -/
inductive PageReply where
  | failed
  | page (columns : List String) (rows : List Row)

def fetchPages (py : Builtins) (server : PageRequest → PageReply) (request : PageRequest) :
    ℕ → List Candle → ℕ → Option (Except PyError (List Candle))
  | 0, _, _ => none
  | fuel + 1, bars, start =>
    match server { request with start := start } with
    | .failed => some (.ok bars)
    | .page columns rows =>
      if rows = [] then some (.ok bars)
      else
        match rows.foldlM (appendRow py columns) bars with
        | .error e => some (.error e)
        | .ok bars =>
          if rows.length < 100 then some (.ok bars)
          else fetchPages py server request fuel bars (start + rows.length)

def fetchCandles (py : Builtins) (server : PageRequest → PageReply) (fuel : ℕ) (secid : String)
    (fromDate toDate : PyDate) (interval : ℤ) : Option (Except PyError (List Candle)) :=
  fetchPages py server ⟨secid, interval, fromDate, toDate, 0⟩ fuel [] 0

/-- The body of the loop of `merge_bars`. -/
def mergeBar (seen : Dict String Candle) (bar : Candle) : Dict String Candle :=
  match seen.get? bar.date with
  | none => seen.set bar.date bar
  | some held => if held.volume < bar.volume then seen.set bar.date bar else seen

def mergeBars (allBars : List Candle) : List Candle :=
  (allBars.foldl mergeBar Dict.empty).values.mergeSort fun a b => decide (a.date ≤ b.date)

end Candles

end FinamMoex
