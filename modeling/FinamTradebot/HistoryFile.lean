import FinamTradebot.Backtest
import FinamTradebot.HistoryBars
import FinamTradebot.WireOrders

/-!
The file between scripts/fetch_moex_data.py and the backtest. The script writes the merged
bars with `csv.DictWriter`, the backtest reads them with `load_csv`. A price is a decimal of
at most fifteen digits, which is what `repr` of the nearest `float` shows; longer ones
depend on the binary digits that are not modelled.
-/
namespace FinamHistoryFile
open FinamInterfaces FinamOrderClient FinamMoex FinamBacktest FinamWireOrders FinamHistorySeries
open FinamHistoryBars
open DecimalText OrderedDict

section Writer

/-- `repr` of a `float`: a point or an exponent is always shown. -/
def pyRepr (x : ℚ) : Numeral :=
  if x = 0 then ⟨false, ['0'], some ['0'], none⟩
  else
    let s := significant 15 |x|
    let text := layOut 16 (trimmed s.1) s.2
    ⟨decide (x < 0), text.1,
      if text.2.1 = none ∧ text.2.2 = none then some ['0'] else text.2.1, text.2.2⟩

def floatText : PyFloat → String
  | .finite x => String.ofList (pyRepr x).render
  | .infinite negative => if negative then "-inf" else "inf"
  | .nan => "nan"

/-- A field with a comma, a quote or the end of a line in it is quoted. -/
def csvField (text : String) : List Char :=
  if text.toList.any fun c => c == ',' || c == '"' || c == '\r' || c == '\n' then
    '"' :: text.toList.flatMap (fun c => if c = '"' then ['"', '"'] else [c]) ++ ['"']
  else text.toList

def csvRow (fields : List String) : List Char :=
  [','].intercalate (fields.map csvField) ++ ['\r', '\n']

def candleRow (b : Candle) : List Char :=
  csvRow [b.date, floatText b.opening, floatText b.high, floatText b.low, floatText b.close,
    toString b.volume]

def writeCsv (bars : List Candle) : String :=
  String.ofList (csvRow ["date", "open", "high", "low", "close", "volume"] ++ bars.flatMap candleRow)

example : writeCsv [⟨"2025-03-03", .finite 89250, .finite 90000, .finite (178001 / 2), .finite 89999, 51⟩] =
    "date,open,high,low,close,volume\r\n2025-03-03,89250.0,90000.0,89000.5,89999.0,51\r\n" := by
  decide +kernel

end Writer

section Numbers

/-- A decimal of at most fifteen digits, and neither too large nor too small for a `float`. -/
def IsDecimal (x : ℚ) : Prop :=
  ∃ m j : ℤ, x = m * 10 ^ j ∧ m.natAbs < 10 ^ 15 ∧ -300 ≤ j ∧ j ≤ 285

/-- A nought behind the point changes nothing. -/
theorem point_nought (minus : Bool) (whole : List Char) :
    Numeral.value ⟨minus, whole, some ['0'], none⟩ = Numeral.value ⟨minus, whole, none, none⟩ := by
  have nought : digitsOf (whole ++ ['0']) = digitsOf whole * 10 := by
    rw [digits_append]
    rfl
  have first : Numeral.value ⟨minus, whole, some ['0'], none⟩ =
      (if minus then -1 else 1) * (digitsOf (whole ++ ['0']) : ℚ) * 10 ^ (-1 : ℤ) := rfl
  have second : Numeral.value ⟨minus, whole, none, none⟩ =
      (if minus then -1 else 1) * (digitsOf (whole ++ []) : ℚ) * 10 ^ (0 : ℤ) := rfl
  rw [first, second, nought, List.append_nil, mul_assoc, mul_assoc]
  congr 1
  push_cast
  rw [zpow_neg_one, mul_inv_cancel_right₀ (by norm_num), mul_one]

theorem py_repr_value {x : ℚ} (nonzero : x ≠ 0) : (pyRepr x).value = rounded 15 x := by
  obtain ⟨least, most⟩ := significant_bounds (abs_pos.mpr nonzero) (show 0 < 15 by decide)
  have laidOut := lay_out_value (decide (x < 0)) 16 (trimmed (significant 15 |x|).1)
    (significant 15 |x|).2
  rw [trimmed_value (by decide) least most] at laidOut
  simp only [decide_eq_true_eq] at laidOut
  rw [pyRepr, if_neg nonzero, rounded, ← laidOut]
  dsimp only
  generalize layOut 16 (trimmed (significant 15 |x|).1) (significant 15 |x|).2 = text
  split_ifs with bare
  · rw [bare.1, bare.2, point_nought]
  · rfl

theorem py_repr_decimal {m j : ℤ} (short : m.natAbs < 10 ^ 15) :
    (pyRepr (m * 10 ^ j)).value = (m : ℚ) * 10 ^ j := by
  by_cases zero : m = 0
  · subst zero
    simp [pyRepr, Numeral.value, Numeral.digits, Numeral.scaleOf, digitsOf, Nat.ofDigitChars]
  · have scale : (10 : ℚ) ^ j ≠ 0 := zpow_ne_zero j (by norm_num)
    rw [py_repr_value (mul_ne_zero (Int.cast_ne_zero.mpr zero) scale), rounded_decimal zero short]

theorem py_repr_well_formed (x : ℚ) : (pyRepr x).WellFormed := by
  by_cases zero : x = 0
  · rw [pyRepr, if_pos zero]
    exact ⟨List.cons_ne_nil _ _, by simp [Numeral.digits]⟩
  · have least := (significant_bounds (abs_pos.mpr zero) (show 0 < 15 by decide)).1
    have nonzero : (significant 15 |x|).1 ≠ 0 := by omega
    obtain ⟨whole, digit⟩ := lay_out_well_formed (decide (x < 0)) 16 (significant 15 |x|).2
      (trimmed_ne_nil nonzero) fun c => trimmed_digit
    rw [pyRepr, if_neg zero]
    refine ⟨whole, ?_⟩
    dsimp only
    split_ifs with bare
    · intro c member
      rcases List.mem_append.mp member with inside | nought
      · exact digit c (List.mem_append_left _ inside)
      · exact zeros_digit (k := 1) nought
    · exact digit

theorem double_limit_low : (1 : ℚ) / 2 ^ 1022 ≤ (10 ^ 300)⁻¹ := by decide +kernel

theorem decimal_normal {m j : ℤ} (low : -300 ≤ j) :
    (m : ℚ) * 10 ^ j = 0 ∨ 1 / 2 ^ 1022 ≤ |(m : ℚ) * 10 ^ j| := by
  by_cases zero : m = 0
  · exact Or.inl (by simp [zero])
  · refine Or.inr ?_
    have scale : (0 : ℚ) < 10 ^ j := zpow_pos (by norm_num) _
    have one : (1 : ℚ) ≤ |(m : ℚ)| := by
      rw [← Int.cast_abs]
      exact_mod_cast Int.one_le_abs zero
    have large : ((10 : ℚ) ^ 300)⁻¹ ≤ 10 ^ j := by
      rw [← zpow_natCast, ← zpow_neg]
      exact zpow_le_zpow_right₀ (by norm_num) low
    rw [abs_mul, abs_of_pos scale]
    calc (1 : ℚ) / 2 ^ 1022 ≤ 1 * 10 ^ j := by
          rw [one_mul]
          exact double_limit_low.trans large
      _ ≤ |(m : ℚ)| * 10 ^ j := mul_le_mul_of_nonneg_right one scale.le

theorem float_text_read {x : ℚ} (decimal : IsDecimal x) :
    stodNormal (floatText (.finite x)) = some x := by
  obtain ⟨m, j, rfl, short, low, high⟩ := decimal
  have value := py_repr_decimal (j := j) short
  have read : stod (floatText (.finite (m * 10 ^ j))) = some ((m : ℚ) * 10 ^ j) := by
    rw [floatText, stod_render (py_repr_well_formed _), value]
    rw [value]
    exact decimal_bounded short high
  rw [stodNormal, read, Option.filter_some, if_pos]
  exact decide_eq_true (decimal_normal low)

end Numbers

section Reader

/-- A character that needs no quotes. -/
def plain (c : Char) : Bool := !(c == ',' || c == '"' || c == '\r' || c == '\n')

theorem csv_field_plain {text : String} (all : ∀ c ∈ text.toList, plain c = true) :
    csvField text = text.toList := by
  have none : (text.toList.any fun c => c == ',' || c == '"' || c == '\r' || c == '\n') = false := by
    rw [List.any_eq_false]
    intro c member
    have here := all c member
    simp only [plain, Bool.not_eq_true'] at here
    simp [here]
  rw [csvField, if_neg (by simp [none])]

theorem digit_plain {c : Char} (digit : c.isDigit = true) : plain c = true := by
  by_contra special
  simp only [plain, Bool.not_eq_true', Bool.not_eq_false, Bool.or_eq_true, beq_iff_eq] at special
  rcases special with ((rfl | rfl) | rfl) | rfl
  all_goals cases digit

theorem mark_plain {c : Char} (mark : c ∈ marks) : plain c = true :=
  List.all_eq_true.mp (show marks.all plain = true by decide) c mark

theorem float_text_plain (x : ℚ) : ∀ c ∈ (floatText (.finite x)).toList, plain c = true := by
  intro c member
  rw [floatText, String.toList_ofList] at member
  rcases render_chars (py_repr_well_formed x) c member with digit | mark
  · exact digit_plain digit
  · exact mark_plain mark

def value : PyFloat → ℚ
  | .finite x => x
  | .infinite _ | .nan => 0

/-- A candle of the exchange as the backtest is meant to see it. -/
def barOf (b : Candle) : Bar :=
  { symbol := ⟨"", ""⟩
    timeframe := "D1"
    opening := value b.opening
    high := value b.high
    low := value b.low
    close := value b.close
    volume := b.volume
    ts := 0
    date := b.date }

/-- A candle the file can hold: decimal prices, a volume of 64 bits, and a date that needs no
    quotes. -/
structure Storable (b : Candle) : Prop where
  date : ∀ c ∈ b.date.toList, plain c = true
  prices : ∀ x ∈ [b.opening, b.high, b.low, b.close], ∃ y, x = .finite y ∧ IsDecimal y
  volume : 0 ≤ b.volume ∧ b.volume < 2 ^ 63

def candleFields (b : Candle) : List (List Char) :=
  [b.date.toList, (floatText b.opening).toList, (floatText b.high).toList, (floatText b.low).toList,
    (floatText b.close).toList, (toString b.volume).toList ++ ['\r']]

def candleLine (b : Candle) : List Char := [','].intercalate (candleFields b)

section Candles
variable {b : Candle}

theorem price_stored (storable : Storable b) {x : PyFloat}
    (member : x ∈ [b.opening, b.high, b.low, b.close]) :
    (∀ c ∈ (floatText x).toList, plain c = true) ∧ stodNormal (floatText x) = some (value x) := by
  obtain ⟨y, rfl, decimal⟩ := storable.prices x member
  exact ⟨float_text_plain y, float_text_read decimal⟩

theorem volume_stored (storable : Storable b) :
    (∀ c ∈ (toString b.volume).toList, plain c = true) ∧
      stol (String.ofList ((toString b.volume).toList ++ ['\r'])) = some b.volume := by
  obtain ⟨nonneg, fits⟩ := storable.volume
  obtain ⟨n, same⟩ := Int.eq_ofNat_of_zero_le nonneg
  rw [same] at fits ⊢
  rw [nat_text]
  refine ⟨fun c member => digit_plain (to_digits_digit member), stol_digits (by exact_mod_cast fits) ?_⟩
  rintro c ⟨⟩
  rfl

theorem candle_row (storable : Storable b) : candleRow b = candleLine b ++ ['\n'] := by
  have price := fun x member => (price_stored storable (x := x) member).1
  rw [candleRow, csvRow]
  simp only [List.map_cons, List.map_nil, csv_field_plain storable.date,
    csv_field_plain (price b.opening (by simp)), csv_field_plain (price b.high (by simp)),
    csv_field_plain (price b.low (by simp)), csv_field_plain (price b.close (by simp)),
    csv_field_plain (volume_stored storable).1, candleLine, candleFields, List.intercalate]
  simp

theorem fields_clean (storable : Storable b) {stop : Char} (special : stop = ',' ∨ stop = '\n') :
    ∀ field ∈ candleFields b, stop ∉ field := by
  have notPlain : plain stop = false := by
    rcases special with rfl | rfl <;> rfl
  have out : ∀ {text : List Char}, (∀ c ∈ text, plain c = true) → stop ∉ text := by
    intro text all member
    rw [all stop member] at notPlain
    cases notPlain
  have price := fun x member => out (price_stored storable (x := x) member).1
  intro field member
  simp only [candleFields, List.mem_cons, List.not_mem_nil, or_false] at member
  rcases member with rfl | rfl | rfl | rfl | rfl | rfl
  · exact out storable.date
  · exact price b.opening (by simp)
  · exact price b.high (by simp)
  · exact price b.low (by simp)
  · exact price b.close (by simp)
  · intro inside
    rcases List.mem_append.mp inside with digits | last
    · exact out (volume_stored storable).1 digits
    · rcases special with rfl | rfl <;> cases List.mem_singleton.mp last

theorem candle_line_parsed (storable : Storable b) :
    parseLine (String.ofList (candleLine b)) = some (barOf b) := by
  have split : (candleLine b).splitOn ',' = candleFields b :=
    List.splitOn_intercalate ',' (fields_clean storable (Or.inl rfl)) (List.cons_ne_nil _ _)
  have pieces : getlines ',' (String.ofList (candleLine b)) = (candleFields b).map String.ofList := by
    rw [getlines, String.toList_ofList, split, if_neg]
    simp [candleFields]
  have price := fun x member => (price_stored storable (x := x) member).2
  rw [parseLine, pieces]
  simp only [candleFields, List.map_cons, List.map_nil, String.ofList_toList,
    price b.opening (by simp), price b.high (by simp), price b.low (by simp),
    price b.close (by simp), (volume_stored storable).2]
  rfl

end Candles

def headerLine : List Char := "date,open,high,low,close,volume\r".toList

theorem written_lines {bars : List Candle} (storable : ∀ b ∈ bars, Storable b) :
    (writeCsv bars).toList = (headerLine :: bars.map candleLine).flatMap (· ++ ['\n']) := by
  have header : csvRow ["date", "open", "high", "low", "close", "volume"] = headerLine ++ ['\n'] := by
    decide +kernel
  rw [writeCsv, String.toList_ofList, header, List.flatMap_cons, List.flatMap_map]
  congr 1
  exact List.flatMap_congr fun b member => candle_row (storable b member)

theorem candle_line_clean {b : Candle} (storable : Storable b) : '\n' ∉ candleLine b :=
  intercalate_clean (by decide) (fields_clean storable (Or.inr rfl))

/-- The file gives back every bar that was written to it, in order. -/
theorem load_written {bars : List Candle} (storable : ∀ b ∈ bars, Storable b) :
    loadCsv (some (writeCsv bars)) = bars.map barOf := by
  have split : (writeCsv bars).toList.splitOn '\n' = (headerLine :: bars.map candleLine) ++ [[]] := by
    rw [written_lines storable]
    refine split_lines ?_
    intro line member
    rcases List.mem_cons.mp member with rfl | inside
    · decide +kernel
    · obtain ⟨b, here, rfl⟩ := List.mem_map.mp inside
      exact candle_line_clean (storable b here)
  have shape : ((headerLine :: bars.map candleLine) ++ [[]]).map String.ofList =
      (headerLine :: bars.map candleLine).map String.ofList ++ [""] := List.map_append
  have lines : getlines '\n' (writeCsv bars) = (headerLine :: bars.map candleLine).map String.ofList := by
    rw [getlines, split, shape, if_pos (List.getLast?_concat ..), List.dropLast_concat]
  have kept : (bars.map (String.ofList ∘ candleLine)).filter (· ≠ "") =
      bars.map (String.ofList ∘ candleLine) := by
    rw [List.filter_eq_self]
    intro line member
    obtain ⟨b, -, rfl⟩ := List.mem_map.mp member
    simp [candleLine, candleFields, List.intercalate]
  rw [loadCsv, lines, List.map_cons, List.tail_cons, List.map_map, kept, List.filterMap_map]
  have parsed : ∀ b ∈ bars, (parseLine ∘ String.ofList ∘ candleLine) b = (some ∘ barOf) b := by
    intro b member
    simp only [Function.comp_apply]
    exact candle_line_parsed (storable b member)
  rw [List.filterMap_congr parsed, List.filterMap_eq_map]

/-- `main` writes no file without bars. -/
def fileOf (bars : List Candle) : Option String := if bars = [] then none else some (writeCsv bars)

theorem load_file {bars : List Candle} (storable : ∀ b ∈ bars, Storable b) :
    loadCsv (fileOf bars) = bars.map barOf := by
  unfold fileOf
  split_ifs with empty
  · rw [empty]
    rfl
  · exact load_written storable

end Reader

section Download
variable {py : Builtins} {columns : List String} {rowsOf : String → List Row} {pageSize fuel : ℕ}
  {fromDate toDate : PyDate}

/-- The loop of `main` over the contracts. -/
def fetchAll (py : Builtins) (server : PageRequest → PageReply) (fuel : ℕ) (fromDate toDate : PyDate)
    (interval : ℤ) : List SeriesEntry → List Candle → Option (Except PyError (List Candle))
  | [], allBars => some (.ok allBars)
  | e :: rest, allBars =>
    match fetchCandles py server fuel e.secid fromDate toDate interval with
    | none => none
    | some (.error e) => some (.error e)
    | some (.ok bars) => fetchAll py server fuel fromDate toDate interval rest (allBars ++ bars)

/-- `main` behind its arguments; the result is the text of the file, `none` where it writes
    none. -/
def fetchMain (py : Builtins) (server : PageRequest → PageReply) (fuel : ℕ) (ticker : String)
    (fromDate toDate : PyDate) (interval : ℤ) : Option (Except PyError (Option String)) :=
  match quarterlySeries fuel ticker fromDate toDate with
  | none => none
  | some (.error e) => some (.error e)
  | some (.ok series) =>
    match fetchAll py server fuel fromDate toDate interval series [] with
    | none => none
    | some (.error e) => some (.error e)
    | some (.ok allBars) =>
      some (.ok (fileOf (mergeBars allBars)))

/-- An exchange that pages the fixed rows of every contract. -/
def exchange (columns : List String) (rowsOf : String → List Row) (pageSize : ℕ) (request : PageRequest) :
    PageReply :=
  pagedServer columns (rowsOf request.sec) pageSize request

/-- A contract's pages are asked for under its own name alone. -/
theorem fetch_pages_contract (request : PageRequest) (bars : List Candle) (start : ℕ) :
    fetchPages py (exchange columns rowsOf pageSize) request fuel bars start =
      fetchPages py (pagedServer columns (rowsOf request.sec) pageSize) request fuel bars start := by
  induction fuel generalizing bars start with
  | zero => rfl
  | succ fuel ih =>
    simp only [fetchPages, exchange, pagedServer, ih]

/-- The candles of all contracts, one contract after the other. -/
def candlesOf (py : Builtins) (columns : List String) (rowsOf : String → List Row)
    (series : List SeriesEntry) : List Candle :=
  series.flatMap fun e => parsable py columns (rowsOf e.secid)

theorem fetch_all_series (full : 100 ≤ pageSize) (fromDate toDate : PyDate) (interval : ℤ)
    {series : List SeriesEntry} (allBars : List Candle)
    (clean : ∀ e ∈ series, ∀ row ∈ rowsOf e.secid, parseRow py columns row ≠ .error .overflowError)
    (enough : ∀ e ∈ series, (rowsOf e.secid).length + 2 ≤ fuel) :
    fetchAll py (exchange columns rowsOf pageSize) fuel fromDate toDate interval series allBars =
      some (.ok (allBars ++ candlesOf py columns rowsOf series)) := by
  induction series generalizing allBars with
  | nil => simp [fetchAll, candlesOf]
  | cons e rest ih =>
    have rows := (append_rows_iff py columns (rowsOf e.secid) []).mpr (clean e List.mem_cons_self)
    have pages := fetch_candles_fold py columns (rowsOf e.secid) full e.secid fromDate toDate interval
      (enough e List.mem_cons_self)
    have fetched : fetchCandles py (exchange columns rowsOf pageSize) fuel e.secid fromDate toDate
        interval = some (.ok (parsable py columns (rowsOf e.secid))) := by
      rw [rows] at pages
      exact (fetch_pages_contract _ _ _).trans pages
    rw [fetchAll, fetched]
    dsimp only
    rw [ih _ (fun e member => clean e (List.mem_cons_of_mem _ member))
      (fun e member => enough e (List.mem_cons_of_mem _ member)), List.append_assoc]
    rfl

/-- Two contracts with a day in common, on which the second has the larger volume. -/
def twoContracts (secid : String) : List Row :=
  if secid = "SiH25" then
    [[.text "2025-03-13 00:00:00", .int 86000, .int 87000, .int 85500, .int 86600, .int 7],
      [.text "2025-03-14 00:00:00", .int 86500, .int 87000, .float (.finite (172001 / 2)), .int 86751, .int 41]]
  else [[.text "2025-03-14 00:00:00", .int 88500, .int 89000, .int 88000, .int 88750, .int 52]]

def twoContractCandles : List Candle :=
  [⟨"2025-03-13", .finite 86000, .finite 87000, .finite 85500, .finite 86600, 7⟩,
    ⟨"2025-03-14", .finite 86500, .finite 87000, .finite (172001 / 2), .finite 86751, 41⟩,
    ⟨"2025-03-14", .finite 88500, .finite 89000, .finite 88000, .finite 88750, 52⟩]

theorem two_contract_candles :
    candlesOf noTexts candleColumns twoContracts (seriesOf "Si" ⟨20160, by decide⟩ ⟨20240, by decide⟩) =
      twoContractCandles := by
  decide +kernel

theorem two_contracts_storable : ∀ b ∈ twoContractCandles, Storable b := by
  have whole : ∀ m : ℤ, m.natAbs < 10 ^ 15 → IsDecimal m := by
    intro m short
    exact ⟨m, 0, by simp, short, by decide, by decide⟩
  have half : IsDecimal (172001 / 2) := ⟨860005, -1, by norm_num, by decide, by decide, by decide⟩
  simp only [twoContractCandles, List.forall_mem_cons, List.not_mem_nil, false_imp_iff, implies_true,
    and_true]
  refine ⟨⟨List.all_eq_true.mp (by decide), ?_, by decide⟩,
    ⟨List.all_eq_true.mp (by decide), ?_, by decide⟩, ⟨List.all_eq_true.mp (by decide), ?_, by decide⟩⟩
  · simp only [List.forall_mem_cons, List.not_mem_nil, false_imp_iff, implies_true, and_true]
    exact ⟨⟨_, rfl, whole 86000 (by decide)⟩, ⟨_, rfl, whole 87000 (by decide)⟩,
      ⟨_, rfl, whole 85500 (by decide)⟩, ⟨_, rfl, whole 86600 (by decide)⟩⟩
  · simp only [List.forall_mem_cons, List.not_mem_nil, false_imp_iff, implies_true, and_true]
    exact ⟨⟨_, rfl, whole 86500 (by decide)⟩, ⟨_, rfl, whole 87000 (by decide)⟩, ⟨_, rfl, half⟩,
      ⟨_, rfl, whole 86751 (by decide)⟩⟩
  · simp only [List.forall_mem_cons, List.not_mem_nil, false_imp_iff, implies_true, and_true]
    exact ⟨⟨_, rfl, whole 88500 (by decide)⟩, ⟨_, rfl, whole 89000 (by decide)⟩,
      ⟨_, rfl, whole 88000 (by decide)⟩, ⟨_, rfl, whole 88750 (by decide)⟩⟩

end Download

end FinamHistoryFile
