import FinamTradebot.MoexData

/-!
The bars of a download: the pages of one contract read to the end, and the contracts'
bars merged into one bar a day.
-/
namespace FinamHistoryBars
open FinamMoex OrderedDict

section Merge

theorem merge_bar_keeps_best : mergeBar = keepBest Candle.date Candle.volume := by
  funext seen bar
  unfold mergeBar keepBest
  cases seen.get? bar.date with
  | none => rfl
  | some held => rfl

theorem merge_sorted_best (bars : List Candle) :
    mergeBars bars = sortedBest Candle.date Candle.volume bars := by
  unfold mergeBars sortedBest best
  rw [merge_bar_keeps_best]

/-- One bar a day: dates in strictly increasing order, all those of the input, and under
    each the first bar of greatest volume. -/
structure Merged (bars merged : List Candle) : Prop where
  increasing : merged.Pairwise fun a b => a.date < b.date
  dates : ∀ d, d ∈ merged.map Candle.date ↔ d ∈ bars.map Candle.date
  first : ∀ x ∈ merged, Leads Candle.date Candle.volume bars x

theorem merged_bars (bars : List Candle) : Merged bars (mergeBars bars) := by
  rw [merge_sorted_best]
  refine ⟨sorted_increasing _ _ bars, ?_, fun x => mem_sorted.mp⟩
  intro d
  simp only [List.mem_map, mem_sorted]
  constructor
  · rintro ⟨x, leads, rfl⟩
    exact ⟨x, leads_mem leads, rfl⟩
  · rintro ⟨z, member, rfl⟩
    obtain ⟨x, same, leads⟩ := leader_exists Candle.date Candle.volume bars z member
    exact ⟨x, leads, same⟩

/-- The merge is a function of the bars alone where no day has two bars of one volume, and
    there is nothing to merge in its own output. -/
theorem merge_bars_best_per_day (bars : List Candle) :
    Merged bars (mergeBars bars) ∧
      (DistinctRanks Candle.date Candle.volume bars →
        ∀ other, other.Perm bars → mergeBars other = mergeBars bars) ∧
      mergeBars (mergeBars bars) = mergeBars bars := by
  refine ⟨merged_bars bars, ?_, ?_⟩
  · intro distinct other perm
    rw [merge_sorted_best, merge_sorted_best]
    exact sorted_perm distinct perm
  · rw [merge_sorted_best, merge_sorted_best]
    exact sorted_again bars

/-- The last day of one contract in the next one's first days. -/
def overlapDay (volume : ℤ) : Candle :=
  ⟨"2026-03-19", .finite 100, .finite 101, .finite 99, .finite 100, volume⟩

theorem overlap_in_either_order :
    mergeBars [overlapDay 5, overlapDay 7] = mergeBars [overlapDay 7, overlapDay 5] :=
  (merge_bars_best_per_day [overlapDay 7, overlapDay 5]).2.1 (by simp [DistinctRanks, overlapDay])
    [overlapDay 5, overlapDay 7] (List.Perm.swap _ _ _)

end Merge

section Pages
variable {py : Builtins} {columns : List String} {rows : List Row} {pageSize start fuel : ℕ}
  {request : PageRequest} {bars : List Candle}

/-- A server that answers every request with the next rows of a fixed list. -/
def pagedServer (columns : List String) (rows : List Row) (pageSize : ℕ) (request : PageRequest) :
    PageReply :=
  .page columns ((rows.drop request.start).take pageSize)

theorem page_split (rows : List Row) (pageSize start : ℕ) :
    rows.drop start = (rows.drop start).take pageSize ++
      rows.drop (start + ((rows.drop start).take pageSize).length) := by
  rw [← List.drop_drop, List.length_take]
  rcases le_total pageSize (rows.drop start).length with short | long
  · rw [min_eq_left short, List.take_append_drop]
  · rw [min_eq_right long, List.take_of_length_le long, List.drop_length, List.append_nil]

/-- Read to the end, the pages are the rows one after the other: a page of fewer than 100
    rows ends the list, since a page that is not the last has `pageSize` of them. -/
theorem fetch_pages (full : 100 ≤ pageSize) (inside : start ≤ rows.length)
    (enough : rows.length - start + 2 ≤ fuel) :
    fetchPages py (pagedServer columns rows pageSize) request fuel bars start =
      some ((rows.drop start).foldlM (appendRow py columns) bars) := by
  induction fuel generalizing bars start with
  | zero => omega
  | succ fuel ih =>
    have split := page_split rows pageSize start
    have length : ((rows.drop start).take pageSize).length = min pageSize (rows.length - start) := by
      rw [List.length_take, List.length_drop]
    rw [split, List.foldlM_append, fetchPages, pagedServer]
    dsimp only
    generalize (rows.drop start).take pageSize = page at *
    by_cases empty : page = []
    · subst empty
      have past : rows.length ≤ start := by
        rw [List.length_nil] at length
        omega
      have nothing : rows.drop start = [] := List.drop_eq_nil_of_le past
      simp [nothing, pure, Except.pure, bind, Except.bind]
    · have some_ : 0 < page.length := List.length_pos_iff.mpr empty
      rw [if_neg empty]
      cases folded : page.foldlM (appendRow py columns) bars with
      | error e => rfl
      | ok next =>
        dsimp only
        split_ifs with last
        · have ended : rows.drop (start + page.length) = [] := List.drop_eq_nil_of_le (by omega)
          rw [ended]
          rfl
        · exact ih (by omega) (by omega)

theorem fetch_candles_fold (py : Builtins) (columns : List String) (rows : List Row)
    (full : 100 ≤ pageSize) (secid : String) (fromDate toDate : PyDate) (interval : ℤ)
    (enough : rows.length + 2 ≤ fuel) :
    fetchCandles py (pagedServer columns rows pageSize) fuel secid fromDate toDate interval =
      some (rows.foldlM (appendRow py columns) []) := by
  have pages : fetchPages py (pagedServer columns rows pageSize)
      ⟨secid, interval, fromDate, toDate, 0⟩ fuel [] 0 =
        some ((rows.drop 0).foldlM (appendRow py columns) []) :=
    fetch_pages full (Nat.zero_le _) (by omega)
  rwa [List.drop_zero] at pages

/-- The records of the rows that can be read. -/
def parsable (py : Builtins) (columns : List String) (rows : List Row) : List Candle :=
  rows.filterMap fun row => (parseRow py columns row).toOption

theorem append_rows_iff (py : Builtins) (columns : List String) (rows : List Row) :
    ∀ bars, rows.foldlM (appendRow py columns) bars = .ok (bars ++ parsable py columns rows) ↔
      ∀ row ∈ rows, parseRow py columns row ≠ .error .overflowError := by
  induction rows with
  | nil =>
    intro bars
    simp [parsable, pure, Except.pure]
  | cons row rest ih =>
    intro bars
    rw [List.foldlM_cons, List.forall_mem_cons]
    unfold appendRow
    cases read : parseRow py columns row with
    | ok candle =>
      have more : parsable py columns (row :: rest) = candle :: parsable py columns rest := by
        simp [parsable, read, Except.toOption]
      have later := ih (bars ++ [candle])
      rw [List.append_assoc, List.singleton_append] at later
      rw [more, and_iff_right (by simp)]
      exact later
    | error e =>
      have same : parsable py columns (row :: rest) = parsable py columns rest := by
        simp [parsable, read, Except.toOption]
      rw [same]
      cases e with
      | overflowError => simp [PyError.caught, bind, Except.bind]
      | keyError =>
        rw [and_iff_right (by simp)]
        exact ih bars
      | valueError =>
        rw [and_iff_right (by simp)]
        exact ih bars
      | typeError =>
        rw [and_iff_right (by simp)]
        exact ih bars

def candleColumns : List String := ["begin", "open", "high", "low", "close", "volume"]

/-- The row of one day; every price is an integer. -/
def dayRow (volume : Json) : Row :=
  [.text "2026-01-05 00:00:00", .int 100, .int 101, .int 99, .int 100, volume]

/-- A `Builtins` that reads no text: the rows here have none among their numbers. -/
def noTexts : Builtins := ⟨fun _ => none, fun _ => ""⟩

end Pages

end FinamHistoryBars
