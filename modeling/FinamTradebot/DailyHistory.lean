import FinamTradebot.RingHistory
import FinamTradebot.Runs
import FinamTradebot.StrategyRunner
import Mathlib.Data.List.Chain
import Mathlib.Data.List.Induction
import Mathlib.Tactic.Linarith

/-!
The daily ranges behind the NR7 flag. Thirty slots, a saturating count and a backward
index stand for the list of all ranges received.
-/
namespace FinamDailyHistory
open FinamInterfaces FinamSession FinamConfluence FinamRunner Runs RingHistory

def barRange (bar : Bar) : ℚ := bar.high - bar.low

/-- At least `p` ranges, and the latest is strictly below each of the `p - 1` before it. -/
def Narrowest (p : ℕ) (ranges : List ℚ) : Prop :=
  match ranges.reverse with
  | [] => False
  | last :: earlier => p ≤ ranges.length ∧ ∀ x ∈ earlier.take (p - 1), last < x

section Checked

/-- `daily_ranges_[idx]`, defined on the array's own slots only. -/
def rangeAt (s : SessionContext) (idx : ℤ) : Option ℚ :=
  if 0 ≤ idx ∧ idx < kMaxDailyHistory then some (s.dailyRanges idx) else none

def narrowLoop (s : SessionContext) (lastRange : ℚ) : List ℕ → Option Bool
  | [] => some true
  | i :: rest =>
    match rangeAt s (s.slot i) with
    | none => none
    | some range => if range ≤ lastRange then some false else narrowLoop s lastRange rest

def updateNr7Checked (s : SessionContext) : Option SessionContext :=
  if s.dailyCount < (s.cfg.nr7Period : ℤ) then some { s with nr7Confirmed := false }
  else
    match rangeAt s (s.slot 0) with
    | none => none
    | some lastRange =>
      (narrowLoop s lastRange (List.range' 1 (s.cfg.nr7Period - 1))).map
        fun narrow => { s with nr7Confirmed := narrow }

/-- The write of `on_daily_bar` and its two counters. -/
def storeRange (s : SessionContext) (range : ℚ) : SessionContext :=
  { s with
    dailyRanges := Function.update s.dailyRanges s.dailyIdx range
    dailyIdx := (s.dailyIdx + 1).tmod kMaxDailyHistory
    dailyCount := if s.dailyCount < kMaxDailyHistory then s.dailyCount + 1 else s.dailyCount }

/-- `on_daily_bar` that stops at the first access outside the array. -/
def onDailyBarChecked (s : SessionContext) (bar : Bar) : Option SessionContext :=
  if 0 ≤ s.dailyIdx ∧ s.dailyIdx < kMaxDailyHistory then
    updateNr7Checked ((storeRange s (barRange bar)).updateAtr (barRange bar))
  else none

end Checked

/-- What the ring says about the ranges received so far, newest first. -/
structure Recorded (s : SessionContext) (recent : List ℚ) : Prop where
  ring : Remembers kMaxDailyHistory s.dailyRanges s.dailyIdx recent
  count : s.dailyCount = min (recent.length : ℤ) kMaxDailyHistory

section Step
variable {s : SessionContext} {recent : List ℚ}

theorem daily_eq (bar : Bar) :
    s.onDailyBar bar = ((storeRange s (barRange bar)).updateAtr (barRange bar)).updateNr7 := rfl

theorem atr_frame (range : ℚ) : ∃ atr, s.updateAtr range = { s with atr := atr } := by
  unfold SessionContext.updateAtr
  split <;> exact ⟨_, rfl⟩

theorem nr7_frame : ∃ narrow, s.updateNr7 = { s with nr7Confirmed := narrow } := by
  unfold SessionContext.updateNr7
  split <;> exact ⟨_, rfl⟩

theorem recorded_init (cfg : SessionContextConfig) : Recorded (SessionContext.init cfg) [] :=
  ⟨remembers_nothing (by decide) _, rfl⟩

theorem recorded_store (recorded : Recorded s recent) (range : ℚ) :
    Recorded (storeRange s range) (range :: recent) := by
  obtain ⟨ring, count⟩ := recorded
  have low := ring.low
  have next : (s.dailyIdx + 1).tmod kMaxDailyHistory = (s.dailyIdx + 1) % kMaxDailyHistory :=
    Int.tmod_eq_emod_of_nonneg (by omega)
  constructor
  · simp only [storeRange, next]
    exact remembers_push ring range
  · simp only [storeRange, count, List.length_cons, kMaxDailyHistory]
    split <;> omega

theorem recorded_stored (recorded : Recorded s recent) (bar : Bar) :
    Recorded ((storeRange s (barRange bar)).updateAtr (barRange bar)) (barRange bar :: recent) := by
  have stored := recorded_store recorded (barRange bar)
  obtain ⟨atr, eq⟩ := atr_frame (s := storeRange s (barRange bar)) (barRange bar)
  rw [eq]
  exact ⟨stored.ring, stored.count⟩

theorem recorded_daily (recorded : Recorded s recent) (bar : Bar) :
    Recorded (s.onDailyBar bar) (barRange bar :: recent) := by
  have stored := recorded_stored recorded bar
  rw [daily_eq]
  obtain ⟨narrow, eq⟩ := nr7_frame
    (s := (storeRange s (barRange bar)).updateAtr (barRange bar))
  rw [eq]
  exact ⟨stored.ring, stored.count⟩

/-- The backward index stays inside the array as far back as the ring is full. -/
theorem slot_inside (recorded : Recorded s recent) {back : ℕ} (near : (back : ℤ) < kMaxDailyHistory) :
    s.slot back = (s.dailyIdx - 1 - back) % kMaxDailyHistory ∧
      0 ≤ s.slot back ∧ s.slot back < kMaxDailyHistory := by
  have low := recorded.ring.low
  have positive : (0 : ℤ) < kMaxDailyHistory := by decide
  have eq : s.slot back = (s.dailyIdx - 1 - back) % kMaxDailyHistory := by
    unfold SessionContext.slot
    rw [Int.tmod_eq_emod_of_nonneg (by omega), Int.add_emod_right]
  rw [eq]
  exact ⟨rfl, Int.emod_nonneg _ positive.ne', Int.emod_lt_of_pos _ positive⟩

theorem slot_read (recorded : Recorded s recent) {back : ℕ} (near : (back : ℤ) < kMaxDailyHistory)
    {x : ℚ} (found : recent[back]? = some x) : s.dailyRanges (s.slot back) = x := by
  rw [(slot_inside recorded near).1]
  exact recorded.ring.read back near x found

theorem range_at_slot (recorded : Recorded s recent) {back : ℕ}
    (near : (back : ℤ) < kMaxDailyHistory) :
    rangeAt s (s.slot back) = some (s.dailyRanges (s.slot back)) := by
  unfold rangeAt
  rw [if_pos (slot_inside recorded near).2]

theorem narrow_loop_reads (recorded : Recorded s recent) (lastRange : ℚ) {steps : List ℕ}
    (near : ∀ i ∈ steps, (i : ℤ) < kMaxDailyHistory) : narrowLoop s lastRange steps =
      some (steps.all fun i => !decide (s.dailyRanges (s.slot i) ≤ lastRange)) := by
  induction steps with
  | nil => rfl
  | cons i rest ih =>
    have later := ih (fun j member => near j (List.mem_cons_of_mem i member))
    simp only [narrowLoop, range_at_slot recorded (near i List.mem_cons_self), later, List.all_cons]
    by_cases narrow : s.dailyRanges (s.slot i) ≤ lastRange <;> simp [narrow]

theorem loop_steps (p : ℕ) : List.range' 1 (p - 1) = (List.range (p - 1)).map (· + 1) := by
  rw [List.range'_eq_map_range]
  simp only [Nat.add_comm]

theorem nr7_checked (recorded : Recorded s recent) : updateNr7Checked s = some s.updateNr7 := by
  have count := recorded.count
  unfold updateNr7Checked SessionContext.updateNr7
  split_ifs with few
  · rfl
  · have most : (s.cfg.nr7Period : ℤ) ≤ kMaxDailyHistory := by omega
    have near : ∀ i ∈ List.range' 1 (s.cfg.nr7Period - 1), (i : ℤ) < kMaxDailyHistory := by
      intro i member
      rw [List.mem_range'_1] at member
      omega
    have last := range_at_slot recorded (show ((0 : ℕ) : ℤ) < kMaxDailyHistory by decide)
    simp only [last, narrow_loop_reads recorded _ near, Option.map_some]
    simp only [loop_steps, List.all_map, Function.comp_def]

theorem daily_checked (recorded : Recorded s recent) (bar : Bar) :
    onDailyBarChecked s bar = some (s.onDailyBar bar) := by
  unfold onDailyBarChecked
  rw [if_pos ⟨recorded.ring.low, recorded.ring.high⟩, nr7_checked (recorded_stored recorded bar)]
  rfl

theorem take_forall_iff {earlier : List ℚ} {n : ℕ} (enough : n ≤ earlier.length) (P : ℚ → Prop) :
    (∀ x ∈ earlier.take n, P x) ↔ ∀ j < n, ∀ x, earlier[j]? = some x → P x := by
  simp only [List.mem_take_iff_getElem]
  constructor
  · intro every j below x found
    obtain ⟨inside, rfl⟩ := List.getElem?_eq_some_iff.mp found
    exact every _ ⟨j, by omega, rfl⟩
  · rintro every x ⟨j, below, rfl⟩
    exact every j (by omega) _ (List.getElem?_eq_getElem (by omega))

/-- The flag of `update_nr7` read on the list of ranges, for a period the ring can hold. -/
theorem nr7_recorded {last : ℚ} {earlier : List ℚ} (recorded : Recorded s (last :: earlier))
    (held : (s.cfg.nr7Period : ℤ) ≤ kMaxDailyHistory) : s.updateNr7.nr7Confirmed = true ↔
      s.cfg.nr7Period ≤ earlier.length + 1 ∧ ∀ x ∈ earlier.take (s.cfg.nr7Period - 1), last < x := by
  have count := recorded.count
  simp only [List.length_cons] at count
  unfold SessionContext.updateNr7
  split_ifs with few
  · simp only [false_iff, not_and]
    omega
  · have enough : s.cfg.nr7Period ≤ earlier.length + 1 := by omega
    have first : s.dailyRanges (s.slot 0) = last := slot_read recorded (by decide) rfl
    have each : ∀ j < s.cfg.nr7Period - 1, ∀ x, earlier[j]? = some x →
        s.dailyRanges (s.slot (j + 1)) = x := by
      intro j below x found
      exact slot_read recorded (by omega) (by simpa using found)
    rw [take_forall_iff (by omega)]
    simp only [first, List.all_eq_true, List.mem_range, Bool.not_eq_eq_eq_not, Bool.not_true,
      decide_eq_false_iff_not, not_le, enough, true_and]
    constructor
    · intro every j below x found
      have wider := every j below
      rwa [each j below x found] at wider
    · intro every j below
      have found := List.getElem?_eq_getElem (show j < earlier.length by omega)
      rw [each j below _ found]
      exact every j below _ found

end Step

theorem daily_config (s : SessionContext) (bar : Bar) : (s.onDailyBar bar).cfg = s.cfg := by
  obtain ⟨ranges, idx, count, atr, nr7, eq⟩ := daily_frame s bar
  rw [eq]

theorem recorded_run (cfg : SessionContextConfig) (bars : List Bar) :
    Recorded (run SessionContext.onDailyBar (SessionContext.init cfg) bars)
      (bars.map barRange).reverse := by
  induction bars using List.reverseRecOn with
  | nil => exact recorded_init cfg
  | append_singleton bars bar ih =>
    rw [run_append, List.map_append, List.reverse_append]
    exact recorded_daily ih bar

theorem config_run (cfg : SessionContextConfig) (bars : List Bar) :
    (run SessionContext.onDailyBar (SessionContext.init cfg) bars).cfg = cfg :=
  run_invariant (I := fun s => s.cfg = cfg) (fun s bar same => (daily_config s bar).trans same)
    bars rfl

theorem run_last (cfg : SessionContextConfig) (first : List Bar) (bar : Bar) : ∃ s,
    run SessionContext.onDailyBar (SessionContext.init cfg) (first ++ [bar]) = s.updateNr7 ∧
      Recorded s (barRange bar :: (first.map barRange).reverse) ∧ s.cfg = cfg := by
  refine ⟨_, ?_, recorded_stored (recorded_run cfg first) bar, ?_⟩
  · rw [run_append]
    rfl
  · obtain ⟨atr, frame⟩ := atr_frame
      (s := storeRange (run SessionContext.onDailyBar (SessionContext.init cfg) first) (barRange bar))
      (barRange bar)
    rw [frame]
    exact config_run cfg first

/-- After each bar the flag is that of the whole list of ranges. -/
theorem nr7_run {cfg : SessionContextConfig} (held : cfg.nr7Period ≤ 30) {bars : List Bar}
    (received : bars ≠ []) :
    (run SessionContext.onDailyBar (SessionContext.init cfg) bars).nr7Confirmed = true ↔
      Narrowest cfg.nr7Period (bars.map barRange) := by
  obtain ⟨first, bar, rfl⟩ : ∃ first bar, bars = first ++ [bar] :=
    ⟨_, _, (List.dropLast_append_getLast received).symm⟩
  obtain ⟨s, eq, recorded, config⟩ := run_last cfg first bar
  rw [eq, nr7_recorded recorded (by rw [config]; unfold kMaxDailyHistory; omega), config]
  simp [Narrowest]

/-- A daily bar of a symbol with a given range. -/
def dailyBar (symbol : Symbol) (range : ℚ) (ts : ℤ) : Bar :=
  { symbol := symbol, timeframe := "D1", opening := 0, high := range, low := 0, close := 0, ts := ts }

@[simp] theorem daily_bar_range (symbol : Symbol) (range : ℚ) (ts : ℤ) :
    barRange (dailyBar symbol range ts) = range := by
  simp [barRange, dailyBar]

@[simp] theorem daily_bar_ts (symbol : Symbol) (range : ℚ) (ts : ℤ) :
    (dailyBar symbol range ts).ts = ts := rfl

/-- The ring agrees with the full history for every period it can hold, and no period
    takes an index out of the array. -/
theorem nr7_full_history (cfg : SessionContextConfig) (bars : List Bar) :
    (1 ≤ cfg.nr7Period → cfg.nr7Period ≤ 30 → bars ≠ [] →
      ((run SessionContext.onDailyBar (SessionContext.init cfg) bars).nr7Confirmed = true ↔
        Narrowest cfg.nr7Period (bars.map barRange))) ∧
    Along SessionContext.onDailyBar (fun s bar => onDailyBarChecked s bar = some (s.onDailyBar bar))
      (SessionContext.init cfg) bars := by
  constructor
  · intro _ held received
    exact nr7_run held received
  · apply along_invariant (I := fun s => ∃ recent, Recorded s recent)
    · rintro s bar ⟨recent, recorded⟩
      exact daily_checked recorded bar
    · rintro s bar ⟨recent, recorded⟩
      exact ⟨_, recorded_daily recorded bar⟩
    · exact ⟨[], recorded_init cfg⟩

theorem narrowing_days_confirmed :
    Narrowest 3 [40, 30, 20, 10] ∧ (run SessionContext.onDailyBar
      (SessionContext.init { nr7Period := 3 })
      ([40, 30, 20, 10].map fun range => dailyBar ⟨"SiM6", "RTSX"⟩ range 0)).nr7Confirmed = true := by
  have history := nr7_full_history { nr7Period := 3 }
    ([40, 30, 20, 10].map fun range => dailyBar ⟨"SiM6", "RTSX"⟩ range 0)
  have agrees := history.1 (by decide) (by decide) (by decide)
  have narrow : Narrowest 3 [40, 30, 20, 10] := by norm_num [Narrowest]
  refine ⟨narrow, agrees.mpr ?_⟩
  simpa [List.map_map, Function.comp_def] using narrow

section Redelivery

/-- Of deliveries with one timestamp in a row, the last. -/
def lastDeliveries : List Bar → List Bar
  | [] => []
  | [bar] => [bar]
  | bar :: next :: rest =>
    if bar.ts = next.ts then lastDeliveries (next :: rest)
    else bar :: lastDeliveries (next :: rest)

def DailyBars (symbol : Symbol) (bars : List Bar) : Prop :=
  ∀ bar ∈ bars, bar.symbol = symbol ∧ bar.timeframe = "D1"

def feedDaily (s : ConfluenceStrategy) (bars : List Bar) : SessionContext :=
  (run (fun s bar => (s.onBar bar).1) s bars).sessionCtx

/-- The bars give the range average and the flag that their last deliveries give. -/
def CountsOnce (s : ConfluenceStrategy) (bars : List Bar) : Prop :=
  (feedDaily s bars).atr = (feedDaily s (lastDeliveries bars)).atr ∧
    (feedDaily s bars).nr7Confirmed = (feedDaily s (lastDeliveries bars)).nr7Confirmed

theorem feed_daily {s : ConfluenceStrategy} {bars : List Bar} (daily : DailyBars s.cfg.symbol bars) :
    feedDaily s bars = run SessionContext.onDailyBar s.sessionCtx bars := by
  unfold feedDaily
  induction bars generalizing s with
  | nil => rfl
  | cons bar rest ih =>
    obtain ⟨own, frame⟩ := daily bar List.mem_cons_self
    have step : (s.onBar bar).1 = { s with sessionCtx := s.sessionCtx.onDailyBar bar } := by
      simp [ConfluenceStrategy.onBar, own, detectTimeframe, frame]
    simp only [run, step]
    exact ih (s := { s with sessionCtx := s.sessionCtx.onDailyBar bar })
      (fun other member => daily other (List.mem_cons_of_mem bar member))

theorem last_deliveries_sublist (bars : List Bar) : (lastDeliveries bars).Sublist bars := by
  induction bars using lastDeliveries.induct with
  | case1 => exact List.Sublist.refl _
  | case2 bar => exact List.Sublist.refl _
  | case3 bar next rest same ih =>
    rw [lastDeliveries, if_pos same]
    exact ih.cons bar
  | case4 bar next rest differs ih =>
    rw [lastDeliveries, if_neg differs]
    exact ih.cons_cons bar

theorem last_deliveries_distinct {bars : List Bar}
    (distinct : (bars.map (·.ts)).IsChain (· ≠ ·)) : lastDeliveries bars = bars := by
  induction bars using lastDeliveries.induct with
  | case1 => rfl
  | case2 bar => rfl
  | case3 bar next rest same ih =>
    simp only [List.map_cons, List.isChain_cons_cons] at distinct
    exact absurd same distinct.1
  | case4 bar next rest differs ih =>
    simp only [List.map_cons, List.isChain_cons_cons] at distinct
    rw [lastDeliveries, if_neg differs, ih distinct.2]

/-- The deliveries behind a stretch without repeats are kept as they are. -/
theorem last_deliveries_suffix (first : List Bar) {later : List Bar} (some_ : later ≠ [])
    (distinct : (later.map (·.ts)).IsChain (· ≠ ·)) :
    ∃ kept, lastDeliveries (first ++ later) = kept ++ later ∧ kept ⊆ first := by
  induction first with
  | nil => exact ⟨[], last_deliveries_distinct distinct, List.Subset.refl _⟩
  | cons bar rest ih =>
    obtain ⟨kept, eq, subset⟩ := ih
    obtain ⟨next, tail, split⟩ : ∃ next tail, rest ++ later = next :: tail :=
      List.exists_cons_of_ne_nil (by simp [some_])
    rw [List.cons_append, split, lastDeliveries, ← split, eq]
    split_ifs
    · exact ⟨kept, rfl, List.subset_cons_of_subset bar subset⟩
    · exact ⟨bar :: kept, rfl, List.cons_subset_cons bar subset⟩

theorem last_deliveries_last (first : List Bar) (bar : Bar) :
    ∃ kept, lastDeliveries (first ++ [bar]) = kept ++ [bar] ∧ kept ⊆ first :=
  last_deliveries_suffix first (by simp) (by simp)

theorem last_deliveries_superseded (first : List Bar) {bar : Bar} {later : List Bar}
    (again : (later.map (·.ts)).head? = some bar.ts) :
    lastDeliveries (first ++ bar :: later) = lastDeliveries (first ++ later) := by
  cases later with
  | nil => simp at again
  | cons next rest =>
    have same : bar.ts = next.ts := by simpa using again.symm
    induction first with
    | nil => rw [List.nil_append, lastDeliveries, if_pos same, List.nil_append]
    | cons older first ih =>
      cases first with
      | nil => simp only [List.nil_append, List.cons_append, lastDeliveries, same, ↓reduceIte]
      | cons other first =>
        simp only [List.cons_append, lastDeliveries] at ih ⊢
        rw [ih]

section Average
variable {s : SessionContext} {bars : List Bar}

theorem atr_update (range : ℚ) : (s.updateAtr range).atr =
    if s.atr < 1 / 1000000000 then range
    else s.atr * (1 - 1 / (s.cfg.atrPeriod : ℚ)) + range * (1 / (s.cfg.atrPeriod : ℚ)) := by
  unfold SessionContext.updateAtr
  split <;> rfl

theorem atr_daily (bar : Bar) : (s.onDailyBar bar).atr =
    if s.atr < 1 / 1000000000 then barRange bar
    else s.atr * (1 - 1 / (s.cfg.atrPeriod : ℚ)) + barRange bar * (1 / (s.cfg.atrPeriod : ℚ)) := by
  rw [daily_eq]
  obtain ⟨narrow, frame⟩ := nr7_frame
    (s := (storeRange s (barRange bar)).updateAtr (barRange bar))
  rw [frame]
  exact atr_update (s := storeRange s (barRange bar)) (barRange bar)

theorem atr_flat (zero : s.atr = 0) (flat : ∀ bar ∈ bars, barRange bar = 0) :
    (run SessionContext.onDailyBar s bars).atr = 0 := by
  induction bars generalizing s with
  | nil => exact zero
  | cons bar rest ih =>
    apply ih
    · rw [atr_daily, zero, flat bar List.mem_cons_self]
      norm_num
    · exact fun other member => flat other (List.mem_cons_of_mem bar member)

theorem smoothing_keeps_half {period : ℕ} (smooth : period ≠ 1) : (1 : ℚ) / 2 ≤ 1 - 1 / period := by
  rcases Nat.eq_zero_or_pos period with rfl | positive
  · norm_num
  · have two : (2 : ℚ) ≤ period := by
      exact_mod_cast (show 2 ≤ period by omega)
    have bound : (1 : ℚ) / period ≤ 1 / 2 := one_div_le_one_div_of_le (by norm_num) two
    linarith

/-- A range that entered the average is still there after any number of flat days. -/
theorem atr_lingers (smooth : s.cfg.atrPeriod ≠ 1) (flat : ∀ bar ∈ bars, barRange bar = 0)
    (large : 2 ^ bars.length ≤ s.atr) : 1 ≤ (run SessionContext.onDailyBar s bars).atr := by
  induction bars generalizing s with
  | nil => simpa [run] using large
  | cons bar rest ih =>
    have half := smoothing_keeps_half smooth
    have positive : (1 : ℚ) ≤ 2 ^ rest.length := one_le_pow₀ (by norm_num)
    rw [List.length_cons, pow_succ] at large
    apply ih
    · rwa [daily_config]
    · exact fun other member => flat other (List.mem_cons_of_mem bar member)
    · rw [atr_daily, if_neg (by norm_num; linarith), flat bar List.mem_cons_self, zero_mul, add_zero]
      nlinarith

theorem atr_unsmoothed {cfg : SessionContextConfig} (period : cfg.atrPeriod = 1) (first : List Bar)
    (bar : Bar) : (run SessionContext.onDailyBar (SessionContext.init cfg) (first ++ [bar])).atr =
      barRange bar := by
  rw [run_append]
  simp only [run, atr_daily, config_run, period]
  split_ifs
  · rfl
  · norm_num

end Average

section Flag
variable {p : ℕ}

theorem narrowest_append (earlier : List ℚ) (last : ℚ) : Narrowest p (earlier ++ [last]) ↔
    p ≤ earlier.length + 1 ∧ ∀ x ∈ earlier.reverse.take (p - 1), last < x := by
  simp [Narrowest]

/-- Only the latest `p` ranges count. -/
theorem narrowest_suffix (first : List ℚ) {later : List ℚ} (full : later.length = p)
    (some_ : later ≠ []) : Narrowest p (first ++ later) ↔ Narrowest p later := by
  obtain ⟨earlier, last, rfl⟩ : ∃ earlier last, later = earlier ++ [last] :=
    ⟨_, _, (List.dropLast_append_getLast some_).symm⟩
  rw [← List.append_assoc, narrowest_append, narrowest_append]
  simp only [List.length_append, List.length_singleton] at full
  have same : (first ++ earlier).reverse.take (p - 1) = earlier.reverse.take (p - 1) := by
    rw [List.reverse_append, List.take_append_of_le_length (by simp; omega)]
  rw [same, List.length_append]
  constructor
  · intro narrow
    exact ⟨by omega, narrow.2⟩
  · intro narrow
    exact ⟨by omega, narrow.2⟩

theorem narrowest_zero {ranges : List ℚ} (some_ : ranges ≠ []) : Narrowest 0 ranges := by
  obtain ⟨earlier, last, rfl⟩ : ∃ earlier last, ranges = earlier ++ [last] :=
    ⟨_, _, (List.dropLast_append_getLast some_).symm⟩
  rw [narrowest_append]
  simp

theorem few_not_narrowest {ranges : List ℚ} (few : ranges.length < p) : ¬Narrowest p ranges := by
  intro narrow
  rcases List.eq_nil_or_concat ranges with rfl | ⟨earlier, last, rfl⟩
  · exact narrow.elim
  · rw [List.concat_eq_append, narrowest_append] at narrow
    simp only [List.concat_eq_append, List.length_append, List.length_singleton] at few
    omega

theorem nr7_overlong {cfg : SessionContextConfig} (long : 30 < cfg.nr7Period) (bars : List Bar) :
    (run SessionContext.onDailyBar (SessionContext.init cfg) bars).nr7Confirmed = false := by
  induction bars using List.reverseRecOn with
  | nil => rfl
  | append_singleton first bar ih =>
    obtain ⟨s, eq, recorded, config⟩ := run_last cfg first bar
    have count := recorded.count
    rw [eq, SessionContext.updateNr7, if_pos]
    rw [count, config, kMaxDailyHistory]
    omega

end Flag

/-- When a repeated delivery leaves no trace: there is none; or the average does not
    smooth and the flag's window holds none, does not fit the ring or is not filled. -/
def Harmless (cfg : SessionContextConfig) (stamps : List ℤ) : Prop :=
  stamps.IsChain (· ≠ ·) ∨ (cfg.atrPeriod = 1 ∧ (30 < cfg.nr7Period ∨
    stamps.length < cfg.nr7Period ∨ (stamps.reverse.take cfg.nr7Period).IsChain (· ≠ ·)))

section Exact
variable {libm : FinamOrderBook.Libm} {cfg : ConfluenceConfig} {bars : List Bar} {stamps : List ℤ}

theorem counts_once_iff (daily : DailyBars cfg.symbol bars) :
    CountsOnce (ConfluenceStrategy.init libm cfg) bars ↔
      (run SessionContext.onDailyBar (SessionContext.init cfg.sessionCfg) bars).atr =
        (run SessionContext.onDailyBar (SessionContext.init cfg.sessionCfg) (lastDeliveries bars)).atr ∧
      (run SessionContext.onDailyBar (SessionContext.init cfg.sessionCfg) bars).nr7Confirmed =
        (run SessionContext.onDailyBar (SessionContext.init cfg.sessionCfg)
          (lastDeliveries bars)).nr7Confirmed := by
  have last : DailyBars cfg.symbol (lastDeliveries bars) :=
    fun bar member => daily bar ((last_deliveries_sublist bars).subset member)
  unfold CountsOnce
  rw [feed_daily (s := ConfluenceStrategy.init libm cfg) daily,
    feed_daily (s := ConfluenceStrategy.init libm cfg) last]
  rfl

theorem repeat_of_not_distinct (repeats : ¬stamps.IsChain (· ≠ ·)) :
    ∃ first t rest, stamps = first ++ t :: t :: rest := by
  rw [List.isChain_iff_forall_rel_of_append_cons_cons] at repeats
  push Not at repeats
  obtain ⟨a, b, first, rest, eq, rfl⟩ := repeats
  exact ⟨first, a, rest, eq⟩

theorem late_repeat {p : ℕ} (repeats : ¬(stamps.reverse.take p).IsChain (· ≠ ·)) :
    ∃ first t rest, stamps = first ++ t :: t :: rest ∧ rest.length + 2 ≤ p := by
  obtain ⟨newer, t, older, window⟩ := repeat_of_not_distinct repeats
  refine ⟨(older ++ stamps.reverse.drop p).reverse, t, newer.reverse, ?_, ?_⟩
  · have whole : (stamps.reverse.take p ++ stamps.reverse.drop p).reverse = stamps := by
      rw [List.take_append_drop, List.reverse_reverse]
    rw [window] at whole
    simpa using whole.symm
  · have length := congrArg List.length window
    simp only [List.length_take, List.length_append, List.length_cons] at length
    rw [List.length_reverse]
    omega

/-- The latest `p` deliveries are all different, so they are the latest `p` of the last
    deliveries as well. -/
theorem window_narrowest_iff {p : ℕ} (received : bars ≠ []) (filled : p ≤ bars.length)
    (distinct : ((bars.map (·.ts)).reverse.take p).IsChain (· ≠ ·)) :
    Narrowest p (bars.map barRange) ↔ Narrowest p ((lastDeliveries bars).map barRange) := by
  cases p with
  | zero =>
    obtain ⟨first, bar, rfl⟩ : ∃ first bar, bars = first ++ [bar] :=
      ⟨_, _, (List.dropLast_append_getLast received).symm⟩
    obtain ⟨kept, eq, -⟩ := last_deliveries_last first bar
    rw [eq]
    exact iff_of_true (narrowest_zero (by simp)) (narrowest_zero (by simp))
  | succ p =>
    have length : (bars.drop (bars.length - (p + 1))).length = p + 1 := by
      rw [List.length_drop]
      omega
    have some_ : bars.drop (bars.length - (p + 1)) ≠ [] := by
      intro none
      rw [none] at length
      simp at length
    have window : (((bars.drop (bars.length - (p + 1))).map (·.ts))).IsChain (· ≠ ·) := by
      rw [List.take_reverse, List.isChain_reverse, List.length_map, ← List.map_drop] at distinct
      exact distinct.imp fun _ _ differ => Ne.symm differ
    obtain ⟨kept, eq, -⟩ :=
      last_deliveries_suffix (bars.take (bars.length - (p + 1))) some_ window
    rw [List.take_append_drop] at eq
    rw [eq, List.map_append, narrowest_suffix _ (by simpa using length) (by simpa using some_)]
    conv_lhs => rw [← List.take_append_drop (bars.length - (p + 1)) bars, List.map_append]
    exact narrowest_suffix _ (by simpa using length) (by simpa using some_)

theorem harmless_counts_once (daily : DailyBars cfg.symbol bars)
    (harmless : Harmless cfg.sessionCfg (bars.map (·.ts))) :
    CountsOnce (ConfluenceStrategy.init libm cfg) bars := by
  rw [counts_once_iff daily]
  rcases harmless with distinct | ⟨period, window⟩
  · rw [last_deliveries_distinct distinct]
    exact ⟨rfl, rfl⟩
  · rcases List.eq_nil_or_concat bars with rfl | ⟨first, bar, rfl⟩
    · exact ⟨rfl, rfl⟩
    rw [List.concat_eq_append] at window ⊢
    obtain ⟨kept, eq, subset⟩ := last_deliveries_last first bar
    have shorter := (last_deliveries_sublist (first ++ [bar])).length_le
    constructor
    · rw [eq, atr_unsmoothed period, atr_unsmoothed period]
    · by_cases long : 30 < cfg.sessionCfg.nr7Period
      · rw [nr7_overlong long, nr7_overlong long]
      · have held : cfg.sessionCfg.nr7Period ≤ 30 := by omega
        rw [Bool.eq_iff_iff, nr7_run held (by simp), nr7_run held (by rw [eq]; simp)]
        by_cases few : (first ++ [bar]).length < cfg.sessionCfg.nr7Period
        · exact iff_of_false (few_not_narrowest (by simpa using few))
            (few_not_narrowest (by rw [List.length_map]; omega))
        · rcases window with exceeds | few' | distinct
          · exact absurd exceeds long
          · exact absurd few' (by simpa using few)
          · exact window_narrowest_iff (by simp) (not_lt.mp few) distinct

/-- Days of one range. -/
def days (cfg : ConfluenceConfig) (range : ℚ) (stamps : List ℤ) : List Bar :=
  stamps.map (dailyBar cfg.symbol range)

theorem days_range {range : ℚ} : ∀ bar ∈ days cfg range stamps, barRange bar = range := by
  intro bar member
  obtain ⟨day, -, rfl⟩ := List.mem_map.mp member
  exact daily_bar_range _ _ _

theorem days_ranges {range : ℚ} (subset : bars ⊆ days cfg range stamps) :
    ∀ x ∈ bars.map barRange, x = range := by
  intro x member
  obtain ⟨bar, old, rfl⟩ := List.mem_map.mp member
  exact days_range bar (subset old)

theorem days_daily {range : ℚ} : DailyBars cfg.symbol (days cfg range stamps) := by
  intro bar member
  obtain ⟨day, -, rfl⟩ := List.mem_map.mp member
  exact ⟨rfl, rfl⟩

theorem days_stamps {range : ℚ} : (days cfg range stamps).map (·.ts) = stamps := by
  simp [days, Function.comp_def]

theorem daily_append {first later : List Bar} {symbol : Symbol} (before : DailyBars symbol first)
    (after : DailyBars symbol later) : DailyBars symbol (first ++ later) := by
  intro bar member
  rcases List.mem_append.mp member with old | new
  · exact before bar old
  · exact after bar new

/-- Days without a range, and one superseded delivery so large that the average keeps it. -/
theorem repeat_moves_average (smooth : cfg.sessionCfg.atrPeriod ≠ 1)
    (repeats : ¬stamps.IsChain (· ≠ ·)) : ∃ bars, DailyBars cfg.symbol bars ∧
      bars.map (·.ts) = stamps ∧ ¬CountsOnce (ConfluenceStrategy.init libm cfg) bars := by
  obtain ⟨first, t, rest, rfl⟩ := repeat_of_not_distinct repeats
  let large : ℚ := 2 ^ (rest.length + 1)
  have own : DailyBars cfg.symbol
      (days cfg 0 first ++ (days cfg large [t] ++ days cfg 0 (t :: rest))) :=
    daily_append days_daily (daily_append days_daily days_daily)
  refine ⟨_, own, ?_, ?_⟩
  · simp only [List.map_append, days_stamps]
    rfl
  rw [counts_once_iff own]
  rintro ⟨same, -⟩
  have before : (run SessionContext.onDailyBar (SessionContext.init cfg.sessionCfg)
      (days cfg 0 first)).atr = 0 := atr_flat rfl days_range
  have kept : lastDeliveries (days cfg 0 first ++ (days cfg large [t] ++ days cfg 0 (t :: rest))) =
      lastDeliveries (days cfg 0 (first ++ t :: rest)) := by
    have again : ((days cfg 0 (t :: rest)).map (·.ts)).head? =
        some (dailyBar cfg.symbol large t).ts := rfl
    have dropped := last_deliveries_superseded (days cfg 0 first) again
    simpa [days] using dropped
  have once : (run SessionContext.onDailyBar (SessionContext.init cfg.sessionCfg)
      (lastDeliveries (days cfg 0 (first ++ t :: rest)))).atr = 0 :=
    atr_flat rfl fun bar member => days_range bar ((last_deliveries_sublist _).subset member)
  have repeated : 1 ≤ (run SessionContext.onDailyBar (SessionContext.init cfg.sessionCfg)
      (days cfg 0 first ++ (days cfg large [t] ++ days cfg 0 (t :: rest)))).atr := by
    have length : (days cfg 0 (t :: rest)).length = rest.length + 1 := by simp [days]
    have single : days cfg large [t] = [dailyBar cfg.symbol large t] := rfl
    rw [run_append, run_append, single, run, run]
    apply atr_lingers _ days_range
    · rw [length, atr_daily, before, if_pos (by norm_num), daily_bar_range]
    · rwa [daily_config, config_run]
  rw [same, kept, once] at repeated
  exact absurd repeated (by norm_num)

/-- Wide days, one of them delivered before with another range, and a narrow one. -/
def wideDays (cfg : ConfluenceConfig) (first : List ℤ) (range : ℚ) (t : ℤ) (middle : List ℤ) : List Bar :=
  days cfg 2 first ++ days cfg range [t] ++ days cfg 2 middle

theorem wide_days_deliveries {first middle rest : List ℤ} {t last : ℤ} (range : ℚ)
    (split : t :: rest = middle ++ [last]) :
    lastDeliveries (wideDays cfg first range t middle ++ days cfg 1 [last]) =
      lastDeliveries (days cfg 2 (first ++ middle) ++ days cfg 1 [last]) := by
  have again : ((days cfg 2 middle ++ days cfg 1 [last]).map (·.ts)).head? =
      some (dailyBar cfg.symbol range t).ts := by
    rw [List.map_append, days_stamps, days_stamps, ← split]
    rfl
  have dropped := last_deliveries_superseded (days cfg 2 first) again
  simpa [wideDays, days] using dropped

theorem wide_narrowest_iff {p : ℕ} {ranges : List ℚ} (wide : ∀ x ∈ ranges, x = 2) :
    Narrowest p (ranges ++ [1]) ↔ p ≤ ranges.length + 1 := by
  rw [narrowest_append, and_iff_left]
  intro x member
  rw [wide x (List.mem_reverse.mp (List.mem_of_mem_take member))]
  norm_num

theorem wide_days_differ (held : cfg.sessionCfg.nr7Period ≤ 30) {first middle rest : List ℤ}
    {t last : ℤ} (split : t :: rest = middle ++ [last]) {kept : List Bar}
    (deliveries : lastDeliveries (days cfg 2 (first ++ middle) ++ days cfg 1 [last]) =
      kept ++ days cfg 1 [last])
    (wide : kept ⊆ days cfg 2 (first ++ middle)) (range : ℚ)
    (differ : ¬(Narrowest cfg.sessionCfg.nr7Period
      ((wideDays cfg first range t middle).map barRange ++ [1]) ↔
        cfg.sessionCfg.nr7Period ≤ kept.length + 1)) :
    ∃ bars, DailyBars cfg.symbol bars ∧ bars.map (·.ts) = first ++ t :: t :: rest ∧
      ¬CountsOnce (ConfluenceStrategy.init libm cfg) bars := by
  have once : Narrowest cfg.sessionCfg.nr7Period ((kept ++ days cfg 1 [last]).map barRange) ↔
      cfg.sessionCfg.nr7Period ≤ kept.length + 1 := by
    have narrow := wide_narrowest_iff (p := cfg.sessionCfg.nr7Period) (days_ranges wide)
    simpa [days] using narrow
  have own : DailyBars cfg.symbol (wideDays cfg first range t middle ++ days cfg 1 [last]) :=
    daily_append (daily_append (daily_append days_daily days_daily) days_daily) days_daily
  refine ⟨_, own, ?_, ?_⟩
  · simp only [wideDays, List.map_append, days_stamps, List.append_assoc, ← split]
    rfl
  rw [counts_once_iff own]
  intro same
  have flags := same.2
  rw [wide_days_deliveries range split, deliveries, Bool.eq_iff_iff, nr7_run held (by simp [days]),
    nr7_run held (by simp [days]), once] at flags
  exact differ (by simpa [days] using flags)

/-- Wide days and a narrow one at the end. The superseded delivery inside the window is
    narrower still where the last deliveries alone fill the window, and wide where they do
    not. -/
theorem repeat_moves_flag (held : cfg.sessionCfg.nr7Period ≤ 30)
    (filled : cfg.sessionCfg.nr7Period ≤ stamps.length)
    (repeats : ¬(stamps.reverse.take cfg.sessionCfg.nr7Period).IsChain (· ≠ ·)) :
    ∃ bars, DailyBars cfg.symbol bars ∧ bars.map (·.ts) = stamps ∧
      ¬CountsOnce (ConfluenceStrategy.init libm cfg) bars := by
  obtain ⟨first, t, rest, rfl, inside⟩ := late_repeat repeats
  obtain ⟨middle, last, split⟩ : ∃ middle last, t :: rest = middle ++ [last] :=
    ⟨_, _, (List.dropLast_append_getLast (List.cons_ne_nil t rest)).symm⟩
  have short : middle.length = rest.length := by
    simpa using (congrArg List.length split).symm
  obtain ⟨kept, deliveries, wide⟩ : ∃ kept, lastDeliveries
      (days cfg 2 (first ++ middle) ++ days cfg 1 [last]) = kept ++ days cfg 1 [last] ∧
        kept ⊆ days cfg 2 (first ++ middle) := last_deliveries_last _ _
  by_cases enough : cfg.sessionCfg.nr7Period ≤ kept.length + 1
  · apply wide_days_differ held split deliveries wide 0
    rw [iff_true_right enough, narrowest_append]
    intro both
    have zero : (0 : ℚ) ∈ ((wideDays cfg first 0 t middle).map barRange).reverse.take
        (cfg.sessionCfg.nr7Period - 1) := by
      rw [List.mem_take_iff_getElem]
      refine ⟨middle.length, by simp [wideDays, days]; omega, ?_⟩
      simp [wideDays, days]
    exact absurd (both.2 0 zero) (by norm_num)
  · have all : wideDays cfg first 2 t middle = days cfg 2 (first ++ t :: middle) := by
      simp [wideDays, days]
    apply wide_days_differ held split deliveries wide 2
    rw [all, iff_false_right enough, not_not, wide_narrowest_iff (days_ranges (List.Subset.refl _))]
    simp only [days, List.length_map, List.length_append, List.length_cons] at filled ⊢
    omega

/-- Exactly which delivery orders every bar content survives. -/
theorem daily_bars_count_once_iff (libm : FinamOrderBook.Libm) (cfg : ConfluenceConfig)
    (stamps : List ℤ) :
    (∀ bars, DailyBars cfg.symbol bars → bars.map (·.ts) = stamps →
      CountsOnce (ConfluenceStrategy.init libm cfg) bars) ↔ Harmless cfg.sessionCfg stamps := by
  constructor
  · intro every
    by_contra harmful
    simp only [Harmless, not_or, not_and, not_lt] at harmful
    have failing : ∃ bars, DailyBars cfg.symbol bars ∧ bars.map (·.ts) = stamps ∧
        ¬CountsOnce (ConfluenceStrategy.init libm cfg) bars := by
      by_cases period : cfg.sessionCfg.atrPeriod = 1
      · obtain ⟨held, filled, repeats⟩ := harmful.2 period
        exact repeat_moves_flag held filled repeats
      · exact repeat_moves_average period harmful.1
    obtain ⟨bars, daily, same, fails⟩ := failing
    exact fails (every bars daily same)
  · rintro harmless bars daily rfl
    exact harmless_counts_once daily harmless

end Exact

/-- Two days of history, and the second of them again from the subscription. -/
def historyThenSubscription : List Bar :=
  [dailyBar makeCfg.symbol 10 (86400 * nsPerSec), dailyBar makeCfg.symbol 20 (2 * 86400 * nsPerSec),
    dailyBar makeCfg.symbol 20 (2 * 86400 * nsPerSec)]

theorem redelivered_day_counted_twice :
    DailyBars makeCfg.symbol historyThenSubscription ∧
      ¬CountsOnce (ConfluenceStrategy.init flatLibm makeCfg) historyThenSubscription := by
  unfold DailyBars CountsOnce
  decide +kernel

end Redelivery

end FinamDailyHistory
