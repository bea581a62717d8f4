import Mathlib.Algebra.Order.Ring.Int
import Mathlib.Order.Monotone.Basic
import FinamTradebot.Interfaces
import FinamTradebot.Runs
import FinamTradebot.Slices

/-!
The reconnect delays of core/backoff.hpp. Every call of `wait` and `next_delay` draws a
delay around base * 2^attempt; `wait` sleeps it in slices and reads the stop flag before
each of them. Unlike elsewhere the widths of the integer types are kept here, since the
delay and the counter have no bound of their own: an `int` that is counted past its
largest value and a `double` that does not fit a 64-bit integer end the history in a
fault, as the source gives neither a meaning. A `double` operation rounds by an arbitrary
monotone function, of which exact arithmetic is one.
-/
namespace FinamBackoff
open FinamInterfaces Runs Slices

structure BackoffConfig where
  base : ℤ := 500
  cap : ℤ := 30000
  tick : ℤ := 50
  jitterPct : ℚ := 1 / 4
  deriving DecidableEq, Repr

structure BackoffConfig.Valid (cfg : BackoffConfig) : Prop where
  base : 0 ≤ cfg.base
  cap : 0 ≤ cfg.cap
  tick : 0 < cfg.tick
  jitter : 0 ≤ cfg.jitterPct ∧ cfg.jitterPct ≤ 1

/-- Rounding of an exact result to a `double`. -/
structure Rounding where
  round : ℚ → ℚ
  mono : Monotone round
  zero : round 0 = 0

def Rounding.exact : Rounding := ⟨id, monotone_id, rfl⟩

/-- One number of the generator, as `uniform_real_distribution` turns it into a value
    between the two ends of an interval. -/
structure Draw where
  value : ℚ → ℚ → ℚ
  within : ∀ {low high}, low ≤ high → low ≤ value low high ∧ value low high ≤ high

theorem clamp_within (x : ℚ) {low high : ℚ} (ordered : low ≤ high) :
    low ≤ max low (min x high) ∧ max low (min x high) ≤ high :=
  ⟨le_max_left _ _, max_le ordered (min_le_right _ _)⟩

/-- The draw of a given number, wherever it lies in the interval. -/
def Draw.of (x : ℚ) : Draw := ⟨fun low high => max low (min x high), clamp_within x⟩

inductive Fault where
  | overflow
  | running
  deriving DecidableEq, Repr

/-- `static_cast<int64_t>` of a `double`. -/
def toInt64 (x : ℚ) : Except Fault ℤ :=
  if -2 ^ 63 ≤ truncate x ∧ truncate x < 2 ^ 63 then .ok (truncate x) else .error .overflow

/-- `++` on an `int`. -/
def increment (n : ℤ) : Except Fault ℤ :=
  if n < 2 ^ 31 - 1 then .ok (n + 1) else .error .overflow

section Calls
variable (R : Rounding) (cfg : BackoffConfig)

def raw (attempt : ℤ) : ℚ := R.round (R.round cfg.base * 2 ^ (min attempt 6).toNat)

def capped (attempt : ℤ) : ℚ := min (raw R cfg attempt) (R.round cfg.cap)

/-- The number the distribution gives: uniform between capped * (1 - jitter) and
    capped * (1 + jitter). -/
def drawn (attempt : ℤ) (draw : Draw) : ℚ :=
  draw.value (R.round (capped R cfg attempt * R.round (1 - cfg.jitterPct)))
    (R.round (capped R cfg attempt * R.round (1 + cfg.jitterPct)))

def computeDelay (attempt : ℤ) (draw : Draw) : Except Fault ℤ := toInt64 (drawn R cfg attempt draw)

/-- What `wait` returns and leaves in `attempt_`, with the delay it drew and the pieces
    it slept. -/
structure Waited where
  delay : ℤ
  slices : List ℤ
  reconnect : Bool
  attempt : ℤ
  deriving DecidableEq, Repr

/-- The i-th reading of the stop flag in this call is `stop i`. -/
def wait (fuel : ℕ) (draw : Draw) (stop : ℕ → Bool) (attempt : ℤ) : Except Fault Waited := do
  let delay ← computeDelay R cfg attempt draw
  match spend cfg.tick stop fuel 0 delay with
  | none => .error .running
  | some (false, slices) => .ok ⟨delay, slices, false, attempt⟩
  | some (true, slices) => do
    let next ← increment attempt
    .ok ⟨delay, slices, true, next⟩

def nextDelay (draw : Draw) (attempt : ℤ) : Except Fault (ℤ × ℤ) := do
  let delay ← computeDelay R cfg attempt draw
  let next ← increment attempt
  .ok (delay, next)

def reset : ℤ := 0

inductive Call where
  | wait (draw : Draw) (stop : ℕ → Bool)
  | nextDelay (draw : Draw)
  | reset

inductive Entry where
  | waited (delay : ℤ) (slices : List ℤ) (reconnect : Bool)
  | delayed (delay : ℤ)
  | cleared
  deriving DecidableEq, Repr

/-- The counter and what the calls so far returned and slept, the last one first. -/
structure History where
  attempt : ℤ
  log : List Entry
  deriving DecidableEq, Repr

def fresh : History := ⟨0, []⟩

def call (fuel : ℕ) (h : History) : Call → Except Fault History
  | .wait draw stop => do
    let r ← wait R cfg fuel draw stop h.attempt
    .ok ⟨r.attempt, .waited r.delay r.slices r.reconnect :: h.log⟩
  | .nextDelay draw => do
    let r ← nextDelay R cfg draw h.attempt
    .ok ⟨r.2, .delayed r.1 :: h.log⟩
  | .reset => .ok ⟨reset, .cleared :: h.log⟩

def step (fuel : ℕ) (s : Except Fault History) (c : Call) : Except Fault History :=
  s.bind fun h => call R cfg fuel h c

end Calls

section Accounting
variable (R : Rounding) (cfg : BackoffConfig)

def Entry.counted : Entry → Bool
  | .waited _ _ reconnect => reconnect
  | .delayed _ => true
  | .cleared => false

/-- The calls of `next_delay` and the waits that returned true since the last reset. -/
def countedSinceReset (log : List Entry) : ℕ :=
  (log.takeWhile (· ≠ .cleared)).countP Entry.counted

/-- min(base * 2^min(attempt, 6), cap). -/
def middle (attempt : ℕ) : ℚ :=
  min (R.round (R.round cfg.base * 2 ^ min attempt 6)) (R.round cfg.cap)

def InEnvelope (attempt : ℕ) (delay : ℤ) : Prop :=
  ⌊R.round (middle R cfg attempt * R.round (1 - cfg.jitterPct))⌋ ≤ delay ∧
    delay ≤ ⌊R.round (middle R cfg attempt * R.round (1 + cfg.jitterPct))⌋

def Entry.Sound (attempt : ℕ) : Entry → Prop
  | .waited delay slices reconnect =>
    InEnvelope R cfg attempt delay ∧ Spent cfg.tick delay (reconnect, slices)
  | .delayed delay => InEnvelope R cfg attempt delay
  | .cleared => True

/-- Every entry is sound for the number of calls counted before it. -/
def SoundLog : List Entry → Prop
  | [] => True
  | e :: earlier => e.Sound R cfg (countedSinceReset earlier) ∧ SoundLog earlier

/-- All calls so far have returned, and the counter and the log agree. -/
def Accounted : Except Fault History → Prop
  | .error _ => False
  | .ok h => h.attempt = countedSinceReset h.log ∧ SoundLog R cfg h.log

/-- The values of the next call fit their types: the number drawn is below 2^63, and a
    call that will be counted is not the 2^31-th since the last reset. A wait is not
    counted if the flag is set at a reading made before the delay is over. -/
def Fits : Except Fault History → Call → Prop
  | .ok h, .wait draw stop => drawn R cfg h.attempt draw < 2 ^ 63 ∧ (h.attempt < 2 ^ 31 - 1 ∨
      ∃ i : ℕ, i • cfg.tick < ⌊drawn R cfg h.attempt draw⌋ ∧ stop i = true)
  | .ok h, .nextDelay draw => drawn R cfg h.attempt draw < 2 ^ 63 ∧ h.attempt < 2 ^ 31 - 1
  | .ok _, .reset => True
  | .error _, _ => False

end Accounting

@[simp] theorem counted_nil : countedSinceReset [] = 0 := rfl

@[simp] theorem counted_cleared (log : List Entry) : countedSinceReset (.cleared :: log) = 0 := rfl

@[simp] theorem counted_delayed (delay : ℤ) (log : List Entry) :
    countedSinceReset (.delayed delay :: log) = countedSinceReset log + 1 := by
  simp [countedSinceReset, List.countP_cons, Entry.counted]

@[simp] theorem counted_waited (delay : ℤ) (slices : List ℤ) (reconnect : Bool) (log : List Entry) :
    countedSinceReset (.waited delay slices reconnect :: log) =
      countedSinceReset log + reconnect.toNat := by
  cases reconnect <;> simp [countedSinceReset, List.countP_cons, Entry.counted]

theorem truncate_of_nonneg {x : ℚ} (nonneg : 0 ≤ x) : truncate x = ⌊x⌋ := by
  rw [truncate, Rat.floor_def', Int.tdiv_eq_ediv_of_nonneg (Rat.num_nonneg.mpr nonneg)]

theorem to_int64_of_nonneg {x : ℚ} (nonneg : 0 ≤ x) :
    toInt64 x = if x < 2 ^ 63 then .ok ⌊x⌋ else .error .overflow := by
  have floorNonneg : 0 ≤ ⌊x⌋ := Int.floor_nonneg.mpr nonneg
  have low : (-2 ^ 63 : ℤ) ≤ ⌊x⌋ := by omega
  have fits : ⌊x⌋ < 2 ^ 63 ↔ x < 2 ^ 63 := by
    rw [Int.floor_lt]
    norm_num
  rw [toInt64, truncate_of_nonneg nonneg]
  simp only [low, true_and, fits]

section Steps
variable {R : Rounding} {cfg : BackoffConfig}

theorem Rounding.nonneg (R : Rounding) {x : ℚ} (nonneg : 0 ≤ x) : 0 ≤ R.round x :=
  R.zero.symm.le.trans (R.mono nonneg)

theorem capped_eq_middle (n : ℕ) : capped R cfg n = middle R cfg n := by
  have exponent : (min (n : ℤ) 6).toNat = min n 6 := by omega
  rw [capped, raw, middle, exponent]

theorem middle_nonneg (valid : cfg.Valid) (n : ℕ) : 0 ≤ middle R cfg n := by
  have base : (0 : ℚ) ≤ cfg.base := Int.cast_nonneg valid.base
  have cap : (0 : ℚ) ≤ cfg.cap := Int.cast_nonneg valid.cap
  exact le_min (R.nonneg (mul_nonneg (R.nonneg base) (by positivity))) (R.nonneg cap)

theorem drawn_within (valid : cfg.Valid) (n : ℕ) (draw : Draw) :
    0 ≤ drawn R cfg n draw ∧
      R.round (middle R cfg n * R.round (1 - cfg.jitterPct)) ≤ drawn R cfg n draw ∧
      drawn R cfg n draw ≤ R.round (middle R cfg n * R.round (1 + cfg.jitterPct)) := by
  obtain ⟨jitterNonneg, jitterLe⟩ := valid.jitter
  have mid := middle_nonneg (R := R) valid n
  have shrink : 0 ≤ R.round (1 - cfg.jitterPct) := R.nonneg (sub_nonneg.mpr jitterLe)
  have factors : R.round (1 - cfg.jitterPct) ≤ R.round (1 + cfg.jitterPct) :=
    R.mono (by linarith)
  have ordered := R.mono (mul_le_mul_of_nonneg_left factors mid)
  have bounds := draw.within ordered
  rw [drawn, capped_eq_middle]
  exact ⟨(R.nonneg (mul_nonneg mid shrink)).trans bounds.1, bounds⟩

theorem in_envelope (valid : cfg.Valid) (n : ℕ) (draw : Draw) :
    InEnvelope R cfg n ⌊drawn R cfg n draw⌋ := by
  obtain ⟨-, low, high⟩ := drawn_within (R := R) valid n draw
  exact ⟨Int.floor_mono low, Int.floor_mono high⟩

theorem compute_delay_eq (valid : cfg.Valid) (n : ℕ) (draw : Draw) :
    computeDelay R cfg n draw =
      if drawn R cfg n draw < 2 ^ 63 then .ok ⌊drawn R cfg n draw⌋ else .error .overflow :=
  to_int64_of_nonneg (drawn_within valid n draw).1

theorem increment_fits {n : ℕ} (room : (n : ℤ) < 2 ^ 31 - 1) :
    increment n = .ok ((n + 1 : ℕ) : ℤ) := by
  rw [increment, if_pos room, Nat.cast_succ]

theorem increment_full {n : ℕ} (full : ¬(n : ℤ) < 2 ^ 31 - 1) : increment n = .error .overflow := by
  rw [increment, if_neg full]

theorem wait_overflow (valid : cfg.Valid) {n : ℕ} {draw : Draw} (fuel : ℕ) (stop : ℕ → Bool)
    (wide : ¬drawn R cfg n draw < 2 ^ 63) : wait R cfg fuel draw stop n = .error .overflow := by
  rw [wait, compute_delay_eq valid, if_neg wide]
  rfl

theorem wait_of_spend {fuel : ℕ} {attempt delay : ℤ} {draw : Draw} {stop : ℕ → Bool}
    {reconnect : Bool} {slices : List ℤ} (computed : computeDelay R cfg attempt draw = .ok delay)
    (slept : spend cfg.tick stop fuel 0 delay = some (reconnect, slices)) :
    wait R cfg fuel draw stop attempt =
      if reconnect then (increment attempt).map fun next => ⟨delay, slices, true, next⟩
      else .ok ⟨delay, slices, false, attempt⟩ := by
  simp only [wait, computed, bind, Except.bind, slept]
  cases reconnect with
  | false => rfl
  | true => cases increment attempt <;> rfl

/-- A wait whose delay fits returns, after slices of that delay. -/
theorem wait_returns (valid : cfg.Valid) {fuel : ℕ} (large : 2 ^ 63 ≤ fuel) {n : ℕ} {draw : Draw}
    (stop : ℕ → Bool) (fits : drawn R cfg n draw < 2 ^ 63) :
    ∃ reconnect slices, Spent cfg.tick ⌊drawn R cfg n draw⌋ (reconnect, slices) ∧
      (reconnect = false ↔ ∃ i : ℕ, i • cfg.tick < ⌊drawn R cfg n draw⌋ ∧ stop i = true) ∧
      wait R cfg fuel draw stop n =
        if reconnect then
          (increment n).map fun next => ⟨⌊drawn R cfg n draw⌋, slices, true, next⟩
        else .ok ⟨⌊drawn R cfg n draw⌋, slices, false, n⟩ := by
  have nonneg : 0 ≤ ⌊drawn R cfg n draw⌋ := Int.floor_nonneg.mpr (drawn_within valid n draw).1
  have below : ⌊drawn R cfg n draw⌋ < 2 ^ 63 := by
    rw [Int.floor_lt]
    exact_mod_cast fits
  have bound : ⌊drawn R cfg n draw⌋ ≤ ⌊drawn R cfg n draw⌋.toNat • cfg.tick := by
    rw [nsmul_eq_mul, Int.toNat_of_nonneg nonneg]
    exact le_mul_of_one_le_right nonneg valid.tick
  have enough : ⌊drawn R cfg n draw⌋.toNat < fuel :=
    (Int.toNat_lt nonneg).mpr (below.trans_le (by exact_mod_cast large))
  obtain ⟨⟨reconnect, slices⟩, slept⟩ :
      ∃ outcome, spend cfg.tick stop fuel 0 ⌊drawn R cfg n draw⌋ = some outcome :=
    spend_returns valid.tick bound enough
  have cut := spend_stopped_iff valid.tick slept
  simp only [Nat.zero_add] at cut
  refine ⟨reconnect, slices, spend_spent valid.tick nonneg slept, cut, ?_⟩
  have computed : computeDelay R cfg n draw = .ok ⌊drawn R cfg n draw⌋ := by
    rw [compute_delay_eq valid, if_pos fits]
  exact wait_of_spend computed slept

theorem next_delay_eq (valid : cfg.Valid) (n : ℕ) (draw : Draw) :
    nextDelay R cfg draw n =
      if drawn R cfg n draw < 2 ^ 63 then
        (increment n).map fun next => (⌊drawn R cfg n draw⌋, next)
      else .error .overflow := by
  rw [nextDelay, compute_delay_eq valid]
  split
  · cases increment n <;> rfl
  · rfl

theorem wait_accounted_iff (valid : cfg.Valid) {fuel : ℕ} (large : 2 ^ 63 ≤ fuel) {log : List Entry}
    (sound : SoundLog R cfg log) (draw : Draw) (stop : ℕ → Bool) :
    Accounted R cfg (step R cfg fuel (.ok ⟨countedSinceReset log, log⟩) (.wait draw stop)) ↔
      Fits R cfg (.ok ⟨countedSinceReset log, log⟩) (.wait draw stop) := by
  by_cases fits : drawn R cfg (countedSinceReset log) draw < 2 ^ 63
  · obtain ⟨reconnect, slices, spent, cut, result⟩ := wait_returns valid large stop fits
    have envelope := in_envelope (R := R) valid (countedSinceReset log) draw
    simp only [step, Except.bind, call, result, Fits, fits, true_and]
    cases reconnect with
    | false => exact iff_of_true ⟨by simp, ⟨envelope, spent⟩, sound⟩ (Or.inr (cut.mp rfl))
    | true =>
      have uncut := mt cut.mpr Bool.noConfusion
      by_cases room : (countedSinceReset log : ℤ) < 2 ^ 31 - 1
      · rw [increment_fits room]
        exact iff_of_true ⟨by simp, ⟨envelope, spent⟩, sound⟩ (Or.inl room)
      · rw [increment_full room]
        exact iff_of_false (fun accounted => accounted) (not_or.mpr ⟨room, uncut⟩)
  · simp only [step, Except.bind, call, wait_overflow valid fuel stop fits, Fits, fits, false_and]
    rfl

theorem next_delay_accounted_iff (valid : cfg.Valid) (fuel : ℕ) {log : List Entry}
    (sound : SoundLog R cfg log) (draw : Draw) :
    Accounted R cfg (step R cfg fuel (.ok ⟨countedSinceReset log, log⟩) (.nextDelay draw)) ↔
      Fits R cfg (.ok ⟨countedSinceReset log, log⟩) (.nextDelay draw) := by
  by_cases fits : drawn R cfg (countedSinceReset log) draw < 2 ^ 63
  · have envelope := in_envelope (R := R) valid (countedSinceReset log) draw
    simp only [step, Except.bind, call, next_delay_eq valid, Fits, fits, true_and, if_true]
    by_cases room : (countedSinceReset log : ℤ) < 2 ^ 31 - 1
    · rw [increment_fits room]
      exact iff_of_true ⟨by simp, envelope, sound⟩ room
    · rw [increment_full room]
      exact iff_of_false (fun accounted => accounted) room
  · simp only [step, Except.bind, call, next_delay_eq valid, Fits, fits, false_and, if_false]
    rfl

/-- One call keeps the history accounted for exactly when its values fit. -/
theorem step_accounted_iff (valid : cfg.Valid) {fuel : ℕ} (large : 2 ^ 63 ≤ fuel) {h : History}
    (holds : Accounted R cfg (.ok h)) (c : Call) :
    Accounted R cfg (step R cfg fuel (.ok h) c) ↔ Fits R cfg (.ok h) c := by
  obtain ⟨attempt, log⟩ := h
  obtain ⟨rfl, sound⟩ : attempt = countedSinceReset log ∧ SoundLog R cfg log := holds
  cases c with
  | wait draw stop => exact wait_accounted_iff valid large sound draw stop
  | nextDelay draw => exact next_delay_accounted_iff valid fuel sound draw
  | reset => exact iff_of_true ⟨by simp [reset], trivial, sound⟩ trivial

/-- What a call that returns has done. -/
theorem step_cases {fuel : ℕ} {h after : History} {c : Call}
    (done : step R cfg fuel (.ok h) c = .ok after) :
    (∃ draw stop r, c = .wait draw stop ∧ wait R cfg fuel draw stop h.attempt = .ok r ∧
      after = ⟨r.attempt, .waited r.delay r.slices r.reconnect :: h.log⟩) ∨
    (∃ draw delay next, c = .nextDelay draw ∧ computeDelay R cfg h.attempt draw = .ok delay ∧
      increment h.attempt = .ok next ∧ after = ⟨next, .delayed delay :: h.log⟩) ∨
    (c = .reset ∧ after = ⟨0, .cleared :: h.log⟩) := by
  cases c with
  | wait draw stop =>
    cases result : wait R cfg fuel draw stop h.attempt with
    | error fault => simp [step, Except.bind, call, result, bind] at done
    | ok r =>
      simp only [step, Except.bind, call, result, bind, Except.ok.injEq] at done
      exact Or.inl ⟨draw, stop, r, rfl, result, done.symm⟩
  | nextDelay draw =>
    cases computed : computeDelay R cfg h.attempt draw with
    | error fault => simp [step, Except.bind, call, nextDelay, computed, bind] at done
    | ok delay =>
      cases counted : increment h.attempt with
      | error fault => simp [step, Except.bind, call, nextDelay, computed, counted, bind] at done
      | ok next =>
        simp only [step, Except.bind, call, nextDelay, computed, counted, bind,
          Except.ok.injEq] at done
        exact Or.inr (Or.inl ⟨draw, delay, next, rfl, computed, rfl, done.symm⟩)
  | reset =>
    simp only [step, Except.bind, call, Except.ok.injEq] at done
    exact Or.inr (Or.inr ⟨rfl, done.symm⟩)

theorem step_logs {fuel : ℕ} {h after : History} {c : Call}
    (done : step R cfg fuel (.ok h) c = .ok after) : ∃ e, after.log = e :: h.log := by
  obtain ⟨draw, stop, r, -, -, rfl⟩ | ⟨draw, delay, next, -, -, -, rfl⟩ | ⟨-, rfl⟩ :=
    step_cases done
  · exact ⟨_, rfl⟩
  · exact ⟨_, rfl⟩
  · exact ⟨_, rfl⟩

theorem counted_cons_le (e : Entry) (log : List Entry) :
    countedSinceReset (e :: log) ≤ countedSinceReset log + 1 := by
  cases e with
  | waited delay slices reconnect => cases reconnect <;> simp
  | delayed delay => simp
  | cleared => simp

theorem drawn_le_cap (valid : cfg.Valid) (n : ℕ) (draw : Draw) :
    drawn R cfg n draw ≤ R.round (R.round cfg.cap * R.round (1 + cfg.jitterPct)) := by
  have grown : (0 : ℚ) ≤ R.round (1 + cfg.jitterPct) := R.nonneg (by linarith [valid.jitter.1])
  have below : middle R cfg n ≤ R.round cfg.cap := min_le_right _ _
  exact (drawn_within valid n draw).2.2.trans (R.mono (mul_le_mul_of_nonneg_right below grown))

/-- Under a cap that leaves the delays in range, every history of fewer than 2^31 calls fits. -/
theorem short_history_fits (valid : cfg.Valid) {fuel : ℕ} (large : 2 ^ 63 ≤ fuel)
    (inRange : R.round (R.round cfg.cap * R.round (1 + cfg.jitterPct)) < 2 ^ 63)
    {h : History} {calls : List Call} (holds : Accounted R cfg (.ok h))
    (short : h.attempt + calls.length < 2 ^ 31) :
    Along (step R cfg fuel) (Fits R cfg) (.ok h) calls := by
  induction calls generalizing h with
  | nil => trivial
  | cons c rest ih =>
    rw [List.length_cons] at short
    have room : h.attempt < 2 ^ 31 - 1 := by omega
    have narrow (draw : Draw) : drawn R cfg h.attempt draw < 2 ^ 63 := by
      rw [holds.1]
      exact (drawn_le_cap valid _ draw).trans_lt inRange
    have fits : Fits R cfg (.ok h) c := by
      cases c with
      | wait draw stop => exact ⟨narrow draw, Or.inl room⟩
      | nextDelay draw => exact ⟨narrow draw, room⟩
      | reset => trivial
    have next := (step_accounted_iff valid large holds c).mpr fits
    refine ⟨fits, ?_⟩
    cases done : step R cfg fuel (.ok h) c with
    | error fault => rw [done] at next; exact next.elim
    | ok after =>
      rw [done] at next
      obtain ⟨e, logged⟩ := step_logs done
      have grows := counted_cons_le e h.log
      have before := holds.1
      have now := next.1
      rw [logged] at now
      exact ih next (by omega)

/-- Over every history of calls, draws and readings of the stop flag, every call returns,
    every wait sleeps its delay in slices, and the counter and the delays follow the calls
    counted since the last reset, exactly as long as the values fit their types. -/
theorem history_accounted_iff_fits (R : Rounding) {cfg : BackoffConfig} (valid : cfg.Valid)
    {fuel : ℕ} (large : 2 ^ 63 ≤ fuel) (calls : List Call) :
    Visits (step R cfg fuel) (Accounted R cfg) (.ok fresh) calls ↔
      Along (step R cfg fuel) (Fits R cfg) (.ok fresh) calls := by
  refine visits_iff_along (I := fun _ => True) ?_ (fun _ _ _ _ _ => trivial) trivial ⟨rfl, trivial⟩
  intro s c _ holds
  cases s with
  | error fault => exact holds.elim
  | ok h => exact step_accounted_iff valid large holds c

theorem default_valid : BackoffConfig.Valid {} := ⟨by decide, by decide, by decide, by norm_num⟩

def interruptedCalls : List Call :=
  [.wait (.of 520) (fun _ => false), .wait (.of 900) (fun i => i == 3), .nextDelay (.of 1100),
    .reset, .wait (.of 500) (fun _ => true)]

/-- A wait slept in full, one that is stopped after three slices, a delay, and after a
    reset a wait that finds the flag already set. -/
theorem interrupted_history_accounted :
    Visits (step .exact {} (2 ^ 63)) (Accounted .exact {}) (.ok fresh) interruptedCalls ∧
      run (step .exact {} (2 ^ 63)) (.ok fresh) interruptedCalls = .ok ⟨0,
        [.waited 500 [] false, .cleared, .delayed 1100, .waited 900 [50, 50, 50] false,
          .waited 520 [50, 50, 50, 50, 50, 50, 50, 50, 50, 50, 20] true]⟩ :=
  ⟨(history_accounted_iff_fits .exact default_valid le_rfl _).mpr
    (short_history_fits default_valid le_rfl (by norm_num [Rounding.exact]) ⟨rfl, trivial⟩
      (by norm_num [fresh, interruptedCalls])), by decide +kernel⟩

theorem increment_ok {n next : ℤ} (done : increment n = .ok next) :
    next = n + 1 ∧ next ≤ 2 ^ 31 - 1 := by
  rw [increment] at done
  split at done
  · cases done
    exact ⟨rfl, by omega⟩
  · cases done

theorem next_delay_counts {fuel : ℕ} {h after : History} {draw : Draw}
    (done : step R cfg fuel (.ok h) (.nextDelay draw) = .ok after) :
    after.attempt = h.attempt + 1 ∧ after.attempt ≤ 2 ^ 31 - 1 := by
  obtain ⟨_, _, _, other, -⟩ | ⟨_, _, next, -, -, counted, rfl⟩ | ⟨other, -⟩ := step_cases done
  · cases other
  · exact increment_ok counted
  · cases other

/-- As long as they are accounted for, calls of `next_delay` never count past an `int`. -/
theorem delays_bounded {fuel : ℕ} (draw : Draw) (n : ℕ) {h : History}
    (inRange : h.attempt ≤ 2 ^ 31 - 1)
    (all : Visits (step R cfg fuel) (Accounted R cfg) (.ok h) (List.replicate n (.nextDelay draw))) :
    h.attempt + n ≤ 2 ^ 31 - 1 := by
  induction n generalizing h with
  | zero => simpa using inRange
  | succ n ih =>
    rw [List.replicate_succ] at all
    cases done : step R cfg fuel (.ok h) (.nextDelay draw) with
    | error fault => exact (done ▸ visits_first all.2 : Accounted R cfg (.error fault)).elim
    | ok after =>
      obtain ⟨counts, bound⟩ := next_delay_counts done
      have later := ih bound (done ▸ all.2)
      push_cast
      omega

/-- Delays of up to 3 * 2^62 ms, of which those from 2^63 on do not fit. -/
def unboundedDelays : BackoffConfig := { base := 3 * 2 ^ 61, cap := 3 * 2 ^ 61, jitterPct := 1 }

theorem unbounded_delays_valid : unboundedDelays.Valid :=
  ⟨by decide, by decide, by decide, by norm_num [unboundedDelays]⟩

theorem wide_draw_overflows :
    step .exact unboundedDelays (2 ^ 63) (.ok fresh) (.nextDelay (.of (9 * 2 ^ 60))) =
      .error .overflow := by decide +kernel

/-- The counter cannot hold 2^31, and a delay three quarters up its interval is not
    always a 64-bit number. -/
theorem long_history_not_accounted :
    (unboundedDelays.Valid ∧
      ¬Visits (step .exact unboundedDelays (2 ^ 63)) (Accounted .exact unboundedDelays) (.ok fresh)
        [.nextDelay (.of (9 * 2 ^ 60))]) ∧
    BackoffConfig.Valid {} ∧
      ¬Visits (step .exact {} (2 ^ 63)) (Accounted .exact {}) (.ok fresh)
        (List.replicate (2 ^ 31) (.nextDelay (.of 500))) := by
  refine ⟨⟨unbounded_delays_valid, ?_⟩, default_valid, ?_⟩
  · rintro ⟨-, last⟩
    exact (wide_draw_overflows ▸ last : Accounted .exact unboundedDelays (.error .overflow))
  · intro all
    have bound := delays_bounded (.of 500) (2 ^ 31) (by decide) all
    norm_num [fresh] at bound

end Steps

end FinamBackoff
