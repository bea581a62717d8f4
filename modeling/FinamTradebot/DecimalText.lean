import Mathlib.Algebra.Order.Floor.Ring
import Mathlib.Algebra.Order.Round
import Mathlib.Data.Int.Log
import Mathlib.Data.List.DropRight
import Mathlib.Data.Rat.Floor
import Mathlib.Tactic.Linarith
import Mathlib.Tactic.Positivity
import Mathlib.Tactic.Ring

/-!
Decimal texts of exact numbers: the conversions `%.nf` and `%.ng` of the C library, which
round to the nearest decimal and a tie to the even one, and the number such a text stands
for. A numeral is the text before it is written down, so that a reader of texts need only be
compared with numerals. A text of lines is split at their ends.
-/
namespace DecimalText

structure Numeral where
  minus : Bool
  whole : List Char
  fraction : Option (List Char)
  exponent : Option ℤ
  deriving DecidableEq, Repr

def digitsOf (digits : List Char) : ℕ := Nat.ofDigitChars 10 digits 0

def padded (width n : ℕ) : List Char :=
  List.replicate (width - (Nat.toDigits 10 n).length) '0' ++ Nat.toDigits 10 n

def exponentText (e : ℤ) : List Char := 'e' :: (if e < 0 then '-' else '+') :: padded 2 e.natAbs

namespace Numeral

def render (n : Numeral) : List Char :=
  (if n.minus then ['-'] else []) ++ n.whole ++
    (match n.fraction with
      | none => []
      | some digits => '.' :: digits) ++
    (match n.exponent with
      | none => []
      | some e => exponentText e)

def digits (n : Numeral) : List Char := n.whole ++ n.fraction.getD []

def scaleOf (n : Numeral) : ℤ := n.exponent.getD 0 - (n.fraction.getD []).length

def value (n : Numeral) : ℚ := (if n.minus then -1 else 1) * digitsOf n.digits * 10 ^ n.scaleOf

structure WellFormed (n : Numeral) : Prop where
  whole : n.whole ≠ []
  digit : ∀ c ∈ n.digits, c.isDigit = true

end Numeral

section Digits

theorem digits_append (first later : List Char) :
    digitsOf (first ++ later) = digitsOf first * 10 ^ later.length + digitsOf later := by
  rw [digitsOf, Nat.ofDigitChars_append, Nat.ofDigitChars_eq_ofDigitChars_zero, mul_comm]
  rfl

theorem digits_zeros (k : ℕ) : digitsOf (List.replicate k '0') = 0 := by
  simp [digitsOf]

theorem digits_to_digits (n : ℕ) : digitsOf (Nat.toDigits 10 n) = n := Nat.ofDigitChars_ten_toDigits

theorem padded_value (width n : ℕ) : digitsOf (padded width n) = n := by
  rw [padded, digits_append, digits_zeros, digits_to_digits]
  omega

theorem padded_length {width n : ℕ} (wide : 0 < width) (fits : n < 10 ^ width) :
    (padded width n).length = width := by
  have short := (Nat.length_toDigits_le_iff (b := 10) (by decide) wide).mpr fits
  simp only [padded, List.length_append, List.length_replicate]
  omega

theorem to_digits_digit {n : ℕ} {c : Char} (member : c ∈ Nat.toDigits 10 n) : c.isDigit = true :=
  Nat.isDigit_of_mem_toDigits (by decide) (by decide) member

theorem zeros_digit {k : ℕ} {c : Char} (member : c ∈ List.replicate k '0') : c.isDigit = true := by
  rw [List.eq_of_mem_replicate member]
  rfl

theorem padded_digit {width n : ℕ} {c : Char} (member : c ∈ padded width n) : c.isDigit = true := by
  rcases List.mem_append.mp member with zero | digit
  · exact zeros_digit zero
  · exact to_digits_digit digit

end Digits

section Lines

/-- Lines that end in a character they do not contain are found again, with nothing behind
    the last of them. -/
theorem split_lines {stop : Char} {lines : List (List Char)} (clean : ∀ line ∈ lines, stop ∉ line) :
    (lines.flatMap (· ++ [stop])).splitOn stop = lines ++ [[]] := by
  induction lines with
  | nil => rfl
  | cons line rest ih =>
    have later := ih (fun l member => clean l (List.mem_cons_of_mem line member))
    have here := clean line List.mem_cons_self
    have split : (line :: rest).flatMap (· ++ [stop]) = line ++ stop :: rest.flatMap (· ++ [stop]) := by
      simp
    rw [split, List.splitOn_append_cons_of_forall_mem_beq_eq_false _ stop (by simp), later]
    · rfl
    · intro c member
      exact beq_eq_false_iff_ne.mpr fun same => here (same ▸ member)

theorem intercalate_clean {stop : Char} {separator : List Char} {fields : List (List Char)}
    (apart : stop ∉ separator) (clean : ∀ field ∈ fields, stop ∉ field) :
    stop ∉ separator.intercalate fields := by
  induction fields with
  | nil => simp
  | cons field rest ih =>
    have here := clean field List.mem_cons_self
    have later := ih (fun f member => clean f (List.mem_cons_of_mem field member))
    cases rest with
    | nil => simpa using here
    | cons next more =>
      rw [List.intercalate_cons_cons]
      simp only [List.mem_append, not_or]
      exact ⟨⟨here, apart⟩, later⟩

end Lines

section Characters

def marks : List Char := ['-', '.', 'e', '+']

theorem exponent_chars (e : ℤ) : ∀ c ∈ exponentText e, c.isDigit = true ∨ c ∈ marks := by
  intro c member
  rcases List.mem_cons.mp member with rfl | member
  · exact Or.inr (by decide)
  · rcases List.mem_cons.mp member with rfl | member
    · right
      split_ifs <;> decide
    · exact Or.inl (padded_digit member)

/-- A numeral is written with digits, signs, a point and the letter of the exponent. -/
theorem render_chars {n : Numeral} (wellFormed : n.WellFormed) :
    ∀ c ∈ n.render, c.isDigit = true ∨ c ∈ marks := by
  intro c member
  have digit := wellFormed.digit
  unfold Numeral.render at member
  unfold Numeral.digits at digit
  rcases List.mem_append.mp member with member | power
  · rcases List.mem_append.mp member with member | point
    · rcases List.mem_append.mp member with sign | whole
      · right
        split_ifs at sign
        · rw [List.mem_singleton.mp sign]
          decide
        · cases sign
      · exact Or.inl (digit c (List.mem_append_left _ whole))
    · cases fraction : n.fraction with
      | none =>
        rw [fraction] at point
        cases point
      | some digits =>
        rw [fraction] at point digit
        rcases List.mem_cons.mp point with rfl | inside
        · exact Or.inr (by decide)
        · exact Or.inl (digit c (List.mem_append_right _ inside))
  · cases exponent : n.exponent with
    | none =>
      rw [exponent] at power
      cases power
    | some e =>
      rw [exponent] at power
      exact exponent_chars e c power

end Characters

section Rounding

/-- The nearest integer to a number that is not negative, a tie to the even one. -/
def roundEven (x : ℚ) : ℕ :=
  if x - ⌊x⌋₊ < 1 / 2 then ⌊x⌋₊
  else if 1 / 2 < x - ⌊x⌋₊ then ⌊x⌋₊ + 1
  else if ⌊x⌋₊ % 2 = 0 then ⌊x⌋₊ else ⌊x⌋₊ + 1

theorem round_even_nat (n : ℕ) : roundEven n = n := by
  simp [roundEven]

theorem round_even_within {x : ℚ} (nonneg : 0 ≤ x) : |(roundEven x : ℚ) - x| ≤ 1 / 2 := by
  have below := Nat.floor_le nonneg
  have above := Nat.lt_floor_add_one x
  unfold roundEven
  split_ifs
  all_goals rw [abs_le]
  all_goals push_cast
  all_goals constructor <;> linarith

theorem round_even_between {x : ℚ} {low high : ℕ} (above : (low : ℚ) ≤ x) (below : x < high) :
    low ≤ roundEven x ∧ roundEven x ≤ high := by
  have nonneg : 0 ≤ x := le_trans (Nat.cast_nonneg low) above
  have first : low ≤ ⌊x⌋₊ := Nat.le_floor above
  have second : ⌊x⌋₊ < high := (Nat.floor_lt nonneg).mpr below
  unfold roundEven
  split_ifs <;> omega

end Rounding

section Fixed

/-- The text of `%.nf`. -/
def fixedNumeral (decimals : ℕ) (x : ℚ) : Numeral :=
  let n := roundEven (|x| * 10 ^ decimals)
  { minus := decide (x < 0)
    whole := Nat.toDigits 10 (n / 10 ^ decimals)
    fraction := some (padded decimals (n % 10 ^ decimals))
    exponent := none }

theorem fixed_well_formed (decimals : ℕ) (x : ℚ) : (fixedNumeral decimals x).WellFormed := by
  refine ⟨Nat.toDigits_ne_nil, ?_⟩
  intro c member
  rcases List.mem_append.mp member with whole | fraction
  · exact to_digits_digit whole
  · exact padded_digit fraction

theorem fixed_value {decimals : ℕ} (some_ : 0 < decimals) (x : ℚ) :
    (fixedNumeral decimals x).value =
      (if x < 0 then -1 else 1) * (roundEven (|x| * 10 ^ decimals) / 10 ^ decimals) := by
  have base : 0 < 10 ^ decimals := by positivity
  have length := padded_length some_ (Nat.mod_lt (roundEven (|x| * 10 ^ decimals)) base)
  have digits : digitsOf (fixedNumeral decimals x).digits = roundEven (|x| * 10 ^ decimals) := by
    simp only [Numeral.digits, fixedNumeral, Option.getD_some, digits_append, digits_to_digits,
      padded_value, length]
    exact Nat.div_add_mod' _ _
  have scale : (fixedNumeral decimals x).scaleOf = -(decimals : ℤ) := by
    simp only [Numeral.scaleOf, fixedNumeral, Option.getD_some, Option.getD_none, length]
    omega
  rw [Numeral.value, digits, scale, zpow_neg, zpow_natCast]
  simp only [fixedNumeral, decide_eq_true_eq]
  ring

theorem scaled_within {y b : ℚ} (nonneg : 0 ≤ y) (base : 0 < b) :
    |(roundEven (y * b) : ℚ) / b - y| ≤ 1 / 2 / b := by
  have near := round_even_within (mul_nonneg nonneg base.le)
  have same : (roundEven (y * b) : ℚ) / b - y = ((roundEven (y * b) : ℚ) - y * b) / b := by
    rw [sub_div, mul_div_cancel_right₀ _ base.ne']
  rw [same, abs_div, abs_of_pos base]
  exact div_le_div_of_nonneg_right near base.le

/-- The text is off by half a unit of its last decimal at most. -/
theorem fixed_within {decimals : ℕ} (some_ : 0 < decimals) (x : ℚ) :
    |(fixedNumeral decimals x).value - x| ≤ 1 / 2 / 10 ^ decimals := by
  have near := scaled_within (abs_nonneg x) (show (0 : ℚ) < 10 ^ decimals by positivity)
  rw [fixed_value some_]
  split_ifs with negative
  · rw [abs_of_neg negative] at near ⊢
    rwa [neg_one_mul, ← abs_neg, neg_sub, sub_neg_eq_add, add_comm, ← sub_neg_eq_add]
  · rw [abs_of_nonneg (not_lt.mp negative)] at near ⊢
    rwa [one_mul]

end Fixed

section General

/-- The significant digits of a positive number and the exponent of the first of them. -/
def significant (precision : ℕ) (x : ℚ) : ℕ × ℤ :=
  let e := Int.log 10 x
  let n := roundEven (x * 10 ^ (precision - 1 - e))
  if n = 10 ^ precision then (10 ^ (precision - 1), e + 1) else (n, e)

def trimmed (n : ℕ) : List Char := (Nat.toDigits 10 n).rdropWhile (· == '0')

/-- Digits with the point after the first of them, or among them, without trailing zeros. -/
def layOut (precision : ℕ) (digits : List Char) (e : ℤ) : List Char × Option (List Char) × Option ℤ :=
  if -4 ≤ e ∧ e < precision then
    if e < 0 then (['0'], some (List.replicate (-e - 1).toNat '0' ++ digits), none)
    else if digits.length ≤ e.toNat + 1 then
      (digits ++ List.replicate (e.toNat + 1 - digits.length) '0', none, none)
    else (digits.take (e.toNat + 1), some (digits.drop (e.toNat + 1)), none)
  else (digits.take 1, if digits.length ≤ 1 then none else some (digits.drop 1), some e)

theorem trimmed_append (n : ℕ) : ∃ k, Nat.toDigits 10 n = trimmed n ++ List.replicate k '0' := by
  refine ⟨((Nat.toDigits 10 n).rtakeWhile (· == '0')).length, ?_⟩
  have zeros : (Nat.toDigits 10 n).rtakeWhile (· == '0') = List.replicate _ '0' :=
    List.eq_replicate_of_mem fun c member => by simpa using List.mem_rtakeWhile_imp member
  rw [← zeros, trimmed, List.rdropWhile_append_rtakeWhile]

theorem lay_out_value (minus : Bool) (precision : ℕ) (digits : List Char) (e : ℤ) :
    let text := layOut precision digits e
    Numeral.value ⟨minus, text.1, text.2.1, text.2.2⟩ =
      (if minus then -1 else 1) * (digitsOf digits * 10 ^ (e + 1 - digits.length)) := by
  intro text
  simp only [Numeral.value, Numeral.digits, Numeral.scaleOf, mul_assoc, text]
  congr 1
  unfold layOut
  split_ifs with fixed small short single
  · have zero : digitsOf ['0'] = 0 := rfl
    simp only [Option.getD_some, Option.getD_none, digits_append, digits_zeros, zero, zero_mul,
      zero_add, List.length_append, List.length_replicate]
    congr 2
    omega
  · simp only [Option.getD_none, List.append_nil, digits_append, digits_zeros, add_zero,
      List.length_replicate, List.length_nil]
    push_cast
    rw [mul_one, ← zpow_natCast]
    congr 2
    omega
  · simp only [Option.getD_some, Option.getD_none, List.take_append_drop, List.length_drop]
    congr 2
    omega
  · simp only [Option.getD_some, Option.getD_none, List.append_nil, List.take_of_length_le single,
      List.length_nil]
    cases digits with
    | nil => simp [digitsOf]
    | cons c rest =>
      rw [List.length_cons] at single ⊢
      congr 2
      omega
  · simp only [Option.getD_some, List.take_append_drop, List.length_drop]
    congr 2
    omega

/-- The text of `%.ng`. -/
def generalNumeral (precision : ℕ) (x : ℚ) : Numeral :=
  if x = 0 then ⟨false, ['0'], none, none⟩
  else
    let s := significant precision |x|
    let text := layOut precision (trimmed s.1) s.2
    ⟨decide (x < 0), text.1, text.2.1, text.2.2⟩

theorem significant_bounds {precision : ℕ} {x : ℚ} (positive : 0 < x) (some_ : 0 < precision) :
    10 ^ (precision - 1) ≤ (significant precision x).1 ∧ (significant precision x).1 < 10 ^ precision := by
  have low := Int.zpow_log_le_self (b := 10) (by decide) positive
  have high := Int.lt_zpow_succ_log_self (b := 10) (by decide) x
  push_cast at low high
  set e := Int.log 10 x with log
  have scale : (0 : ℚ) < 10 ^ ((precision : ℤ) - 1 - e) := zpow_pos (by norm_num) _
  have above : ((10 ^ (precision - 1) : ℕ) : ℚ) ≤ x * 10 ^ ((precision : ℤ) - 1 - e) := by
    calc ((10 ^ (precision - 1) : ℕ) : ℚ) = 10 ^ e * 10 ^ ((precision : ℤ) - 1 - e) := by
          push_cast
          rw [← zpow_natCast, ← zpow_add₀ (by norm_num)]
          congr 1
          omega
      _ ≤ _ := mul_le_mul_of_nonneg_right low scale.le
  have below : x * 10 ^ ((precision : ℤ) - 1 - e) < ((10 ^ precision : ℕ) : ℚ) := by
    calc x * 10 ^ ((precision : ℤ) - 1 - e) < 10 ^ (e + 1) * 10 ^ ((precision : ℤ) - 1 - e) :=
          mul_lt_mul_of_pos_right high scale
      _ = ((10 ^ precision : ℕ) : ℚ) := by
          push_cast
          rw [← zpow_natCast, ← zpow_add₀ (by norm_num)]
          congr 1
          omega
  obtain ⟨least, most⟩ := round_even_between above below
  simp only [significant]
  rw [← log]
  split_ifs with carry
  · exact ⟨le_rfl, Nat.pow_lt_pow_right (by decide) (by omega)⟩
  · exact ⟨least, lt_of_le_of_ne most carry⟩

/-- A number rounded to so many significant digits. -/
def rounded (precision : ℕ) (x : ℚ) : ℚ :=
  (if x < 0 then -1 else 1) * ((significant precision |x|).1 *
    10 ^ ((significant precision |x|).2 + 1 - precision))

/-- The digits left by trimming stand for the same number. -/
theorem trimmed_value {precision n : ℕ} (some_ : 0 < precision) (least : 10 ^ (precision - 1) ≤ n)
    (most : n < 10 ^ precision) (e : ℤ) :
    (digitsOf (trimmed n) : ℚ) * 10 ^ (e + 1 - (trimmed n).length) = n * 10 ^ (e + 1 - precision) := by
  obtain ⟨k, whole⟩ := trimmed_append n
  have digits : digitsOf (trimmed n) * 10 ^ k = n := by
    have read := congrArg digitsOf whole
    rw [digits_to_digits, digits_append, digits_zeros, List.length_replicate] at read
    omega
  have length : (trimmed n).length + k = precision := by
    have short := (Nat.length_toDigits_le_iff (b := 10) (by decide) some_).mpr most
    have long : ¬(Nat.toDigits 10 n).length ≤ precision - 1 := by
      intro tooShort
      rcases Nat.eq_zero_or_pos (precision - 1) with zero | more
      · have := Nat.length_toDigits_pos (b := 10) (n := n)
        omega
      · exact absurd ((Nat.length_toDigits_le_iff (b := 10) (by decide) more).mp tooShort) (by omega)
    have total := congrArg List.length whole
    rw [List.length_append, List.length_replicate] at total
    omega
  have cast : (n : ℚ) = digitsOf (trimmed n) * 10 ^ k := by exact_mod_cast digits.symm
  rw [cast, mul_assoc, ← zpow_natCast, ← zpow_add₀ (by norm_num)]
  congr 2
  omega

theorem general_value {precision : ℕ} (some_ : 0 < precision) {x : ℚ} (nonzero : x ≠ 0) :
    (generalNumeral precision x).value = rounded precision x := by
  obtain ⟨least, most⟩ := significant_bounds (abs_pos.mpr nonzero) some_
  rw [generalNumeral, if_neg nonzero, lay_out_value, rounded, trimmed_value some_ least most]
  simp only [decide_eq_true_eq]

theorem trimmed_digit {n : ℕ} {c : Char} (member : c ∈ trimmed n) : c.isDigit = true :=
  to_digits_digit ((List.rdropWhile_prefix _ _).subset member)

theorem trimmed_ne_nil {n : ℕ} (nonzero : n ≠ 0) : trimmed n ≠ [] := by
  intro empty
  obtain ⟨k, whole⟩ := trimmed_append n
  have read := congrArg digitsOf whole
  rw [digits_to_digits, empty, List.nil_append, digits_zeros] at read
  exact nonzero read

theorem lay_out_well_formed (minus : Bool) (precision : ℕ) {digits : List Char} (e : ℤ)
    (some_ : digits ≠ []) (digit : ∀ c ∈ digits, c.isDigit = true) :
    let text := layOut precision digits e
    Numeral.WellFormed ⟨minus, text.1, text.2.1, text.2.2⟩ := by
  intro text
  have taken : ∀ k, digits.take (k + 1) ≠ [] := by
    intro k
    simp [List.take_eq_nil_iff, some_]
  simp only [text, layOut]
  split_ifs with fixed small short single
  · refine ⟨List.cons_ne_nil _ _, ?_⟩
    intro c member
    rcases List.mem_append.mp member with zero | fraction
    · exact zeros_digit (k := 1) zero
    · rcases List.mem_append.mp fraction with zero | inside
      · exact zeros_digit zero
      · exact digit c inside
  · refine ⟨List.append_ne_nil_of_left_ne_nil some_ _, ?_⟩
    intro c member
    rw [Numeral.digits, Option.getD_none, List.append_nil] at member
    rcases List.mem_append.mp member with inside | zero
    · exact digit c inside
    · exact zeros_digit zero
  · refine ⟨taken _, ?_⟩
    rw [Numeral.digits, Option.getD_some, List.take_append_drop]
    exact digit
  · refine ⟨taken 0, ?_⟩
    rw [Numeral.digits, Option.getD_none, List.append_nil, List.take_of_length_le single]
    exact digit
  · refine ⟨taken 0, ?_⟩
    rw [Numeral.digits, Option.getD_some, List.take_append_drop]
    exact digit

theorem general_well_formed {precision : ℕ} (some_ : 0 < precision) (x : ℚ) :
    (generalNumeral precision x).WellFormed := by
  by_cases zero : x = 0
  · rw [generalNumeral, if_pos zero]
    exact ⟨List.cons_ne_nil _ _, by simp [Numeral.digits]⟩
  · have least := (significant_bounds (abs_pos.mpr zero) some_).1
    have nonzero : (significant precision |x|).1 ≠ 0 := by
      have positive : 0 < 10 ^ (precision - 1) := by positivity
      omega
    rw [generalNumeral, if_neg zero]
    exact lay_out_well_formed _ _ _ (trimmed_ne_nil nonzero) fun c => trimmed_digit

/-- A number of at most so many digits, wherever its point is, is written exactly. -/
theorem rounded_exact {precision : ℕ} {m : ℕ} (nonzero : m ≠ 0) (short : m < 10 ^ precision) (j : ℤ) :
    ((significant precision (m * 10 ^ j)).1 : ℚ) *
      10 ^ ((significant precision (m * 10 ^ j)).2 + 1 - precision) = m * 10 ^ j := by
  have scale : ∀ i : ℤ, (0 : ℚ) < 10 ^ i := zpow_pos (by norm_num)
  have positive : (0 : ℚ) < m * 10 ^ j := mul_pos (by exact_mod_cast Nat.pos_of_ne_zero nonzero) (scale j)
  have low := Int.zpow_log_le_self (b := 10) (by decide) positive
  have high := Int.lt_zpow_succ_log_self (b := 10) (by decide) ((m : ℚ) * 10 ^ j)
  push_cast at low high
  set e := Int.log 10 ((m : ℚ) * 10 ^ j) with log
  have bound : (10 : ℚ) ^ e < 10 ^ (precision + j : ℤ) := by
    calc (10 : ℚ) ^ e ≤ m * 10 ^ j := low
      _ < 10 ^ (precision : ℤ) * 10 ^ j := by
          refine mul_lt_mul_of_pos_right ?_ (scale j)
          rw [zpow_natCast]
          exact_mod_cast short
      _ = 10 ^ (precision + j : ℤ) := (zpow_add₀ (by norm_num) _ _).symm
  have exponent : e < precision + j := (zpow_lt_zpow_iff_right₀ (by norm_num)).mp bound
  obtain ⟨k, room⟩ : ∃ k : ℕ, j + (precision - 1 - e) = k := ⟨(j + (precision - 1 - e)).toNat, by omega⟩
  have scaled : (m : ℚ) * 10 ^ j * 10 ^ ((precision : ℤ) - 1 - e) = (m * 10 ^ k : ℕ) := by
    rw [mul_assoc, ← zpow_add₀ (by norm_num), room]
    push_cast
    rw [zpow_natCast]
  have fits : m * 10 ^ k < 10 ^ precision := by
    have := mul_lt_mul_of_pos_right high (scale (precision - 1 - e))
    rw [scaled, ← zpow_add₀ (by norm_num), show e + 1 + ((precision : ℤ) - 1 - e) = precision by omega,
      zpow_natCast] at this
    exact_mod_cast this
  have value : significant precision (m * 10 ^ j) = (m * 10 ^ k, e) := by
    simp only [significant]
    rw [← log, scaled, round_even_nat, if_neg fits.ne]
  rw [value]
  push_cast
  rw [mul_assoc, ← zpow_natCast, ← zpow_add₀ (by norm_num)]
  congr 2
  omega

theorem rounded_decimal {precision : ℕ} {m : ℤ} (nonzero : m ≠ 0) (short : m.natAbs < 10 ^ precision)
    (j : ℤ) : rounded precision (m * 10 ^ j) = m * 10 ^ j := by
  have scale : (0 : ℚ) < 10 ^ j := zpow_pos (by norm_num) _
  have size : |(m : ℚ) * 10 ^ j| = (m.natAbs : ℚ) * 10 ^ j := by
    rw [abs_mul, abs_of_pos scale, Nat.cast_natAbs, Int.cast_abs]
  have sign : (m : ℚ) * 10 ^ j < 0 ↔ m < 0 := by
    rw [mul_neg_iff]
    simp [scale, scale.le.not_gt]
  rw [rounded, size, rounded_exact (by omega) short]
  split_ifs with negative
  · rw [sign] at negative
    rw [Nat.cast_natAbs, abs_of_neg negative]
    push_cast
    ring
  · rw [sign, not_lt] at negative
    rw [Nat.cast_natAbs, abs_of_nonneg negative, one_mul]

theorem general_exact {precision : ℕ} (some_ : 0 < precision) {m : ℤ} (short : m.natAbs < 10 ^ precision)
    (j : ℤ) : (generalNumeral precision (m * 10 ^ j)).value = m * 10 ^ j := by
  by_cases zero : m = 0
  · subst zero
    simp [generalNumeral, Numeral.value, Numeral.digits, Numeral.scaleOf, digitsOf, Nat.ofDigitChars]
  · have scale : (10 : ℚ) ^ j ≠ 0 := zpow_ne_zero j (by norm_num)
    rw [general_value some_ (mul_ne_zero (Int.cast_ne_zero.mpr zero) scale), rounded_decimal zero short]

end General

example : (generalNumeral 10 (103125 / 10)).render = "10312.5".toList := by decide +kernel
example : (generalNumeral 10 (-1 / 8000000)).render = "-1.25e-07".toList := by decide +kernel
example : (fixedNumeral 6 (-1 / 8)).render = "-0.125000".toList := by decide +kernel

end DecimalText
