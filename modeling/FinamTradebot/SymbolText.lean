import FinamTradebot.Contract
import FinamTradebot.MarketDataClient

/-!
The texts of symbols read back. `nearest_contract` writes a quarter letter and one digit
of the year behind the ticker, and `expiry_day` reads the last two bytes of any code;
`to_string` puts an @ between code and board, and `symbol_from_string` splits at the last.
-/
namespace FinamSymbolText
open FinamInterfaces FinamContract FinamMarketData Civil

section Decade
variable {ticker : String} {e s : Expiry}

theorem code_list (ticker : String) {e : Expiry} (decade : 2020 ≤ e.year ∧ e.year ≤ 2029) :
    (contractSymbol ticker e).securityCode.toList =
      ticker.toList ++ [quarterLetter e.month, Nat.digitChar (e.year - 2020).toNat] := by
  have digit := last_digit_text (show 0 ≤ e.year by omega)
  have last : (e.year % 10).toNat = (e.year - 2020).toNat := by omega
  rw [contractSymbol, digit, last]
  simp

theorem digit_value {n : ℕ} (small : n < 10) : (Nat.digitChar n).toNat = n + 48 := by
  interval_cases n <;> rfl

theorem decoded (ticker : String) {e : Expiry} (quarterly : isQuarterly e.month = true)
    (decade : 2020 ≤ e.year ∧ e.year ≤ 2029) :
    expiryDay (contractSymbol ticker e) = thirdFriday e.year e.month := by
  have month := (quarter_letter_month quarterly).2
  have value := digit_value (n := (e.year - 2020).toNat) (by omega)
  have positive : e.month ≠ 0 := by
    intro zero
    rw [zero] at quarterly
    exact absurd quarterly (by decide)
  have year : 2020 + (((e.year - 2020).toNat + 48 : ℕ) - (48 : ℤ)) = e.year := by omega
  rw [expiryDay, code_list ticker decade]
  simp only [List.reverse_append, List.reverse_cons, List.reverse_nil, List.nil_append,
    List.cons_append, month, value]
  rw [if_neg (by omega)]
  exact congrArg (thirdFriday · e.month) year

theorem code_injective (first : isQuarterly e.month = true) (second : isQuarterly s.month = true)
    (early : 2020 ≤ e.year ∧ e.year ≤ 2029) (late : 2020 ≤ s.year ∧ s.year ≤ 2029)
    (same : (contractSymbol ticker e).securityCode = (contractSymbol ticker s).securityCode) :
    e = s := by
  have lists := congrArg String.toList same
  rw [code_list ticker early, code_list ticker late] at lists
  obtain ⟨letters, digits⟩ : quarterLetter e.month = quarterLetter s.month ∧
      Nat.digitChar (e.year - 2020).toNat = Nat.digitChar (s.year - 2020).toNat := by
    simpa using lists
  have months : e.month = s.month := by
    rw [← (quarter_letter_month first).2, letters, (quarter_letter_month second).2]
  have values := congrArg Char.toNat digits
  rw [digit_value (by omega), digit_value (by omega)] at values
  obtain ⟨year, month⟩ := e
  obtain ⟨year', month'⟩ := s
  simp only [Expiry.mk.injEq] at *
  exact ⟨by omega, months⟩

/-- Within the decade the decoder finds the third Friday of the contract that was
    encoded, and two contracts of one ticker never share a code. -/
theorem contract_code_decodes (ticker : String) {rolloverDays now : ℤ}
    (decade : 2020 ≤ (nearestExpiry rolloverDays now).year ∧
      (nearestExpiry rolloverDays now).year ≤ 2029) :
    let e := nearestExpiry rolloverDays now
    let day := expiryDay (nearestContract ticker rolloverDays now)
    day = thirdFriday e.year e.month ∧ 15 ≤ day ∧ day ≤ 21 ∧
      weekday (toDays e.year e.month day) = 5 ∧
      ∀ rolloverDays' now', 2020 ≤ (nearestExpiry rolloverDays' now').year →
        (nearestExpiry rolloverDays' now').year ≤ 2029 → e ≠ nearestExpiry rolloverDays' now' →
        (nearestContract ticker rolloverDays now).securityCode ≠
          (nearestContract ticker rolloverDays' now').securityCode := by
  intro e day
  have quarterly : isQuarterly e.month = true := nearest_quarterly rolloverDays now
  have read : day = thirdFriday e.year e.month := decoded ticker quarterly decade
  have range := third_friday_range e.year e.month
  refine ⟨read, by omega, by omega, ?_, ?_⟩
  · rw [read]
    exact third_friday_weekday e.year e.month
  · intro rolloverDays' now' lower upper differ same
    have other := nearest_quarterly rolloverDays' now'
    exact differ (code_injective quarterly other decade ⟨lower, upper⟩ same)

/-- On 2026-12-13 the contract is that of March 2027, on 2026-06-01 that of June 2026;
    the ticker ends in a letter and a digit of its own. -/
theorem december_code_decodes :
    expiryDay (nearestContract "SiM6" 5 1797120000000000000) = 19 ∧
      (nearestContract "SiM6" 5 1797120000000000000).securityCode ≠
        (nearestContract "SiM6" 5 1780272000000000000).securityCode := by
  have read := @contract_code_decodes "SiM6" 5 1797120000000000000 (by decide)
  exact ⟨read.1, read.2.2.2.2 5 1780272000000000000 (by decide) (by decide) (by decide)⟩

end Decade

section Bytes

/-- The bytes of a text. -/
def utf8Bytes (text : String) : List UInt8 := text.toList.flatMap String.utf8EncodeChar

/-- The value of a `char`, which is signed on the targets of the build. -/
def charValue (byte : UInt8) : ℤ := (byte.toNat : ℤ).bmod 256

/-- `expiry_day` on the bytes of a `std::string`, which need not be those of a text. -/
def expiryDayOfBytes (code : List UInt8) : ℤ :=
  match code.reverse with
  | last :: letter :: _ =>
    let year := 2020 + (charValue last - charValue 48)
    let month := monthOfLetter (Char.ofUInt8 letter)
    if month = 0 then 0 else thirdFriday year month
  | _ => 0

def IsQuarterLetter (byte : UInt8) : Prop := Char.ofUInt8 byte ∈ ['H', 'M', 'U', 'Z']

def IsDigit (byte : UInt8) : Prop := 48 ≤ byte.toNat ∧ byte.toNat ≤ 57

/-- The grammar "{ROOT}{LETTER}{Y}". -/
def IsContractCode (code : List UInt8) : Prop :=
  ∃ root letter digit, code = root ++ [letter, digit] ∧ IsQuarterLetter letter ∧ IsDigit digit

theorem month_of_letter_iff (c : Char) : monthOfLetter c ≠ 0 ↔ c ∈ ['H', 'M', 'U', 'Z'] := by
  unfold monthOfLetter
  split
  · decide
  · decide
  · decide
  · decide
  · rename_i h m u z
    simp only [ne_eq, not_true_eq_false, List.mem_cons, List.not_mem_nil, or_false, false_iff]
    rintro (rfl | rfl | rfl | rfl)
    · exact h rfl
    · exact m rfl
    · exact u rfl
    · exact z rfl

theorem third_friday_ne_zero (year month : ℤ) : thirdFriday year month ≠ 0 := by
  have range := third_friday_range year month
  omega

theorem expiry_day_ends (root : List UInt8) (letter last : UInt8) :
    expiryDayOfBytes (root ++ [letter, last]) ≠ 0 ↔ IsQuarterLetter letter := by
  have month := month_of_letter_iff (Char.ofUInt8 letter)
  have friday := third_friday_ne_zero (2020 + (charValue last - charValue 48))
    (monthOfLetter (Char.ofUInt8 letter))
  simp only [expiryDayOfBytes, List.reverse_append, List.reverse_cons, List.reverse_nil,
    List.nil_append, List.cons_append]
  rw [IsQuarterLetter, ← month]
  split_ifs with none
  · simp [none]
  · exact iff_of_true friday none

theorem expiry_day_short {code : List UInt8} (short : code.length < 2) :
    expiryDayOfBytes code = 0 := by
  match code, short with
  | [], _ => rfl
  | [_], _ => rfl

theorem two_bytes {code : List UInt8} (long : 2 ≤ code.length) :
    ∃ root letter last, code = root ++ [letter, last] := by
  obtain ⟨first, last, rfl⟩ : ∃ first last, code = first ++ [last] :=
    ⟨_, _, (List.dropLast_append_getLast (List.ne_nil_of_length_pos (by omega))).symm⟩
  obtain ⟨root, letter, rfl⟩ : ∃ root letter, first = root ++ [letter] := by
    have nonempty : first ≠ [] := by
      intro empty
      simp [empty] at long
    exact ⟨_, _, (List.dropLast_append_getLast nonempty).symm⟩
  exact ⟨root, letter, last, by simp⟩

theorem ends_inj {root root' : List UInt8} {letter letter' last last' : UInt8}
    (same : root ++ [letter, last] = root' ++ [letter', last']) : letter = letter' ∧ last = last' := by
  obtain ⟨-, ends⟩ := List.append_inj' same rfl
  simpa using ends

theorem contract_code_ends (root : List UInt8) (letter last : UInt8) :
    IsContractCode (root ++ [letter, last]) ↔ IsQuarterLetter letter ∧ IsDigit last := by
  constructor
  · rintro ⟨root', letter', digit, same, isLetter, isDigit⟩
    obtain ⟨rfl, rfl⟩ := ends_inj same
    exact ⟨isLetter, isDigit⟩
  · rintro ⟨isLetter, isDigit⟩
    exact ⟨root, letter, last, rfl, isLetter, isDigit⟩

theorem encode_ascii {c : Char} (ascii : c.toNat < 128) :
    String.utf8EncodeChar c = [UInt8.ofNat c.toNat] := by
  have small : c.val.toNat ≤ 127 := by
    change c.toNat ≤ 127
    omega
  simp only [String.utf8EncodeChar, small, ↓reduceIte]
  rfl

/-- The encoding of a character outside ASCII ends in two bytes that are outside it too. -/
theorem encode_wide {c : Char} (wide : 128 ≤ c.toNat) : ∃ root first last,
    String.utf8EncodeChar c = root ++ [first, last] ∧ 128 ≤ first.toNat ∧ 128 ≤ last.toNat := by
  have large : ¬c.val.toNat ≤ 127 := by
    change ¬c.toNat ≤ 127
    omega
  have continued (n : ℕ) : 128 ≤ (UInt8.ofNat (n % 64 + 128)).toNat := by
    rw [UInt8.toNat_ofNat']
    omega
  have lead (n : ℕ) : 128 ≤ (UInt8.ofNat (n % 32 + 192)).toNat := by
    rw [UInt8.toNat_ofNat']
    omega
  simp only [String.utf8EncodeChar, large, ↓reduceIte]
  split_ifs
  · exact ⟨[], _, _, rfl, lead _, continued _⟩
  · exact ⟨[_], _, _, rfl, continued _, continued _⟩
  · exact ⟨[_, _], _, _, rfl, continued _, continued _⟩

theorem byte_char_value (byte : UInt8) : (Char.ofUInt8 byte).toNat = byte.toNat :=
  UInt8.toNat_toUInt32 byte

theorem wide_byte_no_letter {byte : UInt8} (wide : 128 ≤ byte.toNat) : ¬IsQuarterLetter byte := by
  intro isLetter
  have value := byte_char_value byte
  simp only [IsQuarterLetter, List.mem_cons, List.not_mem_nil, or_false] at isLetter
  rcases isLetter with same | same | same | same <;>
    exact absurd (value.symm.trans (congrArg Char.toNat same)) (by simp; omega)

theorem wide_char_no_month {c : Char} (wide : 128 ≤ c.toNat) : monthOfLetter c = 0 := by
  by_contra month
  have letter := (month_of_letter_iff c).mp month
  simp only [List.mem_cons, List.not_mem_nil, or_false] at letter
  rcases letter with rfl | rfl | rfl | rfl <;> exact absurd wide (by decide)

theorem wide_bytes_unread (root : List UInt8) {letter : UInt8} (last : UInt8)
    (wide : 128 ≤ letter.toNat) :
    expiryDayOfBytes (root ++ [letter, last]) = 0 := by
  by_contra read
  exact wide_byte_no_letter wide ((expiry_day_ends root letter last).mp read)

theorem ascii_value {n : ℕ} (ascii : n < 128) : charValue (UInt8.ofNat n) = n := by
  have small : n % 2 ^ 8 = n := Nat.mod_eq_of_lt (by omega)
  unfold charValue
  rw [UInt8.toNat_ofNat', small, Int.bmod_def]
  omega

theorem ascii_bytes {letter last : Char} (root : List UInt8) (first : letter.toNat < 128)
    (second : last.toNat < 128) :
    expiryDayOfBytes (root ++ [UInt8.ofNat letter.toNat, UInt8.ofNat last.toNat]) =
      if monthOfLetter letter = 0 then 0
      else thirdFriday (2020 + ((last.toNat : ℤ) - '0'.toNat)) (monthOfLetter letter) := by
  have letterByte : Char.ofUInt8 (UInt8.ofNat letter.toNat) = letter := by
    have value := byte_char_value (UInt8.ofNat letter.toNat)
    rw [UInt8.toNat_ofNat', Nat.mod_eq_of_lt (by omega)] at value
    exact Char.ext (UInt32.toNat_inj.mp value)
  have zero : charValue 48 = '0'.toNat := by decide
  simp only [expiryDayOfBytes, List.reverse_append, List.reverse_cons, List.reverse_nil,
    List.nil_append, List.cons_append, letterByte, ascii_value second, zero]

/-- On the bytes of a text the decoder finds what it finds on the text. -/
theorem expiry_day_of_text (sym : Symbol) :
    expiryDayOfBytes (utf8Bytes sym.securityCode) = expiryDay sym := by
  unfold utf8Bytes expiryDay
  generalize chars : sym.securityCode.toList.reverse = reversed
  rw [List.reverse_eq_iff] at chars
  rw [chars]
  match reversed with
  | [] => rfl
  | [c] =>
    by_cases ascii : c.toNat < 128
    · simp [encode_ascii ascii, expiryDayOfBytes]
    · obtain ⟨root, first, last, bytes, wide, -⟩ := encode_wide (not_lt.mp ascii)
      simp only [List.reverse_singleton, List.flatMap_cons, List.flatMap_nil, List.append_nil,
        bytes]
      exact wide_bytes_unread root last wide
  | last :: letter :: rest =>
    simp only [List.reverse_cons, List.append_assoc, List.flatMap_append, List.cons_append,
      List.nil_append, List.flatMap_cons, List.flatMap_nil, List.append_nil]
    by_cases ascii : last.toNat < 128
    · rw [encode_ascii ascii]
      by_cases plain : letter.toNat < 128
      · rw [encode_ascii plain]
        have bytes := ascii_bytes (rest.reverse.flatMap String.utf8EncodeChar) plain ascii
        have inside : ¬128 ≤ last.toNat := not_le.mpr ascii
        simpa [inside] using bytes
      · obtain ⟨root, first, final, bytes, -, wide⟩ := encode_wide (not_lt.mp plain)
        have month := wide_char_no_month (not_lt.mp plain)
        have unread := wide_bytes_unread (rest.reverse.flatMap String.utf8EncodeChar ++ root ++
          [first]) (UInt8.ofNat last.toNat) wide
        rw [bytes, month]
        simpa using unread
    · obtain ⟨root, first, final, bytes, wide, -⟩ := encode_wide (not_lt.mp ascii)
      have unread := wide_bytes_unread (rest.reverse.flatMap String.utf8EncodeChar ++
        (String.utf8EncodeChar letter ++ root)) final wide
      rw [bytes, if_pos (Or.inr (not_lt.mp ascii))]
      simpa using unread

/-- A code is judged by the grammar unless it ends in a quarter letter and a byte that is
    no digit. -/
theorem expiry_day_grammar_iff (code : List UInt8) :
    (expiryDayOfBytes code ≠ 0 ↔ IsContractCode code) ↔
      ∀ root letter last, code = root ++ [letter, last] → IsQuarterLetter letter → IsDigit last := by
  by_cases long : 2 ≤ code.length
  · obtain ⟨root, letter, last, rfl⟩ := two_bytes long
    rw [expiry_day_ends, contract_code_ends, iff_self_and]
    constructor
    · intro digit root' letter' last' same isLetter
      obtain ⟨rfl, rfl⟩ := ends_inj same
      exact digit isLetter
    · intro digit
      exact digit root letter last rfl
  · have unread := expiry_day_short (not_le.mp long)
    have noEnd : ∀ root letter last, code ≠ root ++ [letter, last] := by
      intro root letter last same
      rw [same] at long
      simp at long
    refine iff_of_true (iff_of_false (fun read => read unread) ?_) ?_
    · intro grammar
      obtain ⟨root, letter, digit, same, -⟩ := grammar
      exact noEnd root letter digit same
    · intro root letter last same
      exact absurd same (noEnd root letter last)

/-- The code of a share: an M before the last letter makes it a contract of June. -/
theorem share_code_read :
    ¬(expiryDayOfBytes (utf8Bytes "CHMF") ≠ 0 ↔ IsContractCode (utf8Bytes "CHMF")) := by
  have bytes : utf8Bytes "CHMF" = [67, 72] ++ [77, 70] := by decide
  rw [bytes, expiry_day_ends, contract_code_ends]
  intro same
  have letter : IsQuarterLetter 77 := by
    unfold IsQuarterLetter
    decide
  obtain ⟨-, -, upper⟩ := same.mp letter
  exact absurd upper (by decide)

end Bytes

section RoundTrip

/-- What is behind the last of a character is a text without it. -/
theorem split_at_last {c : Char} (before : List Char) {after : List Char} (clean : c ∉ after) :
    (before ++ c :: after).reverse.takeWhile (· ≠ c) = after.reverse ∧
      (before ++ c :: after).reverse.dropWhile (· ≠ c) = c :: before.reverse := by
  have passed : ∀ x ∈ after.reverse, decide (x ≠ c) = true := by
    intro x member
    rw [List.mem_reverse] at member
    exact decide_eq_true (fun same => clean (same ▸ member))
  have reversed : (before ++ c :: after).reverse = after.reverse ++ c :: before.reverse := by simp
  rw [reversed]
  constructor
  · rw [List.takeWhile_append_of_pos passed, List.takeWhile_cons_of_neg (by simp), List.append_nil]
  · rw [List.dropWhile_append_of_pos passed, List.dropWhile_cons_of_neg (by simp)]

theorem last_split {c : Char} {text : List Char} (member : c ∈ text) :
    ∃ before after, text = before ++ c :: after ∧ c ∉ after := by
  obtain ⟨after, before, same, clean⟩ := List.eq_append_cons_of_mem (List.mem_reverse.mpr member)
  refine ⟨before.reverse, after.reverse, ?_, fun back => clean (List.mem_reverse.mp back)⟩
  rw [← List.reverse_reverse text, same]
  simp

theorem symbol_of_split (before : List Char) {after : List Char} (clean : '@' ∉ after) :
    symbolFromString (String.ofList (before ++ '@' :: after)) =
      ⟨String.ofList before, String.ofList after⟩ := by
  obtain ⟨board, code⟩ := split_at_last before clean
  simp only [symbolFromString, String.toList_ofList]
  rw [if_pos (by simp), board, code]
  simp

theorem symbol_text (s : Symbol) : s.toString =
    String.ofList (s.securityCode.toList ++ '@' :: s.securityBoard.toList) := by
  apply String.toList_inj.mp
  simp [Symbol.toString]

/-- Both directions: a symbol comes back from its text unless its board has an @, and a
    text with an @ comes back from its symbol. -/
theorem symbol_text_round_trip :
    (∀ s : Symbol, '@' ∉ s.securityBoard.toList → symbolFromString s.toString = s) ∧
      ∀ text : String, '@' ∈ text.toList → (symbolFromString text).toString = text := by
  constructor
  · intro s clean
    rw [symbol_text, symbol_of_split _ clean, String.ofList_toList, String.ofList_toList]
  · intro text member
    obtain ⟨before, after, same, clean⟩ := last_split member
    have whole : text = String.ofList (before ++ '@' :: after) := by
      rw [← same, String.ofList_toList]
    rw [whole, symbol_of_split before clean, symbol_text, String.toList_ofList, String.toList_ofList]

/-- A code with an @ of its own, and a text with empty parts. -/
theorem symbol_with_at_round_trip :
    symbolFromString (Symbol.toString ⟨"Si@M6", "RTSX"⟩) = ⟨"Si@M6", "RTSX"⟩ ∧
      (symbolFromString "@@").toString = "@@" :=
  ⟨symbol_text_round_trip.1 ⟨"Si@M6", "RTSX"⟩ (by decide), symbol_text_round_trip.2 "@@" (by decide)⟩

end RoundTrip

end FinamSymbolText
