import FinamTradebot.DecimalText

/-!
Replies of HTTP/1.1 as a client reads them: lines up to an empty one, of which the first is
the status, and then a body of the length the head has announced. A reply is written from
its lines, and one that is written so is read back.
-/
namespace HttpReply
open DecimalText

def crlf : List Char := ['\r', '\n']

def takeLine : List Char → Option (List Char × List Char)
  | [] => none
  | '\r' :: '\n' :: rest => some ([], rest)
  | c :: rest => (takeLine rest).map fun taken => (c :: taken.1, taken.2)

/-- The lines before the empty one, and what follows it. -/
def takeHead : ℕ → List Char → Option (List (List Char) × List Char)
  | 0, _ => none
  | fuel + 1, text =>
    match takeLine text with
    | none => none
    | some ([], rest) => some ([], rest)
    | some (line, rest) => (takeHead fuel rest).map fun taken => (line :: taken.1, taken.2)

/-- The rest of the first line that starts with the given text. -/
def after (start : List Char) (lines : List (List Char)) : Option (List Char) :=
  (lines.find? start.isPrefixOf).map (List.drop start.length)

def number (text : List Char) : Option ℕ :=
  if text ≠ [] ∧ text.all Char.isDigit then some (digitsOf text) else none

structure Reply where
  status : List Char
  fields : List (List Char)
  body : List Char
  deriving DecidableEq, Repr

def lengthField : List Char := "Content-Length: ".toList

def read (text : List Char) : Option Reply :=
  match takeHead text.length text with
  | some (status :: fields, rest) =>
    match (after lengthField fields).bind number with
    | some length => if length ≤ rest.length then some ⟨status, fields, rest.take length⟩ else none
    | none => none
  | _ => none

def write (lines : List (List Char)) (body : List Char) : List Char :=
  lines.flatMap (· ++ crlf) ++ crlf ++ body

theorem take_line_append {line : List Char} (clean : '\r' ∉ line) (rest : List Char) :
    takeLine (line ++ crlf ++ rest) = some (line, rest) := by
  induction line with
  | nil => rfl
  | cons c line ih =>
    have other : c ≠ '\r' := fun same => clean (same ▸ List.mem_cons_self)
    have later := ih (fun member => clean (List.mem_cons_of_mem c member))
    rw [List.cons_append, List.cons_append, takeLine, later]
    · rfl
    · intro tail same
      exact absurd same other

theorem take_head_write {lines : List (List Char)} {fuel : ℕ} (enough : lines.length < fuel)
    (clean : ∀ line ∈ lines, line ≠ [] ∧ '\r' ∉ line) (body : List Char) :
    takeHead fuel (write lines body) = some (lines, body) := by
  induction lines generalizing fuel with
  | nil =>
    obtain ⟨fuel, rfl⟩ := Nat.exists_eq_succ_of_ne_zero (by omega : fuel ≠ 0)
    rfl
  | cons line lines ih =>
    obtain ⟨fuel, rfl⟩ := Nat.exists_eq_succ_of_ne_zero (by omega : fuel ≠ 0)
    obtain ⟨some_, noReturn⟩ := clean line List.mem_cons_self
    have fewer : lines.length < fuel := by simpa using enough
    have later := ih fewer
      (fun l member => clean l (List.mem_cons_of_mem line member))
    have first : takeLine (write (line :: lines) body) = some (line, write lines body) := by
      have split : write (line :: lines) body = line ++ crlf ++ write lines body := by
        simp [write]
      rw [split]
      exact take_line_append noReturn _
    obtain ⟨c, rest, rfl⟩ := List.exists_cons_of_ne_nil some_
    simp only [takeHead, first, later, Option.map_some]

theorem number_to_digits (n : ℕ) : number (Nat.toDigits 10 n) = some n := by
  have digits : (Nat.toDigits 10 n).all Char.isDigit = true :=
    List.all_eq_true.mpr fun c => to_digits_digit
  rw [number, if_pos ⟨Nat.toDigits_ne_nil, digits⟩, digits_to_digits]

theorem write_longer (lines : List (List Char)) (body : List Char) :
    lines.length < (write lines body).length := by
  induction lines with
  | nil =>
    simp only [write, crlf, List.flatMap_nil, List.nil_append, List.length_append, List.length_cons]
    omega
  | cons line rest ih =>
    have split : write (line :: rest) body = line ++ (crlf ++ write rest body) := by
      simp [write]
    have two : crlf.length = 2 := rfl
    rw [split, List.length_append, List.length_append, List.length_cons, two]
    omega

/-- A reply with the length of its body in its head is read back as it was written. -/
theorem read_write {status : List Char} {fields : List (List Char)} {body : List Char}
    (clean : ∀ line ∈ status :: fields, line ≠ [] ∧ '\r' ∉ line)
    (announced : after lengthField fields = some (Nat.toDigits 10 body.length)) :
    read (write (status :: fields) body) = some ⟨status, fields, body⟩ := by
  rw [read, take_head_write (write_longer _ body) clean]
  simp only [announced, Option.bind_some, number_to_digits, le_refl, if_true, List.take_length]

end HttpReply
