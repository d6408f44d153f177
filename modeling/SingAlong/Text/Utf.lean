import SingAlong.Text.Basic

/-!
# The Unicode transformation formats

Reading the character at the front of a sequence of bytes, in UTF-8, UTF-16, UTF-32 and UTF-7. What
is malformed has a length, so that reading can go on after it.
-/

namespace SingAlong

/-- What stands at the front of a sequence of bytes. -/
inductive Front where
  /-- So many bytes stand for a text. -/
  | text (t : Text) (length : Nat)
  /-- So many bytes are malformed, after they have been read as a text so far. -/
  | malformed (before : Text) (length : Nat)
  deriving DecidableEq, Repr

/-- The order of the bytes of a number: the least one first, or the greatest one. -/
inductive ByteOrder where
  | little
  | big
  deriving DecidableEq, Repr

/-- The number with these bytes, the least one first. -/
def littleNumber : List Nat → Nat
  | [] => 0
  | b :: rest => b + 0x100 * littleNumber rest

/-- The number with these bytes in an order. -/
def ByteOrder.number (order : ByteOrder) (bytes : List Nat) : Nat :=
  match order with
  | little => littleNumber bytes
  | big => littleNumber bytes.reverse

/-- Is the number the first surrogate of a pair? -/
def isHighSurrogate (n : Nat) : Bool :=
  0xD800 ≤ n && n < 0xDC00

/-- Is the number the second surrogate of a pair? -/
def isLowSurrogate (n : Nat) : Bool :=
  0xDC00 ≤ n && n < 0xE000

/-- The code point of a pair of surrogates. -/
def joinSurrogates (high low : Nat) : CodePoint :=
  .ofNat (0x10000 + (high - 0xD800) * 0x400 + (low - 0xDC00))

/-! ## UTF-8, UTF-16 and UTF-32 -/

/-- Reads on in a character of UTF-8 of which `length` bytes have been read and `due` bytes are
missing, the next one between `low` and `high`. A byte that does not go on is not part of it. -/
def utf8Rest (bits due low high length : Nat) : List Nat → Front
  | [] => .malformed [] length
  | b :: rest =>
    if low ≤ b ∧ b ≤ high then
      let bits := bits * 0x40 + (b - 0x80)
      if due = 1 then .text [.ofNat bits] (length + 1)
      else utf8Rest bits (due - 1) 0x80 0xBF (length + 1) rest
    else .malformed [] length

/-- Reads UTF-8. The range of the second byte excludes longer forms than needed, surrogates and
codes that are too large. -/
def utf8Front : List Nat → Front
  | [] => .text [] 0
  | b :: rest =>
    if b < 0x80 then .text [.ofNat b] 1
    else if b < 0xC2 then .malformed [] 1
    else if b < 0xE0 then utf8Rest (b - 0xC0) 1 0x80 0xBF 1 rest
    else if b < 0xF0 then
      let low := if b = 0xE0 then 0xA0 else 0x80
      let high := if b = 0xED then 0x9F else 0xBF
      utf8Rest (b - 0xE0) 2 low high 1 rest
    else if b < 0xF5 then
      let low := if b = 0xF0 then 0x90 else 0x80
      let high := if b = 0xF4 then 0x8F else 0xBF
      utf8Rest (b - 0xF0) 3 low high 1 rest
    else .malformed [] 1

/-- Reads UTF-16. A surrogate without the other one is malformed, together with a single byte after
it at the end. -/
def utf16Front (order : ByteOrder) : List Nat → Front
  | a :: b :: rest =>
    let first := order.number [a, b]
    if isHighSurrogate first then
      match rest with
      | c :: d :: _ =>
        let second := order.number [c, d]
        if isLowSurrogate second then .text [joinSurrogates first second] 4 else .malformed [] 2
      | rest => .malformed [] (2 + rest.length)
    else if isLowSurrogate first then .malformed [] 2
    else .text [.ofNat first] 2
  | bytes => .malformed [] bytes.length

/-- Reads UTF-32. Surrogates and codes that are too large are malformed, and so are less than four
bytes at the end. -/
def utf32Front (order : ByteOrder) : List Nat → Front
  | a :: b :: c :: d :: _ =>
    let n := order.number [a, b, c, d]
    if isHighSurrogate n || isLowSurrogate n || 0x110000 ≤ n then .malformed [] 4
    else .text [.ofNat n] 4
  | bytes => .malformed [] bytes.length

/-! ## UTF-7 -/

/-- The value of a digit of base 64. -/
def base64Value? (b : Nat) : Option Nat :=
  if 0x41 ≤ b ∧ b ≤ 0x5A then some (b - 0x41)
  else if 0x61 ≤ b ∧ b ≤ 0x7A then some (b - 0x61 + 26)
  else if 0x30 ≤ b ∧ b ≤ 0x39 then some (b - 0x30 + 52)
  else if b = 0x2B then some 62
  else if b = 0x2F then some 63
  else none

/-- A shifted section of UTF-7 as far as it has been read: its text, a first surrogate whose second
one has not been read, and the bits that are left with their number. -/
structure Shifted where
  text : Text
  high : Option Nat
  bits : Nat
  count : Nat

namespace Shifted

/-- Reads a unit of 16 bits. A surrogate without the other one stands for itself. -/
def addUnit (s : Shifted) (n : Nat) : Shifted :=
  let single (t : Text) : Shifted :=
    if isHighSurrogate n then { s with text := t, high := some n }
    else { s with text := t ++ [.ofNat n], high := none }
  match s.high with
  | none => single s.text
  | some high =>
    if isLowSurrogate n then { s with text := s.text ++ [joinSurrogates high n], high := none }
    else single (s.text ++ [.ofNat high])

/-- Reads a digit of base 64. -/
def addDigit (s : Shifted) (value : Nat) : Shifted :=
  let bits := s.bits * 0x40 + value
  let count := s.count + 6
  if count < 16 then { s with bits, count }
  else
    let size := Nat.pow 2 (count - 16)
    { s with bits := bits % size, count := count - 16 }.addUnit (bits / size)

/-- Reads the digits of a section. -/
def ofDigits (digits : List Nat) : Shifted :=
  digits.foldl (fun s b => s.addDigit ((base64Value? b).getD 0)) ⟨[], none, 0, 0⟩

/-- Are more bits left than fill the last digit, or are some of them set? -/
def isCut (s : Shifted) : Bool :=
  6 ≤ s.count || s.bits != 0

end Shifted

/-- Reads UTF-7. A plus sign begins a shifted section, which ends at the first byte that is no digit
of base 64; a hyphen there is part of it. -/
def utf7Front : List Nat → Front
  | [] => .text [] 0
  | b :: rest =>
    if 0x80 ≤ b then .malformed [] 1
    else if b ≠ 0x2B then .text [.ofNat b] 1
    else
      let digits := rest.takeWhile fun d => (base64Value? d).isSome
      let s := Shifted.ofDigits digits
      let length := 1 + digits.length
      match rest.drop digits.length with
      | [] => if s.isCut || s.high.isSome then .malformed s.text length else .text s.text length
      | next :: _ =>
        if digits.isEmpty then if next = 0x2D then .text ['+'] 2 else .malformed [] 2
        else if s.isCut then .malformed s.text (length + 1)
        else
          let last := if next < 0x80 then s.high.toList.map CodePoint.ofNat else []
          .text (s.text ++ last) (if next = 0x2D then length + 1 else length)

end SingAlong
