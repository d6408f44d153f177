import SingAlong.Text.CodePage
import SingAlong.Text.Quoted
import SingAlong.Text.Utf

/-!
# Text from bytes

Bytes are decoded to text in an encoding, which is chosen by a name. What becomes of malformed bytes
is chosen by a policy. All line ends of the decoded text become newlines.
-/

namespace SingAlong

/-- The encodings. -/
inductive Encoding where
  | page (p : CodePage)
  | utf7
  | utf8
  /-- With a byte order mark in front, which is not part of the text. -/
  | utf8Marked
  /-- Without a given order, a byte order mark in front tells it and is not part of the text. -/
  | utf16 (order : Option ByteOrder)
  | utf32 (order : Option ByteOrder)

/-- What becomes of malformed bytes. -/
inductive Malformed where
  | refuse
  /-- A replacement character stands for them. -/
  | replace
  | discard
  /-- Each byte is shown as an escape with its code. -/
  | escape
  /-- Each byte above 0x7F is kept as a surrogate; others are refused. -/
  | keepBytes
  /-- Encoded surrogates are kept; all else is refused. -/
  | keepSurrogates
  /-- A policy for encoding, which can not be used for decoding. -/
  | encodeOnly
  /-- A name that no policy has, which shows when the policy is needed. -/
  | unknown
  deriving DecidableEq, Repr

/-- Why bytes can not be decoded. -/
inductive DecodeError where
  | malformed
  /-- The byte order mark is missing. -/
  | noByteOrder
  /-- The policy for malformed bytes can not be used for decoding. -/
  | unusablePolicy
  /-- There is no such policy for malformed bytes. -/
  | unknownPolicy
  deriving DecidableEq, Repr

/-- The wording of the error. -/
def DecodeError.message : DecodeError → Text
  | .malformed => "malformed text".text
  | .noByteOrder => "no byte order mark".text
  | .unusablePolicy => "don't know how to handle UnicodeDecodeError in error callback".text
  | .unknownPolicy => "unknown policy".text

/-! ## Names -/

/-- Lowercase letters, digits and points of a name, with an underscore between them for anything
else. -/
def normalName (pending begun : Bool) : Text → Text
  | [] => []
  | c :: rest =>
    let n := c.toNat
    let upper := 0x41 ≤ n && n ≤ 0x5A
    if upper || (0x61 ≤ n && n ≤ 0x7A) || (0x30 ≤ n && n ≤ 0x39) || n == 0x2E then
      (if pending && begun then "_".text else []) ++
        (if upper then .ofNat (n + 0x20) else c) :: normalName false true rest
    else normalName true begun rest

namespace Encoding

/-- The names of the encodings that are not code pages, with their other names. -/
def named : List (String × String × Encoding) :=
  [("utf_7", "u7 utf7 unicode_1_1_utf_7", utf7),
   ("utf_8", "u8 utf utf8 utf8_ucs2 utf8_ucs4 cp65001", utf8),
   ("utf_8_sig", "", utf8Marked),
   ("utf_16", "u16 utf16", utf16 none),
   ("utf_16_le", "unicodelittleunmarked utf_16le", utf16 (some .little)),
   ("utf_16_be", "unicodebigunmarked utf_16be", utf16 (some .big)),
   ("utf_32", "u32 utf32", utf32 none),
   ("utf_32_le", "utf_32le", utf32 (some .little)),
   ("utf_32_be", "utf_32be", utf32 (some .big))]

/-- All encodings with their names. -/
def all : List (String × String × Encoding) :=
  named ++ CodePage.all.map fun p => (p.name, p.otherNames, page p)

/-- The words of a text that are separated by single blanks. -/
def words (t : Text) : List Text :=
  t.splitOn ' '

/-- The encoding with a name. Letter case does not count, nor which signs separate the parts of the
name; in the other names a point also stands for a separator. -/
def ofName? (t : Text) : Option Encoding :=
  let name := normalName false false t
  let pointless : Text := name.map fun c => if c = CodePoint.char '.' then '_' else c
  let found := all.find? fun (own, others, _) =>
    own.text == name || (words others.text).any fun other => other == name || other == pointless
  if name.isEmpty then none else found.map fun (_, _, e) => e

end Encoding

/-- The policy with a name. -/
def Malformed.ofName (t : Text) : Malformed :=
  let names : List (String × Malformed) :=
    [("strict", refuse), ("replace", replace), ("ignore", discard), ("backslashreplace", escape),
     ("surrogateescape", keepBytes), ("surrogatepass", keepSurrogates),
     ("xmlcharrefreplace", encodeOnly), ("namereplace", encodeOnly)]
  ((names.find? fun (name, _) => name.text == t).map Prod.snd).getD unknown

/-! ## Decoding -/

namespace Encoding

/-- The order of the bytes that the byte order mark in front of them tells, when a number has so
many bytes. -/
def markedOrder? (width : Nat) (bytes : List Nat) : Option ByteOrder :=
  if ByteOrder.little.number (bytes.take width) = 0xFEFF ∧ width ≤ bytes.length then some .little
  else if ByteOrder.big.number (bytes.take width) = 0xFEFF ∧ width ≤ bytes.length then some .big
  else none

/-- The number of bytes of a number, for encodings in which a byte order mark tells the order. -/
def markWidth? : Encoding → Option Nat
  | utf16 none => some 2
  | utf32 none => some 4
  | _ => none

/-- The encoding in the order that the mark in front of the bytes tells, or else with the least byte
first, and the bytes after the mark. The mark of UTF-8 is left out also when it is cut off. -/
def unmark (e : Encoding) (bytes : List Nat) : Encoding × List Nat :=
  let order (width : Nat) := (markedOrder? width bytes).getD .little
  let rest (width : Nat) := if (markedOrder? width bytes).isSome then bytes.drop width else bytes
  match e with
  | utf8Marked =>
    let mark := [0xEF, 0xBB, 0xBF]
    if mark.isPrefixOf bytes then (utf8, bytes.drop 3)
    else (utf8, if bytes.isPrefixOf mark then [] else bytes)
  | utf16 none => (utf16 (some (order 2)), rest 2)
  | utf32 none => (utf32 (some (order 4)), rest 4)
  | e => (e, bytes)

/-- Is the mark that tells the order of the bytes missing? Less than a number needs none. -/
def lacksOrder (e : Encoding) (bytes : List Nat) : Bool :=
  match e.markWidth? with
  | some width => (markedOrder? width bytes).isNone && width ≤ bytes.length
  | none => false

/-- Reads the front of a sequence of bytes, after the mark. -/
def front (e : Encoding) (bytes : List Nat) : Front :=
  match e with
  | page p =>
    match bytes with
    | [] => .text [] 0
    | b :: _ =>
      match p.decode? b with
      | some c => .text [c] 1
      | none => .malformed [] 1
  | utf7 => utf7Front bytes
  | utf8 | utf8Marked => utf8Front bytes
  | utf16 order => utf16Front (order.getD .little) bytes
  | utf32 order => utf32Front (order.getD .little) bytes

/-- The surrogate that is encoded at the front of a sequence of bytes, and the number of its
bytes. -/
def surrogate? (e : Encoding) (bytes : List Nat) : Option (CodePoint × Nat) :=
  let encoded : Option (Nat × Nat) :=
    match e, bytes with
    | utf8, a :: b :: c :: _ =>
      if a = 0xED ∧ 0xA0 ≤ b ∧ b < 0xC0 ∧ 0x80 ≤ c ∧ c < 0xC0 then
        some (0xD000 + (b - 0x80) * 0x40 + (c - 0x80), 3)
      else none
    | utf16 order, a :: b :: _ => some ((order.getD .little).number [a, b], 2)
    | utf32 order, a :: b :: c :: d :: _ => some ((order.getD .little).number [a, b, c, d], 4)
    | _, _ => none
  match encoded with
  | some (n, width) =>
    if isHighSurrogate n || isLowSurrogate n then some (.ofNat n, width) else none
  | none => none

end Encoding

/-- The text for malformed bytes at the front of a sequence, and how many bytes it stands for. -/
def Malformed.resolve (policy : Malformed) (e : Encoding) (bytes : List Nat) (length : Nat) :
    Except DecodeError (Text × Nat) :=
  let part := bytes.take length
  match policy with
  | refuse => .error .malformed
  | replace => .ok ([.ofNat 0xFFFD], length)
  | discard => .ok ([], length)
  | escape => .ok (part.flatMap fun b => "\\x".text ++ Text.hexadecimal 2 b, length)
  | keepBytes =>
    let kept := (part.takeWhile fun b => 0x80 ≤ b).take 4
    if kept.isEmpty then .error .malformed
    else .ok (kept.map fun b => .ofNat (0xDC00 + b), kept.length)
  | keepSurrogates =>
    match e.surrogate? bytes with
    | some (c, width) => .ok ([c], width)
    | none => .error .malformed
  | encodeOnly => .error .unusablePolicy
  | unknown => .error .unknownPolicy

/-- Decodes bytes of which the first `owed` belong to what has been read before. -/
def Encoding.decodeFrom (e : Encoding) (policy : Malformed) (owed : Nat) :
    List Nat → Except DecodeError Text
  | [] => .ok []
  | b :: rest =>
    match owed with
    | owed + 1 => e.decodeFrom policy owed rest
    | 0 =>
      match e.front (b :: rest) with
      | .text t length => do return t ++ (← e.decodeFrom policy (length - 1) rest)
      | .malformed before length => do
        let (t, length) ← policy.resolve e (b :: rest) length
        return before ++ t ++ (← e.decodeFrom policy (length - 1) rest)

/-- Makes every line end a newline: a carriage return with the newline after it, or alone. -/
def Text.unifyLines : Text → Text
  | '\r' :: '\n' :: rest => '\n' :: unifyLines rest
  | '\r' :: rest => '\n' :: unifyLines rest
  | c :: rest => c :: unifyLines rest
  | [] => []

/-- Decodes the bytes of a text file. Malformed bytes are found before a missing mark. -/
def Encoding.decode (e : Encoding) (policy : Malformed) (bytes : List Nat) :
    Except DecodeError Text := do
  let (unmarked, rest) := e.unmark bytes
  let text ← unmarked.decodeFrom policy 0 rest
  if e.lacksOrder bytes then .error .noByteOrder else .ok (Text.unifyLines text)

end SingAlong
