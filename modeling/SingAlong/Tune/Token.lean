import SingAlong.Text.Blank
import SingAlong.Text.Digit
import SingAlong.Tune.Symbol

/-!
# Tokens

The source of a tune is read as tokens. A token holds its lexeme, its position and the region that
it belongs to: the header up to the key field, the body after it, and within the body the chords
between brackets and the lines of lyrics. `Region.rules` lists what each region recognises; the
first rule that applies at a position counts, also when a later one would take more. `tokens` reads
a whole source.
-/

namespace SingAlong

/-- What a token is, with its text. -/
inductive Lexeme where
  | keyField (text : Text)
  | field (text : Text)
  | comment (text : Text)
  /-- Text that no rule recognises. -/
  | unknown (text : Text)
  | lyricStart
  | voiceField (text : Text)
  | newline
  | bar (b : Bar)
  | chordStart
  | chordEnd
  | tuplet (size : TupletSize)
  | accidental (a : Accidental)
  | note (name : NoteName)
  | octave (marks : List OctaveMark)
  | rest
  | length (text : Text)
  | lyric (kind : LyricKind) (text : Text)
  deriving DecidableEq, Repr

namespace Lexeme

/-- The text of the lexeme in the source. -/
def text : Lexeme → Text
  | keyField t | field t | comment t | unknown t | voiceField t | length t | lyric _ t => t
  | lyricStart => ['w', ':']
  | newline => ['\n']
  | bar b => b.text
  | chordStart => ['[']
  | chordEnd => [']']
  | tuplet s => s.text
  | accidental a => a.text
  | note n => n.text
  | octave marks => marks.map OctaveMark.char
  | rest => ['z']

/-- The class of the lexeme, for highlighting: words from the general to the particular. -/
def className : Lexeme → Text
  | keyField _ => "Name.Tag.Key".text
  | field _ => "Name.Tag".text
  | comment _ => "Comment".text
  | unknown _ => "Invalid".text
  | lyricStart => "Keyword.Lyric".text
  | voiceField _ => "Name.Tag.Voice".text
  | newline => "Whitespace.Newline".text
  | bar .single => "Delimiter.Bar".text
  | bar .startRepeat => "Delimiter.Bar.Repeat.Start".text
  | bar .finishRepeat => "Delimiter.Bar.Repeat.End".text
  | bar .firstEnding => "Delimiter.Bar.Ending.First".text
  | bar .secondEnding => "Delimiter.Bar.Ending.Second".text
  | bar _ => "Delimiter.Bar.Major".text
  | chordStart | chordEnd => "Delimiter.Chord".text
  | tuplet _ => "Delimiter.Tuplet".text
  | accidental _ => "Text.Music.Pitch.Accidental".text
  | note _ => "Text.Music.Pitch".text
  | octave _ => "Text.Music.Pitch.Octave".text
  | rest => "Text.Music.Rest".text
  | length _ => "Text.Music.Duration".text
  | lyric .space _ => "Whitespace".text
  | lyric .newline _ => "Whitespace.Newline".text
  | lyric .escapedHyphen _ => "Text.Lyric.Hyphen.Escaped".text
  | lyric .hyphen _ => "Text.Lyric.Hyphen".text
  | lyric .extender _ => "Text.Lyric.Extender".text
  | lyric .skip _ => "Text.Lyric.Skip".text
  | lyric .tie _ => "Text.Lyric.Tie".text
  | lyric .bar _ => "Text.Lyric.Bar".text
  | lyric _ _ => "Text.Lyric".text

/-- Is it part of a note or rest? -/
def isMusic : Lexeme → Bool
  | accidental _ | note _ | octave _ | rest | length _ => true
  | _ => false

end Lexeme

/-- The regions of a source, each with rules of its own. -/
inductive Region where
  | header
  | body
  | chord
  | lyric
  deriving DecidableEq, Repr

/-- The name of a region. -/
def Region.name : Region → Text
  | .header => "root".text
  | .body => "body".text
  | .chord => "chord".text
  | .lyric => "lyric".text

/-- A lexeme at its position in the source, and the region that it belongs to. The token that opens
a chord or a line of lyrics is part of it. -/
structure Token where
  pos : Nat
  lexeme : Lexeme
  region : Region
  deriving DecidableEq, Repr

namespace Token

/-- The text of the token in the source. -/
def text (t : Token) : Text :=
  t.lexeme.text

/-- The position after the token. -/
def stop (t : Token) : Nat :=
  t.pos + t.text.length

end Token

/-! ## Rules -/

/-- What a rule recognises at the front of a text: a lexeme, with the region that it belongs to and
the region after it, or blanks that are passed over. -/
inductive Recognised where
  | lexeme (l : Lexeme) (region next : Region)
  | blanks (t : Text)
  deriving DecidableEq, Repr

/-- The text that is recognised. -/
def Recognised.text : Recognised → Text
  | .lexeme l _ _ => l.text
  | .blanks t => t

/-- A rule may recognise something at the front of a text. -/
abbrev Rule := Text → Option Recognised

namespace Rule

/-- Recognises a lexeme by its spelling. -/
def spelled (l : Lexeme) (region next : Region) : Rule := fun t =>
  if l.text.isPrefixOf t then some (.lexeme l region next) else none

/-- Recognises a nonempty sequence of characters of a class. -/
def many (p : CodePoint → Bool) (found : Text → Recognised) : Rule := fun t =>
  let run := t.takeWhile p
  if run.isEmpty then none else some (found run)

/-- Passes over blanks of a class. -/
def skipping (p : CodePoint → Bool) : Rule :=
  many p .blanks

/-- Does the character continue a field? Line ends and comments end it. -/
def inField (c : CodePoint) : Bool :=
  c != '\n' && c != '%'

/-- Recognises a field: a letter of a class, a colon and the text up to the end of the line or a
comment. -/
def field (p : CodePoint → Bool) (label : Text → Lexeme) (region : Region) : Rule
  | letter :: ':' :: rest =>
    if p letter then
      some (.lexeme (label (letter :: ':' :: rest.takeWhile inField)) region region)
    else none
  | _ => none

/-- Recognises the key field with the end of its line; it belongs to the header and ends it. -/
def keyField : Rule
  | 'K' :: ':' :: rest =>
    let value := rest.takeWhile inField
    let lineEnd := (rest.drop value.length).take 1
    let text := "K:".text ++ value ++ if lineEnd = "\n".text then lineEnd else []
    some (.lexeme (.keyField text) .header .body)
  | _ => none

/-- Recognises a comment, which ends before the end of the line. -/
def comment (region : Region) : Rule
  | '%' :: rest => some (.lexeme (.comment ('%' :: rest.takeWhile Text.inLine)) region region)
  | _ => none

/-- Recognises a note letter. -/
def note (region : Region) : Rule
  | c :: _ => (NoteName.ofChar? c).map fun n => .lexeme (.note n) region region
  | [] => none

/-- Recognises a nonempty sequence of octave marks. -/
def octave (region : Region) : Rule := fun t =>
  let marks := OctaveMark.front t
  if marks.isEmpty then none else some (.lexeme (.octave marks) region region)

/-- Recognises a length suffix: digits, a slash or both, and digits after the slash. -/
def length (region : Region) : Rule := fun t =>
  let numerator := t.takeWhile isDigit
  let run := match t.drop numerator.length with
    | '/' :: rest => numerator ++ "/".text ++ rest.takeWhile isDigit
    | _ => numerator
  if run.isEmpty then none else some (.lexeme (.length run) region region)

/-- The rules for the parts of notes and rests. -/
def music (region : Region) : List Rule :=
  Accidental.all.map (fun a => spelled (.accidental a) region region) ++
    [note region, octave region, spelled .rest region region, length region]

/-- Does the character continue a syllable? Blanks and the characters with a meaning of their own
end it. -/
def inSyllable (c : CodePoint) : Bool :=
  !isBlank c && !"%\\*~|_-".text.contains c

/-- Recognises a token of the lyrics by its spelling. -/
def lyric (kind : LyricKind) (text : Text) : Rule :=
  spelled (.lyric kind text) .lyric .lyric

end Rule

/-- Is the character an unaccented letter? -/
def isPlainLetter (c : CodePoint) : Bool :=
  let n := c.toNat
  (0x41 ≤ n && n ≤ 0x5A) || (0x61 ≤ n && n ≤ 0x7A)

/-- The rules of a region, in the order in which they are tried. -/
def Region.rules : Region → List Rule
  | .header =>
    [Rule.keyField, Rule.field isPlainLetter .field .header, Rule.comment .header,
      Rule.skipping isBlank]
  | .body =>
    [Rule.spelled .lyricStart .lyric .lyric, Rule.field (· == 'V') .voiceField .body,
      Rule.comment .body, Rule.spelled .newline .body .body,
      Rule.skipping fun c => c == ' ' || c == '\t' || c == '\r'] ++
    Bar.all.map (fun b => Rule.spelled (.bar b) .body .body) ++
    [Rule.spelled .chordStart .chord .chord] ++
    TupletSize.all.map (fun s => Rule.spelled (.tuplet s) .body .body) ++ Rule.music .body
  | .chord =>
    [Rule.spelled .chordEnd .chord .body, Rule.skipping fun c => c == ' ' || c == '\t'] ++
    Rule.music .chord
  | .lyric =>
    [Rule.spelled .newline .lyric .body, Rule.comment .lyric,
      Rule.many (fun c => c == ' ' || c == '\t' || c == '\r')
        fun t => .lexeme (.lyric .space t) .lyric .lyric,
      Rule.lyric .escapedHyphen ['\\', '-'], Rule.lyric .hyphen ['-'],
      Rule.lyric .extender ['_'], Rule.lyric .skip ['*'], Rule.lyric .tie ['~'],
      Rule.lyric .bar ['|'],
      Rule.many Rule.inSyllable fun t => .lexeme (.lyric .syllable t) .lyric .lyric,
      Rule.lyric .syllable ['\\']]

/-- What the rules of a region recognise at the front of a text. -/
def Region.recognise (region : Region) (t : Text) : Option Recognised :=
  region.rules.findSome? fun rule => rule t

/-! ## Reading -/

/-- The front of a text up to the first position where a rule of the region applies. -/
def Region.unknown (region : Region) : Text → Text
  | [] => []
  | c :: rest => if (region.recognise (c :: rest)).isSome then [] else c :: region.unknown rest

/-- The region that reads on at this position: a chord ends where its rules recognise nothing. -/
def Region.current (region : Region) (t : Text) : Region :=
  if region = .chord ∧ (region.recognise t).isNone then .body else region

/-- What is read at the front of a nonempty text. Where no rule applies, lyrics pass over a
character, and the other regions take all of the unknown text as one lexeme. -/
def Region.next (region : Region) (t : Text) : Recognised :=
  match region.recognise t with
  | some found => found
  | none =>
    if region = .lyric then .blanks (t.take 1)
    else .lexeme (.unknown (region.unknown t)) region region

/-- The tokens of a text at a position of the source, when the first `owed` characters belong to
what was recognised before. -/
def tokensFrom (region : Region) (pos owed : Nat) : Text → List Token
  | [] => []
  | c :: rest =>
    match owed with
    | owed + 1 => tokensFrom region (pos + 1) owed rest
    | 0 =>
      let region := region.current (c :: rest)
      match region.next (c :: rest) with
      | .lexeme l own next => ⟨pos, l, own⟩ :: tokensFrom next (pos + 1) (l.text.length - 1) rest
      | .blanks t => tokensFrom region (pos + 1) (t.length - 1) rest

/-- The tokens of a source. -/
def tokens (source : Text) : List Token :=
  tokensFrom .header 0 0 source

end SingAlong
