import SingAlong.Tune.Kind

/-!
# Labels

The label of an element is its kind together with the text or symbol that it shows, its head.
`Label.make` builds the label of a kind from a head and refuses a head that the kind can not have.
-/

namespace SingAlong

/-- What an element is, apart from its place in the source and its children. -/
inductive Label where
  /-- A bare node, which can not be written. -/
  | bare
  /-- An element without a kind of its own. -/
  | element
  | document
  | header
  | body
  | line
  | chord
  | lyricLine
  | comment (text : Text)
  | field (text : Text)
  | keyField (text : Text)
  | voiceField (text : Text)
  | endOfLine (text : Text)
  | accidental (a : Accidental)
  | octave (marks : List OctaveMark)
  | length (text : Text)
  /-- A note or rest that is neither. -/
  | durable (text : Text)
  | note (name : NoteName)
  | rest (text : Text)
  | tuplet (size : TupletSize)
  | bar (b : Bar)
  | lyric (kind : LyricKind) (text : Text)
  deriving DecidableEq, Repr

namespace Label

/-- The kind of a label. -/
def kind : Label → Kind
  | bare => .node
  | element => .element
  | document => .document
  | header => .header
  | body => .body
  | line => .line
  | chord => .chord
  | lyricLine => .lyricLine
  | comment _ => .comment
  | field _ => .field
  | keyField _ => .keyField
  | voiceField _ => .voiceField
  | endOfLine _ => .endOfLine
  | accidental _ => .accidental
  | octave _ => .octave
  | length _ => .length
  | durable _ => .durable
  | note _ => .note
  | rest _ => .rest
  | tuplet _ => .tuplet
  | bar b => b.kind
  | lyric k _ => k.kind

/-- The head that an element was made with, for the kinds that are made with one. -/
def ownText? : Label → Option Text
  | bare | element | document | header | body | line | chord | lyricLine => none
  | comment t | field t | keyField t | voiceField t | endOfLine t | length t | durable t
  | rest t | lyric _ t => some t
  | accidental a => some a.text
  | octave marks => some (marks.map OctaveMark.char)
  | note n => some n.text
  | tuplet s => some s.text
  | bar b => some b.text

/-- The text written before the children. -/
def head? : Label → Option Text
  | chord => some ['[']
  | lyricLine => some ['w', ':']
  | label => label.ownText?

/-- The text written after the children. -/
def tail? : Label → Option Text
  | chord => some [']']
  | _ => none

/-- The text written between two children. Only music and lyric lines end with a newline of their
own, and nothing stands before the end of a music line. -/
def separator (parent before after : Label) : Text :=
  match parent, before, after with
  | document, _, _ | header, _, _ => ['\n']
  | body, line, _ | body, lyricLine, _ => []
  | body, _, _ => ['\n']
  | line, _, endOfLine _ => []
  | line, _, _ => [' ']
  | _, _, _ => []

/-- The text of a field of any kind. -/
def fieldText? : Label → Option Text
  | field t | keyField t | voiceField t => some t
  | _ => none

/-- Is it an accidental? -/
def isAccidental : Label → Bool
  | accidental _ => true
  | _ => false

/-- Is it a comment? -/
def isComment : Label → Bool
  | comment _ => true
  | _ => false

/-- Can it get a syllable of its own? Only notes and chords can. -/
def isSung : Label → Bool
  | note _ | chord => true
  | _ => false

/-- Is it a bar of this kind? -/
def isBar (b : Bar) : Label → Bool
  | bar c => b == c
  | _ => false

end Label

/-- The letter of a field. -/
def Field.code? (t : Text) : Option CodePoint :=
  t.head?

/-- The value of a field: what follows the letter and the colon, without blanks around it. -/
def Field.value (t : Text) : Text :=
  Text.trim (t.drop 2)

/-- A head that an element is to be made with. -/
inductive Head where
  | absent
  | text (t : Text)
  | number (n : Int)
  deriving DecidableEq, Repr

/-- A head as it is shown in messages. -/
def Head.describe : Head → Text
  | absent => "None".text
  | text t => Text.quoted t
  | number n => Text.ofInt n

/-- Why a label can not be made. -/
inductive LabelError where
  /-- The kind has no such head. -/
  | invalidHead (kind : Kind) (head : Head)
  /-- The head of a note is not a text. -/
  | notText (head : Head)
  /-- No element is only of this general kind. -/
  | general (kind : Kind)
  deriving DecidableEq, Repr

/-- The wording of the error. -/
def LabelError.message : LabelError → Text
  | .invalidHead kind head =>
    "invalid head for ".text ++ kind.name ++ ": ".text ++ head.describe
  | .notText head =>
    "'in <string>' requires string as left operand, not ".text ++
      match head with
      | .absent => "NoneType".text
      | .text _ => "str".text
      | .number _ => "int".text
  | .general kind => kind.name

namespace Label

/-- The head of a kind that needs none to be given. -/
def defaultHead : Kind → Head
  | .endOfLine | .lyricNewline => .text ['\n']
  | .rest => .text ['z']
  | .barline => .text Bar.single.text
  | .startRepeat => .text Bar.startRepeat.text
  | .finishRepeat => .text Bar.finishRepeat.text
  | .firstEnding => .text Bar.firstEnding.text
  | .secondEnding => .text Bar.secondEnding.text
  | _ => .absent

/-- The label for a symbol that is looked up by the head. -/
def ofSymbol (kind : Kind) (head : Head) (find : Text → Option Label) : Except LabelError Label :=
  match head with
  | .text t => (find t).elim (.error (.invalidHead kind head)) .ok
  | _ => .error (.invalidHead kind head)

/-- The label for a note; its head must be a text at all before it is looked up. -/
def ofNoteHead (head : Head) : Except LabelError Label :=
  match head with
  | .text [c] =>
    ((NoteName.ofChar? c).map note).elim (.error (.invalidHead .note head)) .ok
  | .text _ => .error (.invalidHead .note head)
  | _ => .error (.notText head)

/-- The label of a kind with a head. Kinds without a head of their own ignore it, and the others
have their default head when it is absent. -/
def make (kind : Kind) (head : Head) : Except LabelError Label :=
  let head := if head = .absent then defaultHead kind else head
  let anyText (label : Text → Label) := ofSymbol kind head fun t => some (label t)
  let barNamed (t : Text) : Option Label :=
    (Bar.all.find? fun b => b.kind == kind && b.text == t).map bar
  match kind with
  | .node => .ok bare
  | .element => .ok element
  | .document => .ok document
  | .header => .ok header
  | .body => .ok body
  | .line => .ok line
  | .chord => .ok chord
  | .lyricLine => .ok lyricLine
  | .comment => anyText comment
  | .field => anyText field
  | .keyField => anyText keyField
  | .voiceField => anyText voiceField
  | .endOfLine => anyText endOfLine
  | .length => anyText length
  | .durable => anyText durable
  | .rest => anyText rest
  | .lyricToken => anyText (lyric .plain)
  | .lyricText => anyText (lyric .syllable)
  | .lyricSpace => anyText (lyric .space)
  | .hyphen => anyText (lyric .hyphen)
  | .escapedHyphen => anyText (lyric .escapedHyphen)
  | .extender => anyText (lyric .extender)
  | .skip => anyText (lyric .skip)
  | .tie => anyText (lyric .tie)
  | .lyricBar => anyText (lyric .bar)
  | .lyricNewline => anyText (lyric .newline)
  | .accidental => ofSymbol kind head fun t => (Accidental.ofText? t).map accidental
  | .octave => ofSymbol kind head fun t => (t.mapM OctaveMark.ofChar?).map octave
  | .note => ofNoteHead head
  | .tuplet => ofSymbol kind head fun t => (TupletSize.all.find? fun s => s.text == t).map tuplet
  | .bar | .barline | .majorBarline | .startRepeat | .finishRepeat | .firstEnding
  | .secondEnding => ofSymbol kind head barNamed
  | .headElement | .blockElement | .textElement => .error (.general kind)

end Label

end SingAlong
