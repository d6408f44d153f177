import SingAlong.Tune.Symbol

/-!
# The kinds of elements

The elements of a tune are classified: a note is a durable, a durable is a text element, and so on.
`Kind.isA` is this classification, which selections of elements use.
-/

namespace SingAlong

/-- The kinds of elements, with the general kinds that they belong to. -/
inductive Kind where
  | node
  | element
  | headElement
  | blockElement
  | textElement
  | document
  | comment
  | field
  | keyField
  | header
  | body
  | voiceField
  | line
  | endOfLine
  | accidental
  | octave
  | length
  | durable
  | note
  | rest
  | chord
  | tuplet
  | bar
  | barline
  | majorBarline
  | startRepeat
  | finishRepeat
  | firstEnding
  | secondEnding
  | lyricLine
  | lyricToken
  | lyricText
  | lyricSpace
  | hyphen
  | escapedHyphen
  | extender
  | skip
  | tie
  | lyricBar
  | lyricNewline
  deriving DecidableEq, Repr

namespace Kind

/-- All kinds. -/
def all : List Kind :=
  [node, element, headElement, blockElement, textElement, document, comment, field, keyField,
    header, body, voiceField, line, endOfLine, accidental, octave, length, durable, note, rest,
    chord, tuplet, bar, barline, majorBarline, startRepeat, finishRepeat, firstEnding,
    secondEnding, lyricLine, lyricToken, lyricText, lyricSpace, hyphen, escapedHyphen, extender,
    skip, tie, lyricBar, lyricNewline]

/-- The name of the kind. -/
def name : Kind → Text
  | node => "Node".text
  | element => "Element".text
  | headElement => "HeadElement".text
  | blockElement => "BlockElement".text
  | textElement => "TextElement".text
  | document => "Document".text
  | comment => "Comment".text
  | field => "Field".text
  | keyField => "KeyField".text
  | header => "Header".text
  | body => "Body".text
  | voiceField => "VoiceField".text
  | line => "Line".text
  | endOfLine => "EndOfLine".text
  | accidental => "Accidental".text
  | octave => "Octave".text
  | length => "Length".text
  | durable => "Durable".text
  | note => "Note".text
  | rest => "Rest".text
  | chord => "Chord".text
  | tuplet => "Tuplet".text
  | bar => "Bar".text
  | barline => "Barline".text
  | majorBarline => "MajorBarline".text
  | startRepeat => "StartRepeat".text
  | finishRepeat => "FinishRepeat".text
  | firstEnding => "FirstEnding".text
  | secondEnding => "SecondEnding".text
  | lyricLine => "LyricLine".text
  | lyricToken => "LyricToken".text
  | lyricText => "LyricText".text
  | lyricSpace => "LyricSpace".text
  | hyphen => "Hyphen".text
  | escapedHyphen => "EscapedHyphen".text
  | extender => "Extender".text
  | skip => "Skip".text
  | tie => "Tie".text
  | lyricBar => "LyricBar".text
  | lyricNewline => "LyricNewline".text

/-- The kind with this name. -/
def ofName? (t : Text) : Option Kind :=
  all.find? fun k => k.name == t

/-- The general kinds that a kind belongs to, from the nearest on. -/
def ancestors : Kind → List Kind
  | node => []
  | element => [node]
  | headElement | document | header | body | line => [element, node]
  | blockElement | textElement | lyricLine => [headElement, element, node]
  | chord => [blockElement, headElement, element, node]
  | comment | field | endOfLine | accidental | octave | length | durable | tuplet | bar
  | lyricToken => [textElement, headElement, element, node]
  | keyField | voiceField => [field, textElement, headElement, element, node]
  | note | rest => [durable, textElement, headElement, element, node]
  | barline | majorBarline | startRepeat | finishRepeat | firstEnding | secondEnding =>
    [bar, textElement, headElement, element, node]
  | lyricText | lyricSpace | hyphen | escapedHyphen | extender | skip | tie | lyricBar
  | lyricNewline => [lyricToken, textElement, headElement, element, node]

/-- Is an element of the first kind also one of the second? -/
def isA (k general : Kind) : Bool :=
  k == general || k.ancestors.contains general

end Kind

/-- The kind of a bar symbol. -/
def Bar.kind : Bar → Kind
  | single => .barline
  | double | thickThin | thinThick => .majorBarline
  | startRepeat => .startRepeat
  | finishRepeat => .finishRepeat
  | firstEnding => .firstEnding
  | secondEnding => .secondEnding

/-- The kind of a token of a line of lyrics. -/
def LyricKind.kind : LyricKind → Kind
  | plain => .lyricToken
  | syllable => .lyricText
  | space => .lyricSpace
  | hyphen => .hyphen
  | escapedHyphen => .escapedHyphen
  | extender => .extender
  | skip => .skip
  | tie => .tie
  | bar => .lyricBar
  | newline => .lyricNewline

end SingAlong
