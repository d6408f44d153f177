import SingAlong.Tune.Node
import SingAlong.Tune.Token

/-!
# Reading a tune

The tokens of a source are put together to the tree of a tune. The tokens of each chord and each
line of lyrics form a group. Notes and rests are assembled from their parts by `readDurables`, whose
result is what was read before the first fault, and the fault. The chords are read first, then the
body, then the header, and the first fault in this order is the one that is reported.
-/

namespace SingAlong

/-- What is wrong with the source of a tune. -/
inductive Fault where
  | accidentalWithoutNote
  | doubleAccidental
  | accidentalBeforeRest
  | unexpected (text : Text)
  | unterminatedChord
  | restInChord
  | textInChord
  | emptyChord
  | notInTuplet
  | incompleteTuplet
  | nestedTuplet
  | invalidMusic (text : Text)
  | invalidHeader (text : Text)
  deriving DecidableEq, Repr

/-- A fault, and the position in the source where it is found. -/
structure SourceError where
  fault : Fault
  pos : Nat
  deriving DecidableEq, Repr

/-- The fault in words. -/
def Fault.describe : Fault → Text
  | .accidentalWithoutNote => "accidental without a note".text
  | .doubleAccidental => "double accidental".text
  | .accidentalBeforeRest => "accidental before a rest".text
  | .unexpected t => "unexpected ".text ++ Text.quoted t
  | .unterminatedChord => "unterminated chord".text
  | .restInChord => "rest in chord".text
  | .textInChord => "unexpected text in chord".text
  | .emptyChord => "empty chord".text
  | .notInTuplet => "only notes and chords can be in a tuplet".text
  | .incompleteTuplet => "incomplete tuplet".text
  | .nestedTuplet => "nested tuplet".text
  | .invalidMusic t => "invalid music text ".text ++ Text.quoted t
  | .invalidHeader t => "invalid header text ".text ++ Text.quoted t

/-- The wording of the error. -/
def SourceError.message (e : SourceError) : Text :=
  e.fault.describe ++ " (at position ".text ++ Text.ofNat e.pos ++ ")".text

/-- The span of a token. -/
def Token.span (t : Token) : Span :=
  ⟨t.pos, t.stop⟩

/-- The element with this label that a token is read as. -/
def Token.node (t : Token) (label : Label) : Node :=
  .mk label (some t.span) none []

/-! ## Notes and rests -/

/-- An item of the music: a token, or a chord or line of lyrics that has been read. -/
inductive Item where
  | token (t : Token)
  | chord (start : Nat) (node : Node)
  | lyrics (node : Node)

/-- A note or rest that has been put together, or an item that is part of none. -/
inductive Piece where
  | durable (start : Nat) (node : Node)
  | item (i : Item)

/-- What has been read before the first fault, and the fault if there is one. -/
structure Reading where
  pieces : List Piece
  fault : Option SourceError

/-- The note or rest that the next token can be part of. -/
inductive Pending where
  | nothing
  /-- An accidental, whose note must follow. -/
  | accidental (t : Token) (a : Accidental)
  /-- A note or rest, which octave marks or a length can follow, as the two flags tell. -/
  | durable (start : Nat) (node : Node) (octaveDue lengthDue : Bool)

namespace Pending

/-- The note or rest that is complete when no part of it follows. -/
def complete : Pending → List Piece
  | durable start node _ _ => [.durable start node]
  | _ => []

/-- The fault when no part of a note follows. -/
def fault? : Pending → Option SourceError
  | accidental t _ => some ⟨.accidentalWithoutNote, t.pos⟩
  | _ => none

/-- What a token that is part of a note or rest makes of a pending one: the pieces that it
completes, and what is pending after it. -/
def take (p : Pending) (t : Token) : List Piece × Except SourceError Pending :=
  match t.lexeme, p with
  | .accidental _, accidental _ _ => ([], .error ⟨.doubleAccidental, t.pos⟩)
  | .accidental a, p => (p.complete, .ok (accidental t a))
  | .note name, accidental u a =>
    let node := Node.mk (.note name) (some t.span) none [u.node (.accidental a)]
    ([], .ok (durable u.pos node true true))
  | .note name, p => (p.complete, .ok (durable t.pos (t.node (.note name)) true true))
  | .rest, accidental u _ => ([], .error ⟨.accidentalBeforeRest, u.pos⟩)
  | .rest, p => (p.complete, .ok (durable t.pos (t.node (.rest t.text)) false true))
  | .octave marks, durable start node true _ =>
    ([], .ok (durable start (node.append (t.node (.octave marks))) false true))
  | .length text, durable start node _ true =>
    ([], .ok (durable start (node.append (t.node (.length text))) false false))
  | _, p => (p.complete, .error ⟨.unexpected t.text, t.pos⟩)

end Pending

/-- Puts notes and rests together, from a pending one on; other items stay as they are. -/
def readDurables (p : Pending) : List Item → Reading
  | [] => ⟨p.complete, p.fault?⟩
  | .token t :: rest =>
    if t.lexeme.isMusic then
      match p.take t with
      | (done, .ok p) =>
        let reading := readDurables p rest
        ⟨done ++ reading.pieces, reading.fault⟩
      | (done, .error e) => ⟨done, some e⟩
    else
      match p.fault? with
      | some e => ⟨[], some e⟩
      | none =>
        let reading := readDurables .nothing rest
        ⟨p.complete ++ .item (.token t) :: reading.pieces, reading.fault⟩
  | item :: rest =>
    match p.fault? with
    | some e => ⟨[], some e⟩
    | none =>
      let reading := readDurables .nothing rest
      ⟨p.complete ++ .item item :: reading.pieces, reading.fault⟩

/-! ## Chords and lines of lyrics -/

/-- A token of the body, or a group of tokens with the token that opens it. -/
inductive Group where
  | single (t : Token)
  | chord (opening : Token) (inside : List Token)
  | lyrics (opening : Token) (inside : List Token)

/-- Groups the tokens of the body, from the last one on: the tokens at the front that belong to a
group opened before them, and the groups after those. -/
def groupFrom : List Token → List Token × List Group
  | [] => ([], [])
  | t :: rest =>
    let (inside, groups) := groupFrom rest
    match t.lexeme, t.region with
    | .chordStart, _ => ([], .chord t inside :: groups)
    | .lyricStart, _ => ([], .lyrics t inside :: groups)
    | _, .chord | _, .lyric => (t :: inside, groups)
    | _, _ => ([], .single t :: groups)

/-- Takes the pieces of a chord as its notes. -/
def chordNotes (opening : Token) : List Piece → Except SourceError (List Node)
  | [] => .ok []
  | .durable start node :: rest =>
    match node.label with
    | .note _ => do return node :: (← chordNotes opening rest)
    | _ => .error ⟨.restInChord, start⟩
  | .item _ :: _ => .error ⟨.textInChord, opening.pos⟩

/-- Reads a chord from the token that opens it and the tokens inside, the last of which closes
it. -/
def readChord (opening : Token) (inside : List Token) : Except SourceError Node :=
  match inside.getLast? with
  | some closing =>
    if closing.lexeme = .chordEnd then do
      let reading := readDurables .nothing (inside.dropLast.map Item.token)
      let notes ← chordNotes opening reading.pieces
      match reading.fault with
      | some e => .error e
      | none =>
        if notes.isEmpty then .error ⟨.emptyChord, opening.pos⟩
        else .ok (.mk .chord (some opening.span) (some closing.span) notes)
    else .error ⟨.unterminatedChord, opening.pos⟩
  | none => .error ⟨.unterminatedChord, opening.pos⟩

/-- The element that a token of a line of lyrics is read as; comments are left out. -/
def lyricNode? (t : Token) : Option Node :=
  match t.lexeme with
  | .lyric kind text => some (t.node (.lyric kind text))
  | .newline => some (t.node (.lyric .newline t.text))
  | _ => none

/-- Is it the end of a line of lyrics? -/
def Label.isLyricNewline : Label → Bool
  | lyric .newline _ => true
  | _ => false

/-- Reads a line of lyrics, which always ends with a newline. -/
def readLyrics (opening : Token) (inside : List Token) : Node :=
  let read := inside.filterMap lyricNode?
  let ended := (read.getLast?.map fun n => n.label.isLyricNewline).getD false
  let children := if ended then read else read ++ [.unread (.lyric .newline ['\n']) []]
  .mk .lyricLine (some opening.span) none children

/-- Reads the chord or the line of lyrics of a group. -/
def Group.read : Group → Except SourceError Item
  | single t => .ok (.token t)
  | chord opening inside => do return .chord opening.pos (← readChord opening inside)
  | lyrics opening inside => .ok (.lyrics (readLyrics opening inside))

/-! ## The body -/

/-- A tuplet that has been begun, with the notes and chords that it has so far. -/
structure OpenTuplet where
  mark : Token
  size : TupletSize
  members : List Node

/-- The body as far as it has been read: the nodes that are complete, the elements of the current
line, and the tuplet that has been begun. -/
structure Draft where
  nodes : List Node
  line : List Node
  tuplet : Option OpenTuplet

namespace Draft

/-- The body before anything is read. -/
def empty : Draft :=
  ⟨[], [], none⟩

/-- Adds a note, rest or chord to the tuplet that has been begun, or else to the line. The tuplet
goes to the line as soon as it is complete. -/
def add (d : Draft) (start : Nat) (node : Node) : Except SourceError Draft :=
  match d.tuplet with
  | none => .ok { d with line := d.line ++ [node] }
  | some t =>
    if node.label.isSung then
      let members := t.members ++ [node]
      if members.length = t.size.count then
        let tuplet := Node.mk (.tuplet t.size) (some t.mark.span) none members
        .ok { d with line := d.line ++ [tuplet], tuplet := none }
      else .ok { d with tuplet := some { t with members } }
    else .error ⟨.notInTuplet, start⟩

/-- No tuplet may be incomplete here. -/
def checkTuplet (d : Draft) : Except SourceError Unit :=
  match d.tuplet with
  | some t => .error ⟨.incompleteTuplet, t.mark.pos⟩
  | none => .ok ()

/-- Ends the line, if it has any elements. -/
def endLine (d : Draft) (ending : Node) : Draft :=
  if d.line.isEmpty then d
  else { d with nodes := d.nodes ++ [.unread .line (d.line ++ [ending])], line := [] }

/-- Adds a token that is not part of a note or rest. -/
def addToken (d : Draft) (t : Token) : Except SourceError Draft :=
  match t.lexeme with
  | .newline => do
    d.checkTuplet
    return d.endLine (t.node (.endOfLine t.text))
  | .bar b => do
    d.checkTuplet
    return { d with line := d.line ++ [t.node (.bar b)] }
  | .tuplet size =>
    match d.tuplet with
    | some _ => .error ⟨.nestedTuplet, t.pos⟩
    | none => .ok { d with tuplet := some ⟨t, size, []⟩ }
  | .voiceField text =>
    .ok { d with nodes := d.nodes ++ [t.node (.voiceField (Text.trimEnd text))] }
  | .comment text =>
    let comment := t.node (.comment text)
    if d.line.isEmpty then .ok { d with nodes := d.nodes ++ [comment] }
    else .ok { d with line := d.line ++ [comment] }
  | _ => .error ⟨.invalidMusic t.text, t.pos⟩

/-- Adds a piece. Voice fields and lines of lyrics are complete at once, also within a line of
music. -/
def addPiece (d : Draft) : Piece → Except SourceError Draft
  | .durable start node => d.add start node
  | .item (.token t) => d.addToken t
  | .item (.chord start node) => d.add start node
  | .item (.lyrics node) => .ok { d with nodes := d.nodes ++ [node] }

end Draft

/-- Reads the body from its items. A line that ends with the source gets an end of its own. -/
def readBody (items : List Item) : Except SourceError Node := do
  let reading := readDurables .nothing items
  let d ← reading.pieces.foldlM Draft.addPiece Draft.empty
  match reading.fault with
  | some e => .error e
  | none =>
    d.checkTuplet
    return .unread .body (d.endLine (.unread (.endOfLine ['\n']) [])).nodes

/-! ## The header and the whole tune -/

/-- The element that a token of the header is read as. -/
def headerNode (t : Token) : Except SourceError Node :=
  match t.lexeme with
  | .keyField text => .ok (t.node (.keyField (Text.trimEnd text)))
  | .field text => .ok (t.node (.field (Text.trimEnd text)))
  | .comment text => .ok (t.node (.comment text))
  | _ => .error ⟨.invalidHeader t.text, t.pos⟩

/-- Reads a tune. A tune without anything after the key field has no body. -/
def readTune (source : Text) : Except SourceError Node := do
  let (header, body) := (tokens source).span fun t => t.region = .header
  let items ← (groupFrom body).2.mapM Group.read
  let bodies ← if body.isEmpty then pure [] else (readBody items).map ([·])
  let fields ← header.mapM headerNode
  return .unread .document (.unread .header fields :: bodies)

end SingAlong
