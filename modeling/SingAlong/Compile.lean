import SingAlong.Lyrics.Align
import SingAlong.Lyrics.Display
import SingAlong.Repeat

/-!
# Compiling a tune

A tune is compiled to a piece. The header fields are resolved, and the body is split into voices: a
voice field names the voice of the lines after it. The elements of a voice are compiled one by one
with a table of the accidentals in effect, which every bar sets back to the key; the repeats are
expanded, and the lyrics of the voice are aligned with the music and displayed.
-/

namespace SingAlong

/-- Why a tune can not be compiled. -/
inductive CompileError where
  | header (e : HeaderError)
  | length (e : LengthError)
  | music (e : MusicError)
  | display (e : DisplayError)
  /-- The document has no header. -/
  | noHeader
  /-- A header field has no text at all. -/
  | emptyField

/-! ## The header fields -/

/-- The letter and the value of each field, in order. -/
def Node.fields (n : Node) : Except CompileError (List (Text × Text)) :=
  (n.children.filterMap fun child => child.label.fieldText?).mapM fun t =>
    match Field.code? t with
    | some letter => .ok ([letter], Field.value t)
    | none => .error .emptyField

/-- Sets the value of a field; the values of several voice fields are joined by newlines. -/
def Fields.put (letter value : Text) : Fields → Fields
  | [] => [(letter, value)]
  | field :: rest =>
    if field.1 = letter then
      (letter, if letter = "V".text then field.2 ++ "\n".text ++ value else value) :: rest
    else field :: Fields.put letter value rest

/-- The fields of a header, the last one of each letter. -/
def Node.headerFields (n : Node) : Except CompileError Fields := do
  return (← n.fields).foldl (fun fields field => Fields.put field.1 field.2 fields) []

/-! ## The voices -/

/-- The elements of the music of a voice and the elements of its lyrics. -/
structure VoiceParts where
  elements : List Node
  lyrics : List Node

/-- Adds elements to a voice, which is added when it is new. -/
def VoiceParts.add (name : Text) (elements lyrics : List Node) :
    List (Text × VoiceParts) → List (Text × VoiceParts)
  | [] => [(name, ⟨elements, lyrics⟩)]
  | (v, parts) :: rest =>
    if v = name then (v, ⟨parts.elements ++ elements, parts.lyrics ++ lyrics⟩) :: rest
    else (v, parts) :: add name elements lyrics rest

/-- Adds the lines from a node on to the voices, in the voice that is current there. -/
def splitVoices (current : Text) (voices : List (Text × VoiceParts)) :
    List Node → List (Text × VoiceParts)
  | [] => voices
  | n :: rest =>
    match n.label with
    | .voiceField t => splitVoices (Field.value t) voices rest
    | .line =>
      let elements := n.children.filter fun child => !child.label.isComment
      splitVoices current (VoiceParts.add current elements [] voices) rest
    | .lyricLine => splitVoices current (VoiceParts.add current [] n.children voices) rest
    | _ => splitVoices current voices rest

/-- The voices of a body, in the order of their first line, without comments. -/
def Node.voiceParts (body : Node) : List (Text × VoiceParts) :=
  splitVoices Header.defaultVoice [] body.children

/-! ## The music -/

/-- What elements are compiled with. -/
structure Compiler where
  header : Header
  instrument : Instrument

/-- A step of compiling, which reads and changes the accidental table. When it fails, the changes
before it stay. -/
abbrev Compiling := EStateM CompileError AccidentalTable

namespace Compiler

/-- Lets an error of one stage be an error of compiling. -/
def lift {ε α : Type} (f : ε → CompileError) : Except ε α → Compiling α
  | .ok x => pure x
  | .error e => throw (f e)

/-- The length of a note or rest: its suffix times the default length. -/
def length (c : Compiler) (n : Node) : Compiling Length := do
  let factor ← lift .length (readSuffix n.lengthText)
  return .fraction (factor * c.header.length)

/-- A note. Its accidental takes effect for it and for the notes of its letter after it. -/
def note (c : Compiler) (name : NoteName) (n : Node) : Compiling Music := do
  if let some a := n.accidental? then
    modify fun table => table.apply name.letter.text a
  let table ← get
  let octaves := n.octaveShift + if name.high then 1 else 0
  let pitch := Pitch.mk name.letter (table.get name.letter.text + octaves * octave)
  let length ← c.length n
  lift .music (Music.mkNote length pitch c.instrument)

/-- A rest. -/
def rest (c : Compiler) (n : Node) : Compiling Music := do
  let length ← c.length n
  lift .music (Music.mkRest length)

/-- A bar sets the accidentals back to those of the key. -/
def bar : Compiling Music := do
  modify AccidentalTable.reset
  return Music.silence

mutual
/-- Compiles an element. An element that makes no music is a rest that takes no time. -/
def compile (c : Compiler) : Node → Compiling Music
  | .mk label opening closing ns =>
    match label with
    | .note name => c.note name (.mk label opening closing ns)
    | .rest _ => c.rest (.mk label opening closing ns)
    | .chord => do
      let notes ← compileAll c ns
      lift .music (Music.mkChord notes)
    | .tuplet _ => do
      let notes ← compileAll c ns
      lift .music (Music.mkTuplet notes)
    | .bar _ => bar
    | .line => do
      let parts ← compileLine c ns
      return Music.sequence parts
    | _ => pure Music.silence
/-- Compiles the elements of a list, in order. -/
def compileAll (c : Compiler) : List Node → Compiling (List Music)
  | [] => pure []
  | n :: ns => do
    let m ← compile c n
    let ms ← compileAll c ns
    return m :: ms
/-- Compiles the elements of a line, without the comments. -/
def compileLine (c : Compiler) : List Node → Compiling (List Music)
  | [] => pure []
  | n :: ns => do
    if n.label.isComment then compileLine c ns
    else
      let m ← compile c n
      let ms ← compileLine c ns
      return m :: ms
end

/-- Compiles the elements of a voice, starting with the accidentals of the key. -/
def compileVoice (c : Compiler) (elements : List Node) : Except CompileError (List Music) :=
  match (c.compileAll elements).run (.ofKey c.header.key) with
  | .ok ms _ => .ok ms
  | .error e _ => .error e

/-- The entries of a list at the indices of another. -/
def pick {α : Type} (xs : List α) (order : List Nat) : List α :=
  let entries := xs.toArray
  order.filterMap fun i => entries[i]?

/-- The notes of a voice: its elements in performance order, without those that take no time. -/
def timeline (expressions : List Music) (order : List Nat) : Music :=
  Music.sequence ((pick expressions order).filter fun m => 0 < m.duration.value)

/-- The lyrics of a voice in performance order, and the number of syllables that are dropped. -/
def lyricTimeline (elements lyrics : List Node) (expressions : List Music) (order : List Nat) :
    Except CompileError (Music × Nat) := do
  let lengths := expressions.map Music.duration
  let seats := (elements.zip lengths).map fun (n, l) => Seat.mk n.label l
  let aligned := align (lyrics.map LyricToken.ofNode) seats
  let shown ← (display (pick aligned.slots order) (pick lengths order)).mapError .display
  return (Music.sequence shown, aligned.dropped)

/-- A voice: its notes, and its lyrics before them if it has any; with the number of syllables that
are dropped. -/
def voice (c : Compiler) (elements lyrics : List Node) : Except CompileError (Music × Nat) := do
  let expressions ← c.compileVoice elements
  let order := expand elements
  let notes := timeline expressions order
  if lyrics.isEmpty then return (.component [notes], 0)
  else
    let (text, dropped) ← lyricTimeline elements lyrics expressions order
    return (.component [text, notes], dropped)

end Compiler

/-- A compiled tune: the voices and the header, and for each voice whose lyrics do not fit the
number of syllables that are dropped. -/
structure Song where
  voices : List (Text × Music)
  header : Header
  dropped : List Nat

namespace Song

/-- The song as a music expression. -/
def piece (s : Song) : Music :=
  .piece s.voices s.header

/-- The warnings about lyrics that do not fit. -/
def warnings (s : Song) : List Text :=
  s.dropped.map droppedWarning

/-- Compiles the voices of a tune with a header. A tune without a body has no voices. -/
def ofBody (c : Compiler) (body : Option Node) : Except CompileError Song := do
  let voices ← ((body.map Node.voiceParts).getD []).mapM fun (name, parts) => do
    return (name, ← c.voice parts.elements parts.lyrics)
  return {
    voices := voices.map fun (name, music, _) => (name, music)
    header := c.header
    dropped := (voices.map fun (_, _, n) => n).filter (· != 0) }

/-- Compiles a document. -/
def ofDocument (document : Node) (instrument : Instrument) : Except CompileError Song := do
  match document.first? .header with
  | none => .error .noHeader
  | some header =>
    let resolved ← (Header.ofFields (← header.headerFields)).mapError .header
    ofBody ⟨resolved, instrument⟩ (document.first? .body)

end Song

end SingAlong
