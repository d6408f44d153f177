import SingAlong.Music.Basic

/-!
# Music as text

Two renderings of music: a short diagnostic one, with pitches as in a tune and lengths as decimals,
and a full description that names all parts. The short one fails when a length is too large for a
decimal.
-/

namespace SingAlong

namespace Music

mutual
/-- The short rendering. -/
def text? : Music → Option Text
  | note l p _ => (decimal? l.value).map (p.text ++ ·)
  | rest l => (decimal? l.value).map ('z' :: ·)
  | lyric t l => (decimal? l.value).map (t ++ ·)
  | chord ns => (textOf? ns).map fun t => "[".text ++ t ++ "]".text
  | tuplet ns => do
    let t ← textOf? ns
    let d ← decimal? ((firstDuration ns).scale (tupletTime ns.length)).value
    return "(".text ++ Text.ofNat ns.length ++ t ++ d
  | concat a b => do return (← text? a) ++ (← text? b)
  | component ps => (textOf? ps).map fun t => "\x7b".text ++ t ++ "\x7d".text
  | piece vs h => do
    let meter ← decimal? h.meter
    let length ← decimal? h.length
    let body ← textIn? vs
    return "X:".text ++ Text.ofInt h.index ++ "T:".text ++ h.title ++ "C:".text ++ h.composer ++
      "M:".text ++ meter ++ "L:".text ++ length ++ "V:".text ++ h.voiceList ++ "K:".text ++
      h.key.name ++ "\n".text ++ body
/-- The short renderings of the expressions of a list, together. -/
def textOf? : List Music → Option Text
  | [] => some []
  | m :: ms => do return (← text? m) ++ (← textOf? ms)
/-- The voices of a piece, one on each line. -/
def textIn? : List (Text × Music) → Option Text
  | [] => some []
  | (v, m) :: vs => do return v ++ ": ".text ++ (← text? m) ++ "\n".text ++ (← textIn? vs)
end

mutual
/-- The full description. -/
def describe : Music → Text
  | note l p i =>
    "Note(length=".text ++ l.describe ++ ", pitch=".text ++ p.describe ++
      ", instrument=".text ++ i.describe ++ ")".text
  | rest l => "Rest(length=".text ++ l.describe ++ ")".text
  | lyric t l =>
    "Lyric(text=".text ++ Text.quoted t ++ ", length=".text ++ l.describe ++ ")".text
  | chord ns => "Chord(notes=".text ++ describeTuple (describeAll ns) ++ ")".text
  | tuplet ns => "Tuplet(notes=".text ++ describeTuple (describeAll ns) ++ ")".text
  | concat a b => "Concat(first=".text ++ describe a ++ ", second=".text ++ describe b ++ ")".text
  | component ps => "Component(parts=".text ++ describeTuple (describeAll ps) ++ ")".text
  | piece vs h =>
    "Piece(voice_music=".text ++ describeTuple (describeVoices vs) ++ ", header=".text ++
      h.describe ++ ")".text
/-- The descriptions of the expressions of a list. -/
def describeAll : List Music → List Text
  | [] => []
  | m :: ms => describe m :: describeAll ms
/-- The descriptions of the voices of a piece. -/
def describeVoices : List (Text × Music) → List Text
  | [] => []
  | (v, m) :: vs => describeTuple [Text.quoted v, describe m] :: describeVoices vs
end

end Music

end SingAlong
