import SingAlong.Length
import SingAlong.Tune.Node

/-!
# Lyric slots

Every element of a voice that has lyrics gets a slot: a syllable, or a marker that tells that
nothing new is sung there.
-/

namespace SingAlong

/-- A lyric slot. -/
inductive Slot where
  /-- No text. -/
  | blank
  /-- The syllable before it lasts. -/
  | extend
  /-- The end of a line of lyrics. -/
  | newline
  | syllable (text : Text)
  deriving DecidableEq, Repr

namespace Slot

/-- The text of a slot; each marker has a text of its own. -/
def text : Slot → Text
  | blank => [' ']
  | extend => ['_']
  | newline => ['\n']
  | syllable t => t

/-- The slot with this text. -/
def ofText : Text → Slot
  | [' '] => blank
  | ['_'] => extend
  | ['\n'] => newline
  | t => syllable t

/-- Is it a syllable? -/
def isSyllable : Slot → Bool
  | syllable _ => true
  | _ => false

end Slot

/-- A token of the lyrics of a voice. -/
structure LyricToken where
  kind : LyricKind
  text : Text
  deriving DecidableEq, Repr

/-- The token that an element of the lyrics stands for. An element of another kind is a token of
no particular kind, with the text of its head. -/
def LyricToken.ofNode (n : Node) : LyricToken :=
  match n.label with
  | .lyric kind text => ⟨kind, text⟩
  | label => ⟨.plain, label.head?.getD []⟩

/-- An element of a voice that lyrics are aligned with: what it is, and how long it lasts. -/
structure Seat where
  label : Label
  length : Length
  deriving DecidableEq, Repr

end SingAlong
