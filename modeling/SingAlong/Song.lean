import SingAlong.Compile
import SingAlong.Text.Encoding
import SingAlong.Tune.Reader

/-!
# Songs

A song is read from the source of a tune, given as text or as the bytes of a file.
-/

namespace SingAlong

/-- The version of the library. -/
def version : List Nat :=
  [0, 1, 0]

/-- The version as a text. -/
def versionText : Text :=
  ".".text.intercalate (version.map Text.ofNat)

/-- Why there is no song. -/
inductive SongError where
  | bytes (e : DecodeError)
  | source (e : SourceError)
  | compile (e : CompileError)

namespace Song

/-- Reads a song from the source of a tune, played on an instrument. -/
def read (source : Text) (instrument : Instrument) : Except SongError Song := do
  let document ← (readTune source).mapError .source
  (ofDocument document instrument).mapError .compile

/-- Reads a song from the bytes of a file. -/
def readBytes (bytes : List Nat) (encoding : Encoding) (policy : Malformed)
    (instrument : Instrument) : Except SongError Song := do
  let source ← (encoding.decode policy bytes).mapError .bytes
  read source instrument

end Song

end SingAlong
