import SingAlong.Text.Basic

/-!
# Instruments

The instruments that a voice can be played on, with their program numbers.
-/

namespace SingAlong

/-- The instruments, as far as songs use them. -/
inductive Instrument where
  | piano
  | brightPiano
  | electricGrand
  | honkyTonkPiano
  | harpsichord
  | celesta
  | glockenspiel
  | musicBox
  | vibraphone
  | churchOrgan
  | accordion
  | nylonGuitar
  | steelGuitar
  | acousticBass
  | violin
  | cello
  | strings
  | choir
  | trumpet
  | clarinet
  | flute
  deriving DecidableEq, Repr

namespace Instrument

/-- All instruments, by program number. -/
def all : List Instrument :=
  [piano, brightPiano, electricGrand, honkyTonkPiano, harpsichord, celesta, glockenspiel, musicBox,
    vibraphone, churchOrgan, accordion, nylonGuitar, steelGuitar, acousticBass, violin, cello,
    strings, choir, trumpet, clarinet, flute]

/-- The program number. -/
def number : Instrument → Nat
  | piano => 0
  | brightPiano => 1
  | electricGrand => 2
  | honkyTonkPiano => 3
  | harpsichord => 6
  | celesta => 8
  | glockenspiel => 9
  | musicBox => 10
  | vibraphone => 11
  | churchOrgan => 19
  | accordion => 21
  | nylonGuitar => 24
  | steelGuitar => 25
  | acousticBass => 32
  | violin => 40
  | cello => 42
  | strings => 48
  | choir => 52
  | trumpet => 56
  | clarinet => 71
  | flute => 73

/-- The name by which an instrument is chosen. -/
def name : Instrument → Text
  | piano => "PIANO".text
  | brightPiano => "BRIGHT_PIANO".text
  | electricGrand => "ELECTRIC_GRAND".text
  | honkyTonkPiano => "HONKY_TONK_PIANO".text
  | harpsichord => "HARPSICHORD".text
  | celesta => "CELESTA".text
  | glockenspiel => "GLOCKENSPIEL".text
  | musicBox => "MUSIC_BOX".text
  | vibraphone => "VIBRAPHONE".text
  | churchOrgan => "CHURCH_ORGAN".text
  | accordion => "ACCORDION".text
  | nylonGuitar => "NYLON_STR_GUITAR".text
  | steelGuitar => "STEEL_STRING_GUITAR".text
  | acousticBass => "ACOUSTIC_BASS".text
  | violin => "VIOLIN".text
  | cello => "CELLO".text
  | strings => "STRING_ENSEMBLE_1".text
  | choir => "CHOIR_AAHS".text
  | trumpet => "TRUMPET".text
  | clarinet => "CLARINET".text
  | flute => "FLUTE".text

/-- The instrument as it is shown in the description of a value. -/
def describe (i : Instrument) : Text :=
  "<Instrument.".text ++ i.name ++ ": ".text ++ Text.ofNat i.number ++ ">".text

end Instrument

/-- Why no instrument is chosen. -/
inductive UnknownInstrument where
  | number (n : Int)
  | name (t : Text)
  deriving DecidableEq, Repr

/-- The wording of the error; for a name it is the name itself. -/
def UnknownInstrument.message : UnknownInstrument → Text
  | .number n => Text.ofInt n ++ " is not a valid Instrument".text
  | .name t => t

namespace Instrument

/-- The instrument with this program number. -/
def ofNumber (n : Int) : Except UnknownInstrument Instrument :=
  match all.find? fun i => i.number == n with
  | some i => .ok i
  | none => .error (.number n)

/-- The instrument with this name. -/
def ofName (t : Text) : Except UnknownInstrument Instrument :=
  match all.find? fun i => i.name == t with
  | some i => .ok i
  | none => .error (.name t)

end Instrument

end SingAlong
