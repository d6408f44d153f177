import SingAlong.Decimal.Binary64
import SingAlong.Text.Blank
import SingAlong.Text.Case
import SingAlong.Text.Digit
import SingAlong.Text.Glob

/-!
# Formats

A register of formats tells what to read a source with. A format is found by its name or an alias,
or else by the name of a file, the media type and the contents, each of which may speak for a format
with a weight.
-/

namespace SingAlong

/-- A registered format. The identifier is dotted; the part before the last names the family of the
format. -/
structure SourceFormat where
  identifier : Text
  name : Option Text
  aliases : List Text
  /-- Patterns of file names with their weights. -/
  filenames : List (Text × Rat)
  mimetypes : List (Text × Rat)
  /-- Tests of the contents, with their weights. -/
  guesses : List ((Text → Bool) × Rat)

/-- Does a source begin with the index field of a tune? -/
def beginsTune : Text → Bool
  | 'X' :: ':' :: rest =>
    match Text.trimStart rest with
    | c :: _ => isDigit c
    | [] => false
  | _ => false

namespace SourceFormat

/-- The format of tunes with lyrics. -/
def tune : SourceFormat where
  identifier := "karaoke.lang.abc.Abc.root".text
  name := some "ABC".text
  aliases := ["abc".text]
  filenames := [("*.abc".text, 1)]
  mimetypes := [("text/vnd.abc".text, 1)]
  guesses := [(beginsTune, Binary64.rounded (4 / 5))]

/-- The parts of a dotted identifier. -/
def parts : Text → List Text
  | [] => [[]]
  | c :: rest =>
    match parts rest with
    | [] => [[c]]
    | part :: others => if c = '.' then [] :: part :: others else (c :: part) :: others

/-- The family of the format. -/
def family (f : SourceFormat) : Text :=
  (parts f.identifier).reverse[1]?.getD []

/-- The best weight of the entries that a test holds of. -/
def bestWeight (test : Text → Bool) (entries : List (Text × Rat)) : Rat :=
  (@List.max? Rat Rat.instMax ((entries.filter fun entry => test entry.1).map Prod.snd)).getD 0

/-- The weight of a file name: that of the best pattern that matches. An empty name has none. -/
def filenameWeight (f : SourceFormat) (filename : Text) : Rat :=
  if filename.isEmpty then 0 else bestWeight (matchesGlob · filename) f.filenames

/-- The best weight of a media type. An empty one has none. -/
def mimetypeWeight (f : SourceFormat) (mimetype : Text) : Rat :=
  if mimetype.isEmpty then 0 else bestWeight (· == mimetype) f.mimetypes

/-- The weights of the guesses that hold of the contents. -/
def guessWeights (f : SourceFormat) (contents : Text) : List Rat :=
  (f.guesses.filter fun g => g.1 contents).map Prod.snd

end SourceFormat

/-- The registered formats, in the order of registration. -/
abbrev Register := List SourceFormat

/-- A search by name came to a format without a name. -/
structure UnnamedFormat where
  identifier : Text
  deriving DecidableEq, Repr

/-- What is known about a source. -/
structure Clues where
  filename : Text
  mimetype : Text
  contents : Text

/-- The formats that clues speak for, with their weights, in the order in which they got them. -/
abbrev Candidates := List (SourceFormat × Rat)

namespace Register

/-- Registers a format, in the place of one with the same identifier. -/
def put (f : SourceFormat) : Register → Register
  | [] => [f]
  | g :: others => if g.identifier = f.identifier then f :: others else g :: put f others

/-- Is the text the name or an alias of the format, ignoring case? -/
def isNamed (t : Text) (f : SourceFormat) : Bool :=
  (f.name.toList ++ f.aliases).any fun name => Text.lower name == Text.lower t

/-- Does a format stop a search by name? One without a name does, unless the text is an alias. -/
def stopsSearch (t : Text) (f : SourceFormat) : Bool :=
  f.name.isNone && !f.aliases.contains t

/-- The format with a name: by its name, by an alias, by either ignoring case, or by its family
ignoring case. Only a name before it saves the search from a format that stops it. -/
def named? (r : Register) (t : Text) : Except UnnamedFormat (Option SourceFormat) :=
  let isOwn (f : SourceFormat) := f.name == some t
  match (r.takeWhile fun f => !isOwn f).find? (stopsSearch t) with
  | some f => .error ⟨f.identifier⟩
  | none =>
    .ok ((r.find? isOwn)
      |>.or (r.find? fun f => f.aliases.contains t)
      |>.or (r.find? (isNamed t))
      |>.or (r.find? fun f => Text.lower f.family == Text.lower t))

/-- Adds a weight to a candidate, or a new candidate; a weight of zero does not count. -/
def weigh (f : SourceFormat) (weight : Rat) : Candidates → Candidates
  | [] => if weight = 0 then [] else [(f, weight)]
  | (g, w) :: others =>
    if g.identifier = f.identifier then (g, Binary64.rounded (w + weight)) :: others
    else (g, w) :: weigh f weight others

/-- Adds the weights that a function gives to formats. -/
def weighAll (weights : SourceFormat → List Rat) (formats : List SourceFormat) (cs : Candidates) :
    Candidates :=
  formats.foldl (fun cs f => (weights f).foldl (fun cs w => weigh f w cs) cs) cs

/-- The candidates, the heaviest first; of equal ones the first stays first. -/
def ranked (cs : Candidates) : Candidates :=
  cs.mergeSort fun a b => b.2 ≤ a.2

/-- Do the clues without the contents leave the choice open? -/
def isOpen (cs : Candidates) : Bool :=
  match ranked cs with
  | [] => true
  | a :: b :: _ => a.2 == b.2
  | [_] => false

/-- The number of characters at the front of the contents that guesses look at. -/
def guessLength : Nat :=
  5000

/-- The candidates for clues. The contents count only when the others leave the choice open. -/
def candidates (r : Register) (clues : Clues) : Candidates :=
  let cs := weighAll (fun f => [f.filenameWeight clues.filename]) r []
  let cs := weighAll (fun f => [f.mimetypeWeight clues.mimetype]) r cs
  if isOpen cs then
    let formats := if cs.isEmpty then r else cs.map Prod.fst
    weighAll (fun f => f.guessWeights (clues.contents.take guessLength)) formats cs
  else cs

/-- The format with a name, or without a name the one that the clues speak for most. -/
def find? (r : Register) (name : Text) (clues : Clues) :
    Except UnnamedFormat (Option SourceFormat) :=
  if name.isEmpty then .ok ((ranked (r.candidates clues)).head?.map Prod.fst) else r.named? name

/-- The register with the format of tunes. -/
def standard : Register :=
  [SourceFormat.tune]

end Register

end SingAlong
