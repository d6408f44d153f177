import SingAlong.Text.Basic

/-!
# File name patterns

In a pattern an asterisk stands for any text, a question mark for any character, and characters in
brackets for one of them, or with an exclamation mark in front for any other one. Two characters
with a hyphen between them stand for all from the first to the second.
-/

namespace SingAlong

/-- An item of a pattern. -/
inductive GlobItem where
  | anyText
  | anyChar
  | char (c : CodePoint)
  /-- One character in a range, ends included, or in none of the ranges. -/
  | inRanges (ranges : List (CodePoint × CodePoint))
  | outsideRanges (ranges : List (CodePoint × CodePoint))
  deriving DecidableEq, Repr

namespace GlobItem

/-- Is a character in one of the ranges? -/
def covers (ranges : List (CodePoint × CodePoint)) (c : CodePoint) : Bool :=
  ranges.any fun (first, last) => first.toNat ≤ c.toNat && c.toNat ≤ last.toNat

/-- Does the item stand for a character? -/
def holds (c : CodePoint) : GlobItem → Bool
  | anyText | anyChar => true
  | char d => c == d
  | inRanges ranges => covers ranges c
  | outsideRanges ranges => !covers ranges c

/-- The ranges between brackets; a single character is a range of its own. -/
def readRanges : Text → List (CodePoint × CodePoint)
  | first :: '-' :: last :: rest => (first, last) :: readRanges rest
  | c :: rest => (c, c) :: readRanges rest
  | [] => []

/-- The item for what stands between brackets. Ranges without characters are left out before the
exclamation mark is looked for. -/
def ofBrackets (t : Text) : GlobItem :=
  let filled (t : Text) := (readRanges t).filter fun (first, last) => first.toNat ≤ last.toNat
  match t with
  | '!' :: rest => outsideRanges (filled rest)
  | t =>
    match filled t with
    | ('!', '!') :: ranges => outsideRanges ranges
    | ranges => inRanges ranges

/-- What stands between brackets, in the text after the opening one. A closing bracket in front does
not close. -/
def brackets? (t : Text) : Option Text :=
  let mark := if "!".text.isPrefixOf t then 1 else 0
  let front := if "]".text.isPrefixOf (t.drop mark) then mark + 1 else mark
  let length := front + ((t.drop front).takeWhile fun c : CodePoint => c != ']').length
  if length < t.length then some (t.take length) else none

end GlobItem

/-- The items of a pattern, of which the first `owed` characters have been read before. A bracket
that is not closed stands for itself. -/
def readGlob (owed : Nat) : Text → List GlobItem
  | [] => []
  | c :: rest =>
    match owed with
    | owed + 1 => readGlob owed rest
    | 0 =>
      if c = '*' then .anyText :: readGlob 0 rest
      else if c = '?' then .anyChar :: readGlob 0 rest
      else if c = '[' then
        match GlobItem.brackets? rest with
        | some inside => .ofBrackets inside :: readGlob (inside.length + 1) rest
        | none => .char c :: readGlob 0 rest
      else .char c :: readGlob 0 rest

/-- Does a test hold of an end of a text, which may be all of it or nothing? -/
def anyEnd (test : Text → Bool) : Text → Bool
  | [] => test []
  | c :: rest => test (c :: rest) || anyEnd test rest

/-- Do the items stand for a text? -/
def matchesItems : List GlobItem → Text → Bool
  | [], t => t.isEmpty
  | .anyText :: items, t => anyEnd (matchesItems items) t
  | item :: items, c :: t => item.holds c && matchesItems items t
  | _ :: _, [] => false

/-- Does a text match a pattern? -/
def matchesGlob (pattern t : Text) : Bool :=
  matchesItems (readGlob 0 pattern) t

end SingAlong
