import SingAlong.Tune.Label

/-!
# The tree of a tune

A node is an element of a tune: its label, the spans of the source that its head and its tail were
read from, and its children. A node that was not read has no spans.
-/

namespace SingAlong

/-- The characters of a source from `start` on, up to but not including `stop`. -/
structure Span where
  start : Nat
  stop : Nat
  deriving DecidableEq, Repr

/-- An element of a tune with all that is in it. -/
inductive Node where
  | mk (label : Label) (opening closing : Option Span) (children : List Node)

namespace Node

/-- What the element is. -/
def label : Node → Label
  | mk l _ _ _ => l

/-- The span of the head. -/
def opening : Node → Option Span
  | mk _ s _ _ => s

/-- The span of the tail. -/
def closing : Node → Option Span
  | mk _ _ s _ => s

/-- The children, in order. -/
def children : Node → List Node
  | mk _ _ _ ns => ns

/-- An element that was not read from a source. -/
def unread (label : Label) (children : List Node) : Node :=
  mk label none none children

/-- The element with one more child at the end. -/
def append : Node → Node → Node
  | mk l s t ns, n => mk l s t (ns ++ [n])

/-- The kind of the element. -/
def kind (n : Node) : Kind :=
  n.label.kind

/-- The first child of a kind. -/
def first? (n : Node) (k : Kind) : Option Node :=
  n.children.find? fun child => child.kind.isA k

/-- The children that are of one of the kinds. -/
def childrenOf (n : Node) (ks : List Kind) : List Node :=
  n.children.filter fun child => ks.any child.kind.isA

/-- The children that are of none of the kinds. -/
def childrenExcept (n : Node) (ks : List Kind) : List Node :=
  n.children.filter fun child => !ks.any child.kind.isA

mutual
/-- All nodes below a node, in document order. -/
def descendants : Node → List Node
  | mk _ _ _ ns => descendantsAll ns
/-- The nodes of a list and all nodes below them, in document order. -/
def descendantsAll : List Node → List Node
  | [] => []
  | n :: ns => n :: descendants n ++ descendantsAll ns
end

/-- The nodes below a node that are of one of the kinds. -/
def descendantsOf (n : Node) (ks : List Kind) : List Node :=
  n.descendants.filter fun node => ks.any node.kind.isA

mutual
/-- Are two trees equal, apart from the spans? -/
def same : Node → Node → Bool
  | mk l _ _ ns, mk m _ _ ms => l == m && sameAll ns ms
/-- Are the trees of two lists equal, apart from the spans? -/
def sameAll : List Node → List Node → Bool
  | [], [] => true
  | n :: ns, m :: ms => same n m && sameAll ns ms
  | _, _ => false
end

/-! ## Notes and rests -/

/-- The accidental of a note. -/
def accidental? (n : Node) : Option Accidental :=
  n.children.findSome? fun child =>
    match child.label with
    | .accidental a => some a
    | _ => none

/-- The octaves that the octave marks move a note up. -/
def octaveShift (n : Node) : Int :=
  let marks := n.children.findSome? fun child =>
    match child.label with
    | .octave marks => some marks
    | _ => none
  OctaveMark.shift (marks.getD [])

/-- The length suffix of a note or rest, empty when there is none. -/
def lengthText (n : Node) : Text :=
  let text := n.children.findSome? fun child =>
    match child.label with
    | .length t => some t
    | _ => none
  text.getD []

/-! ## Spans -/

mutual
/-- Where the first head that was read from a source starts, in document order. -/
def firstHead : Node → Option Nat
  | mk _ (some span) _ _ => some span.start
  | mk _ none _ ns => firstHeadOf ns
/-- Where the first head of the nodes of a list starts. -/
def firstHeadOf : List Node → Option Nat
  | [] => none
  | n :: ns =>
    match firstHead n with
    | some p => some p
    | none => firstHeadOf ns
end

/-- Where the element starts in the source: at its first head, and for a note with an accidental at
the accidental. -/
def start? (n : Node) : Option Nat :=
  match n.label with
  | .note _ =>
    match n.children.find? fun child => child.label.isAccidental with
    | some a => firstHead a
    | none => firstHead n
  | _ => firstHead n

/-- The outcome of looking for the end of an element. -/
inductive Ending where
  | found (stop : Nat)
  | absent
  /-- A bare node, which has no place in a source, came before any end. -/
  | bare
  deriving DecidableEq, Repr

mutual
/-- Looks for the end of an element: that of its tail, else of its last child that has one, else
of its head. -/
def ending : Node → Ending
  | mk l opening closing ns =>
    if l = .bare then .bare
    else match closing with
      | some span => .found span.stop
      | none =>
        match endingOf ns, opening with
        | .absent, some span => .found span.stop
        | .absent, none => .absent
        | e, _ => e
/-- Looks for the end of the last node of a list that has one. -/
def endingOf : List Node → Ending
  | [] => .absent
  | n :: ns =>
    match endingOf ns with
    | .absent => ending n
    | e => e
end

/-- Where the element ends in the source. -/
def stop? (n : Node) : Option Nat :=
  match n.ending with
  | .found p => some p
  | _ => none

/-! ## Writing -/

mutual
/-- The text of the element. The accidental of a note stands before its letter. Blanks of the
source are not kept. -/
def write : Node → Text
  | mk l _ _ ns =>
    match l with
    | .note name => writeOnly true ns ++ name.text ++ writeOnly false ns
    | _ => l.head?.getD [] ++ writeFrom l none ns ++ l.tail?.getD []
/-- The texts of the accidentals of a list, or of all others. -/
def writeOnly (accidentals : Bool) : List Node → Text
  | [] => []
  | n :: ns =>
    (if n.label.isAccidental == accidentals then write n else []) ++ writeOnly accidentals ns
/-- The texts of children, after the child before them, with the separators of their parent. -/
def writeFrom (parent : Label) (before : Option Label) : List Node → Text
  | [] => []
  | n :: ns =>
    before.elim [] (fun b => parent.separator b n.label) ++ write n ++
      writeFrom parent (some n.label) ns
end

mutual
/-- Can the element be written? A bare node can not, nor what holds one. -/
def isWritable : Node → Bool
  | mk l _ _ ns => l != .bare && areWritable ns
/-- Can all nodes of a list be written? -/
def areWritable : List Node → Bool
  | [] => true
  | n :: ns => isWritable n && areWritable ns
end

/-! ## Description -/

/-- The number of children, in words. -/
def describeCount (n : Nat) : Text :=
  "(".text ++ Text.ofNat n ++ (if n = 1 then " child)".text else " children)".text)

/-- The element in a few words: its kind, its head cut to a few characters, the number of its
children and its place in the source. There are none when the place can not be told. -/
def describe? (n : Node) : Option Text :=
  let count := if n.children.isEmpty then [] else " ".text ++ describeCount n.children.length
  match n.label with
  | .bare => some ("<Node ".text ++ describeCount n.children.length ++ ">".text)
  | label => do
    let family := if label = .element then "element.".text else "abc.".text
    let head := label.ownText?.elim [] fun t => " ".text ++ Text.abridged Text.thirty t
    let place ← match n.start? with
      | none => some []
      | some p =>
        match n.ending with
        | .found q => some (" [".text ++ Text.ofNat p ++ ":".text ++ Text.ofNat q ++ "]".text)
        | .absent => some (" [".text ++ Text.ofNat p ++ ":None]".text)
        | .bare => none
    return "<".text ++ family ++ label.kind.name ++ head ++ count ++ place ++ ">".text

end Node

end SingAlong
