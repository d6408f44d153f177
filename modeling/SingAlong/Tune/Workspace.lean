import SingAlong.Tune.Node

/-!
# A workspace of trees

Trees are built and taken apart under names. A name stands for a place in a tree, so that what is
added at one place is seen from all places above it. An element can be reached from below only while
a name stands for it or for an element above it.
-/

namespace SingAlong

namespace Node

/-- The element at the end of a path of child indices. -/
def at? : List Nat → Node → Option Node
  | [], n => some n
  | i :: path, n => n.children[i]?.bind (at? path)

/-- Changes the element at the end of a path, if there is one. -/
def changeAt (f : Node → Node) : List Nat → Node → Node
  | [], n => f n
  | i :: path, mk l s t ns => mk l s t (ns.modify i (changeAt f path))

end Node

/-- A place in a tree of a workspace: the path from the root. -/
structure Place where
  tree : Nat
  path : List Nat
  deriving DecidableEq, Repr

/-- The trees of a workspace, and the places that names stand for. -/
structure Workspace where
  trees : List Node
  names : List (Text × Place)

namespace Workspace

/-- The empty workspace. -/
def empty : Workspace :=
  ⟨[], []⟩

/-- The place that a name stands for. -/
def place? (w : Workspace) (name : Text) : Option Place :=
  w.names.lookup name

/-- The element at a place. -/
def node? (w : Workspace) (p : Place) : Option Node :=
  w.trees[p.tree]?.bind (Node.at? p.path)

/-- The element that a name stands for. -/
def named? (w : Workspace) (name : Text) : Option Node :=
  (w.place? name).bind w.node?

/-- Lets a name stand for a place, and no longer for another one. -/
def bind (w : Workspace) (name : Text) (p : Place) : Workspace :=
  { w with names := (name, p) :: w.names.filter fun entry => entry.1 != name }

/-- Adds a tree, whose root gets a name. -/
def plant (w : Workspace) (name : Text) (n : Node) : Workspace :=
  { w with trees := w.trees ++ [n] }.bind name ⟨w.trees.length, []⟩

/-- The child index for an index that counts from the end when it is negative. -/
def childIndex? (n : Node) (i : Int) : Option Nat :=
  let count := n.children.length
  if 0 ≤ i then if i < count then some i.toNat else none
  else if -i ≤ count then some (count + i).toNat else none

/-- The place that is reached from another by a path of child indices. -/
def descend? (w : Workspace) (p : Place) : List Int → Option Place
  | [] => some p
  | i :: rest => do
    let index ← childIndex? (← w.node? p) i
    w.descend? { p with path := p.path ++ [index] } rest

/-- Adds a child at the end of the element at a place. -/
def append (w : Workspace) (p : Place) (n : Node) : Workspace :=
  { w with trees := w.trees.modify p.tree (Node.changeAt (·.append n) p.path) }

/-- Does a name stand for the place or for one above it? -/
def isHeld (w : Workspace) (p : Place) : Bool :=
  w.names.any fun (_, q) => q.tree == p.tree && q.path.isPrefixOf p.path

/-- The place of the parent. -/
def parent? (w : Workspace) (p : Place) : Option Place :=
  if p.path.isEmpty then none
  else
    let q := { p with path := p.path.dropLast }
    if w.isHeld q then some q else none

/-- Is the element at one place a child of the element at another? -/
def isChild (p q : Place) : Bool :=
  p.tree == q.tree && !p.path.isEmpty && p.path.dropLast == q.path

end Workspace

end SingAlong
