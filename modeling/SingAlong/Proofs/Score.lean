import SingAlong.Proofs.Lines
import SingAlong.Tune.Node

/-!
# Scores

A score is what the text of a tune says, without the places and blanks of a source. Its types carry
what every tune that is read satisfies: a chord has notes, a tuplet is complete, a line of music has
elements, and the texts of fields, comments and lengths are texts that a source can have there.

`Score.node` is the tree of a score, and `Score.text` the text that this tree is written as
(`Score.write_node`). `Score.lexemes` are the lexemes of a score, which its text is made of, apart
from the separators. Reading and writing are compared through these three.
-/

namespace SingAlong

/-! ## Trees without places -/

namespace Node

mutual
/-- The tree without its places in a source. -/
def unplaced : Node → Node
  | mk l _ _ ns => unread l (unplacedAll ns)
/-- The trees of a list without their places in a source. -/
def unplacedAll : List Node → List Node
  | [] => []
  | n :: ns => unplaced n :: unplacedAll ns
end

/-- A list loses its places one by one. -/
theorem unplacedAll_eq_map (ns : List Node) : unplacedAll ns = ns.map unplaced := by
  induction ns with
  | nil => rfl
  | cons n ns ih => rw [unplacedAll, ih, List.map_cons]

/-- Only the places of an element are lost. -/
theorem unplaced_mk (l : Label) (s t : Option Span) (ns : List Node) :
    (mk l s t ns).unplaced = unread l (ns.map unplaced) := by
  rw [unplaced, unplacedAll_eq_map]

/-- An element that was not read loses the places of its children. -/
theorem unplaced_unread (l : Label) (ns : List Node) :
    (unread l ns).unplaced = unread l (ns.map unplaced) :=
  unplaced_mk l none none ns

/-- The label stays. -/
theorem label_unplaced (n : Node) : n.unplaced.label = n.label := by
  obtain ⟨l, s, t, ns⟩ := n
  rfl

/-- The children stay, without places. -/
theorem children_unplaced (n : Node) : n.unplaced.children = n.children.map unplaced := by
  obtain ⟨l, s, t, ns⟩ := n
  rw [unplaced_mk]
  rfl

mutual
/-- A tree without places has none to lose. -/
theorem unplaced_unplaced : ∀ n : Node, n.unplaced.unplaced = n.unplaced
  | mk l s t ns => by rw [unplaced, unread, unplaced, unplacedAll_unplacedAll ns, unread]
/-- Trees without places have none to lose. -/
theorem unplacedAll_unplacedAll : ∀ ns : List Node,
    unplacedAll (unplacedAll ns) = unplacedAll ns
  | [] => rfl
  | n :: ns => by rw [unplacedAll, unplacedAll, unplaced_unplaced n, unplacedAll_unplacedAll ns]
end

mutual
/-- Trees are equal when they are the same without their places. -/
theorem same_iff : ∀ a b : Node, a.same b = true ↔ a.unplaced = b.unplaced
  | mk l s t ns, mk m u v ms => by
    rw [same, Bool.and_eq_true, beq_iff_eq, sameAll_iff ns ms, unplaced, unplaced, unread, unread,
      Node.mk.injEq]
    simp
/-- Lists of trees are equal when they are the same without their places. -/
theorem sameAll_iff : ∀ as bs : List Node, sameAll as bs = true ↔ unplacedAll as = unplacedAll bs
  | [], [] => by simp [sameAll, unplacedAll]
  | [], _ :: _ => by simp [sameAll, unplacedAll]
  | _ :: _, [] => by simp [sameAll, unplacedAll]
  | a :: as, b :: bs => by
    rw [sameAll, Bool.and_eq_true, same_iff a b, sameAll_iff as bs, unplacedAll, unplacedAll,
      List.cons.injEq]
end

mutual
/-- Places are not written. -/
theorem write_unplaced : ∀ n : Node, n.unplaced.write = n.write
  | mk l s t ns => by
    have hfrom := writeFrom_unplacedAll ns l none
    have honly (b : Bool) := writeOnly_unplacedAll ns b
    unfold unplaced unread write
    rw [hfrom, honly, honly]
/-- Places are not written between the children of an element. -/
theorem writeFrom_unplacedAll : ∀ (ns : List Node) (parent : Label) (before : Option Label),
    writeFrom parent before (unplacedAll ns) = writeFrom parent before ns
  | [], _, _ => rfl
  | n :: ns, parent, before => by
    rw [unplacedAll, writeFrom, writeFrom, write_unplaced n, label_unplaced,
      writeFrom_unplacedAll ns]
/-- Places are not written around the letter of a note. -/
theorem writeOnly_unplacedAll : ∀ (ns : List Node) (b : Bool),
    writeOnly b (unplacedAll ns) = writeOnly b ns
  | [], _ => rfl
  | n :: ns, b => by
    rw [unplacedAll, writeOnly, writeOnly, write_unplaced n, label_unplaced,
      writeOnly_unplacedAll ns]
end

/-- An element without children that was not read from a source. -/
def leaf (l : Label) : Node :=
  unread l []

end Node

/-! ## What a score is made of -/

namespace Score

/-- The length suffix of a note or rest, empty when there is none. -/
structure Suffix where
  text : Text
  isLength : text = [] ∨ IsLength text

/-- A note, with what is written before and after its letter. -/
structure Note where
  accidental : Option Accidental
  name : NoteName
  octaves : List OctaveMark
  suffix : Suffix

/-- Notes that sound together. -/
structure Chord where
  notes : List Note
  nonempty : notes ≠ []

/-- What can be in a tuplet. -/
inductive Member where
  | note (n : Note)
  | chord (c : Chord)

/-- A tuplet with all its members. -/
structure Tuplet where
  size : TupletSize
  members : List Member
  complete : members.length = size.count

/-- An element of a line of music. -/
inductive Element where
  | member (m : Member)
  | rest (s : Suffix)
  | tuplet (t : Tuplet)
  | bar (b : Bar)

/-- A comment, by its text after the mark. -/
structure Comment where
  rest : Text
  inLine : rest.all Text.inLine

/-- The value of a field, as it is written after the colon. -/
structure Value where
  text : Text
  inField : text.all Rule.inField
  trimmed : Text.trimEnd text = text

/-- A line of music, which a comment can stand at the end of. -/
structure Line where
  elements : List Element
  nonempty : elements ≠ []
  comment : Option Comment

/-- A line of lyrics, by its text. -/
structure Lyrics where
  text : Text
  inField : text.all Rule.inField

/-- A part of the body. -/
inductive Part where
  | comment (c : Comment)
  | voice (v : Value)
  | line (l : Line)
  | lyrics (l : Lyrics)

/-- A field of the header, apart from the key field. -/
structure HeaderField where
  letter : CodePoint
  isPlain : isPlainLetter letter
  notKey : letter ≠ 'K'
  value : Value

/-- An entry of the header before the key field. -/
inductive Entry where
  | field (f : HeaderField)
  | comment (c : Comment)

end Score

/-- A tune as its text says it: the header, the key that ends it, and the body after the key. -/
structure Score where
  entries : List Score.Entry
  key : Option Score.Value
  body : Option (List Score.Part)
  keyed : key = none → body = none

namespace Score

/-! ## The tree -/

open Node (unread leaf)

/-- The children that a suffix makes. -/
def Suffix.nodes (s : Suffix) : List Node :=
  if s.text.isEmpty then [] else [leaf (.length s.text)]

/-- The children of a note after its accidental. -/
def Note.marks (n : Note) : List Node :=
  (if n.octaves.isEmpty then [] else [leaf (.octave n.octaves)]) ++ n.suffix.nodes

/-- The tree of a note. -/
def Note.node (n : Note) : Node :=
  unread (.note n.name) ((n.accidental.map fun a => leaf (.accidental a)).toList ++ n.marks)

/-- The tree of a chord. -/
def Chord.node (c : Chord) : Node :=
  unread .chord (c.notes.map Note.node)

/-- The tree of a member of a tuplet. -/
def Member.node : Member → Node
  | note n => n.node
  | chord c => c.node

/-- The tree of a rest with a length suffix. -/
def Suffix.rest (s : Suffix) : Node :=
  unread (.rest ['z']) s.nodes

/-- The tree of an element of a line. -/
def Element.node : Element → Node
  | member m => m.node
  | rest s => s.rest
  | tuplet t => unread (.tuplet t.size) (t.members.map Member.node)
  | bar b => leaf (.bar b)

/-- The text of a comment. -/
def Comment.text (c : Comment) : Text :=
  Text.commented c.rest

/-- The tree of a comment. -/
def Comment.node (c : Comment) : Node :=
  leaf (.comment c.text)

/-- The tree of a line of music. -/
def Line.node (l : Line) : Node :=
  unread .line (l.elements.map Element.node ++ (l.comment.map Comment.node).toList ++
    [leaf (.endOfLine Text.lineEnd)])

/-- The token of the lyrics that a lexeme is. -/
def lyricNode? (e : Lexeme × Region) : Option Node :=
  match e.1 with
  | .lyric kind text => some (leaf (.lyric kind text))
  | _ => none

/-- The tree of a line of lyrics, which always ends with a newline. -/
def Lyrics.node (l : Lyrics) : Node :=
  unread .lyricLine ((lex .lyric l.text).filterMap lyricNode? ++
    [leaf (.lyric .newline Text.lineEnd)])

/-- The tree of a part of the body. -/
def Part.node : Part → Node
  | comment c => c.node
  | voice v => leaf (.voiceField (Field.written 'V' v.text))
  | line l => l.node
  | lyrics l => l.node

/-- The text of a field of the header. -/
def HeaderField.text (f : HeaderField) : Text :=
  Field.written f.letter f.value.text

/-- The tree of an entry of the header. -/
def Entry.node : Entry → Node
  | field f => leaf (.field f.text)
  | comment c => c.node

/-- The text of the key field. -/
def Value.keyText (v : Value) : Text :=
  Field.written 'K' v.text

/-- The tree of a score. -/
def node (s : Score) : Node :=
  unread .document
    (unread .header (s.entries.map Entry.node ++
        (s.key.map fun v => leaf (.keyField v.keyText)).toList) ::
      (s.body.map fun parts => unread .body (parts.map Part.node)).toList)

/-! ## The text -/

/-- The text between the elements of a line. -/
def space : Text :=
  [' ']

/-- Texts with a separator between them. -/
def joined (separator : Text) : List Text → Text
  | [] => []
  | t :: ts => t ++ ts.flatMap fun u => separator ++ u

/-- The text of a note. -/
def Note.text (n : Note) : Text :=
  (n.accidental.map Accidental.text).getD [] ++ n.name.text ++ n.octaves.map OctaveMark.char ++
    n.suffix.text

/-- The text of a chord. -/
def Chord.text (c : Chord) : Text :=
  Lexeme.chordStart.text ++ c.notes.flatMap Note.text ++ Lexeme.chordEnd.text

/-- The text of a member of a tuplet. -/
def Member.text : Member → Text
  | note n => n.text
  | chord c => c.text

/-- The text of an element of a line. -/
def Element.text : Element → Text
  | member m => m.text
  | rest s => Lexeme.rest.text ++ s.text
  | tuplet t => t.size.text ++ t.members.flatMap Member.text
  | bar b => b.text

/-- The text of a line of music: its elements, and the comment at its end, with spaces between
them. -/
def Line.text (l : Line) : Text :=
  joined space (l.elements.map Element.text ++ (l.comment.map Comment.text).toList) ++ Text.lineEnd

/-- The text of a part of the body. -/
def Part.text : Part → Text
  | comment c => c.text
  | voice v => Field.written 'V' v.text
  | line l => l.text
  | lyrics l => Lexeme.lyricStart.text ++ l.text ++ Text.lineEnd

/-- What separates a part of the body from the next one. Lines end with a newline of their own. -/
def Part.gap : Part → Text
  | line _ | lyrics _ => []
  | comment _ | voice _ => Text.lineEnd

/-- The text of the body. -/
def bodyText : List Part → Text
  | [] => []
  | [p] => p.text
  | p :: q :: parts => p.text ++ p.gap ++ bodyText (q :: parts)

/-- The text of an entry of the header. -/
def Entry.text : Entry → Text
  | field f => f.text
  | comment c => c.text

/-- The text of a score. -/
def text (s : Score) : Text :=
  joined Text.lineEnd (s.entries.map Entry.text ++ (s.key.map Value.keyText).toList) ++
    s.body.elim [] fun parts => Text.lineEnd ++ bodyText parts

/-! ## The tree is written as the text -/

section Write

open Node (write writeFrom writeOnly)

/-- Children without separators are written one after the other. -/
theorem writeFrom_plain {parent : Label} (h : ∀ b a, parent.separator b a = [])
    (before : Option Label) (ns : List Node) : writeFrom parent before ns = ns.flatMap write := by
  induction ns generalizing before with
  | nil => rfl
  | cons n ns ih =>
    rw [writeFrom, ih, List.flatMap_cons]
    cases before with
    | none => rfl
    | some b => rw [Option.elim_some, h, List.nil_append]

/-- Children with the same separator everywhere are joined by it. -/
theorem writeFrom_joined {parent : Label} {separator : Text}
    (h : ∀ b a, parent.separator b a = separator) (ns : List Node) :
    writeFrom parent none ns = joined separator (ns.map write) := by
  cases ns with
  | nil => rfl
  | cons n ns =>
    have hrest (b : Label) : writeFrom parent (some b) ns =
        (ns.map write).flatMap fun u => separator ++ u := by
      induction ns generalizing b with
      | nil => rfl
      | cons n ns ih => rw [writeFrom, Option.elim_some, h, ih]; rfl
    rw [writeFrom, hrest]
    rfl

/-- The accidentals of a list of children, or all others, are written one after the other. -/
theorem writeOnly_eq (b : Bool) (ns : List Node) :
    writeOnly b ns = (ns.filter fun n => n.label.isAccidental == b).flatMap write := by
  induction ns with
  | nil => rfl
  | cons n ns ih =>
    rw [writeOnly, ih, List.filter_cons]
    split_ifs with h
    · rfl
    · rfl

/-- A leaf is written as its text. -/
theorem write_leaf {l : Label} {t : Text} (h : l.ownText? = some t) : (leaf l).write = t := by
  unfold leaf unread write
  cases l with
  | note name =>
    cases h
    exact List.append_nil _
  | _ =>
    first
    | cases h; done
    | simp_all [Label.head?, Label.tail?, Label.ownText?, writeFrom]

/-- A suffix is written as its text. -/
theorem Suffix.write_nodes (s : Suffix) : s.nodes.flatMap write = s.text := by
  unfold nodes
  cases h : s.text with
  | nil => rfl
  | cons c t =>
    rw [List.isEmpty_cons, if_neg Bool.false_ne_true, List.flatMap_singleton, write_leaf rfl]

/-- No mark after the letter is an accidental. -/
theorem Note.marks_not_accidental (n : Note) : ∀ m ∈ n.marks, m.label.isAccidental = false := by
  intro m hm
  unfold marks Suffix.nodes at hm
  rcases List.mem_append.1 hm with hm | hm
  all_goals
    split_ifs at hm
    · cases hm
    · obtain rfl := List.mem_singleton.1 hm
      rfl

/-- The marks after the letter are written as their texts. -/
theorem Note.write_marks (n : Note) :
    n.marks.flatMap write = n.octaves.map OctaveMark.char ++ n.suffix.text := by
  unfold marks
  rw [List.flatMap_append, Suffix.write_nodes]
  congr 1
  cases n.octaves with
  | nil => rfl
  | cons m ms =>
    rw [List.isEmpty_cons, if_neg Bool.false_ne_true, List.flatMap_singleton, write_leaf rfl]

/-- A note is written as its text. -/
theorem Note.write_node (n : Note) : n.node.write = n.text := by
  -- The accidental is the only child that is written before the letter.
  have hmarks (b : Bool) : n.marks.filter (fun m => m.label.isAccidental == b) =
      if b then [] else n.marks := by
    cases b with
    | false => exact List.filter_eq_self.2 fun m hm => by rw [n.marks_not_accidental m hm]; rfl
    | true =>
      exact List.filter_eq_nil_iff.2 fun m hm => by rw [n.marks_not_accidental m hm]; decide
  unfold node unread write text
  rw [writeOnly_eq, writeOnly_eq, List.filter_append, List.filter_append, hmarks, hmarks]
  cases n.accidental with
  | none => simp [n.write_marks]
  | some a =>
    have ha : (leaf (.accidental a)).label.isAccidental = true := rfl
    have hw : (leaf (.accidental a)).write = a.text := write_leaf rfl
    simp [ha, hw, n.write_marks]

section Children

variable {α β : Type} {node : α → Node} {text : α → Text}

/-- Children that are written as their texts are written as these texts one after the other. -/
theorem flatMap_write (h : ∀ a, (node a).write = text a) (as : List α) :
    (as.map node).flatMap write = as.flatMap text := by
  rw [List.flatMap_map]
  exact congrArg (List.flatMap · as) (funext h)

/-- Children, and one more that can be missing, are written as their texts. -/
theorem map_write (h : ∀ a, (node a).write = text a) {node' : β → Node} {text' : β → Text}
    (h' : ∀ b, (node' b).write = text' b) (as : List α) (last : Option β) :
    (as.map node ++ (last.map node').toList).map write =
      as.map text ++ (last.map text').toList := by
  rw [List.map_append, List.map_map]
  congr 1
  · exact List.map_congr_left fun a _ => h a
  · cases last with
    | none => rfl
    | some b => exact congrArg (fun t => [t]) (h' b)

end Children

/-- A chord is written as its text. -/
theorem Chord.write_node (c : Chord) : c.node.write = c.text := by
  unfold node unread write text
  rw [writeFrom_plain fun _ _ => rfl, flatMap_write Note.write_node]
  rfl

/-- A member of a tuplet is written as its text. -/
theorem Member.write_node (m : Member) : m.node.write = m.text := by
  cases m with
  | note n => exact n.write_node
  | chord c => exact c.write_node

/-- An element of a line is written as its text. -/
theorem Element.write_node (e : Element) : e.node.write = e.text := by
  cases e with
  | member m => exact m.write_node
  | rest s =>
    unfold node Suffix.rest unread write
    rw [writeFrom_plain fun _ _ => rfl, s.write_nodes]
    exact List.append_nil _
  | tuplet t =>
    unfold node unread write
    rw [writeFrom_plain fun _ _ => rfl, flatMap_write Member.write_node]
    exact List.append_nil _
  | bar b => exact write_leaf rfl

/-- The end of a line stands after its last element without a separator. -/
theorem writeFrom_line (before : Label) (ns : List Node)
    (h : ∀ n ∈ ns, ∀ t, n.label ≠ .endOfLine t) :
    writeFrom .line (some before) (ns ++ [leaf (.endOfLine Text.lineEnd)]) =
      (ns.map write).flatMap (fun u => space ++ u) ++ Text.lineEnd := by
  induction ns generalizing before with
  | nil => rfl
  | cons n ns ih =>
    have hsep : Label.line.separator before n.label = space := by
      have hn := h n List.mem_cons_self
      cases hl : n.label with
      | endOfLine t => exact absurd hl (hn t)
      | _ => rfl
    rw [List.cons_append, writeFrom, Option.elim_some, hsep,
      ih n.label fun m hm => h m (List.mem_cons_of_mem n hm), List.map_cons, List.flatMap_cons,
      List.append_assoc, List.append_assoc, List.append_assoc]

/-- A comment is written as its text. -/
theorem Comment.write_node (c : Comment) : c.node.write = c.text :=
  write_leaf rfl

/-- No element of a line is the end of the line. -/
theorem Element.label_ne_endOfLine (e : Element) (t : Text) : e.node.label ≠ .endOfLine t := by
  cases e with
  | member m => cases m <;> exact nofun
  | _ => exact nofun

/-- A line of music is written as its text. -/
theorem Line.write_node (l : Line) : l.node.write = l.text := by
  obtain ⟨e, es, he⟩ := List.exists_cons_of_ne_nil l.nonempty
  have hlabels : ∀ n ∈ es.map Element.node ++ (l.comment.map Comment.node).toList,
      ∀ t, n.label ≠ .endOfLine t := by
    intro n hn
    rcases List.mem_append.1 hn with hn | hn
    · obtain ⟨e, -, rfl⟩ := List.mem_map.1 hn
      exact e.label_ne_endOfLine
    · obtain ⟨c, -, rfl⟩ := Option.map_eq_some_iff.1 (Option.mem_toList.1 hn)
      exact nofun
  have htexts := map_write Element.write_node Comment.write_node es l.comment
  unfold node unread write text
  rw [he, List.map_cons, List.map_cons, List.cons_append, List.cons_append, List.cons_append]
  dsimp only [joined]
  rw [writeFrom, writeFrom_line _ _ hlabels, htexts, e.write_node]
  simp [Label.head?, Label.tail?, Label.ownText?]

/-- A line of lyrics with plain blanks is written as its text. -/
theorem Lyrics.write_node (l : Lyrics) (h : l.text.PlainBlanks) :
    l.node.write = Lexeme.lyricStart.text ++ l.text ++ Text.lineEnd := by
  -- The tokens of the text make it up, since no blanks of it are passed over.
  have htokens : ((lex .lyric l.text).filterMap lyricNode?).flatMap write = l.text := by
    conv_rhs => rw [← tokensFrom_lyric_text 0 l.inField h]
    unfold lex
    rw [List.filterMap_map]
    have hkinds := tokensFrom_lyric_kinds 0 l.inField
    generalize tokensFrom .lyric 0 0 l.text = ks at hkinds
    induction ks with
    | nil => rfl
    | cons k ks ih =>
      obtain ⟨kind, text, hk, -, -⟩ := hkinds k List.mem_cons_self
      have hnode : (lyricNode? ∘ Token.bare) k = some (leaf (.lyric kind text)) := by
        rw [Function.comp_apply, Token.bare, hk]
        rfl
      rw [List.filterMap_cons_some hnode, List.flatMap_cons, List.flatMap_cons,
        ih fun k' hk' => hkinds k' (List.mem_cons_of_mem k hk'), write_leaf rfl]
      unfold Token.text
      rw [hk]
      rfl
  unfold node unread write
  rw [writeFrom_plain fun _ _ => rfl, List.flatMap_append, htokens]
  simp [Label.head?, Label.tail?, Label.ownText?, leaf, unread, write, writeFrom, Lexeme.text]

/-- The lyrics of a part have plain blanks. -/
def Part.PlainLyrics (p : Part) : Prop :=
  ∀ l, p = .lyrics l → l.text.PlainBlanks

/-- A part of the body is written as its text. -/
theorem Part.write_node (p : Part) (h : p.PlainLyrics) : p.node.write = p.text := by
  cases p with
  | comment c => exact c.write_node
  | voice v => exact write_leaf rfl
  | line l => exact l.write_node
  | lyrics l => exact l.write_node (h l rfl)

/-- The separator of two parts of the body depends on the first one. -/
theorem Part.separator_body (p q : Part) :
    Label.body.separator p.node.label q.node.label = p.gap := by
  cases p <;> rfl

/-- The parts of the body are written as its text. -/
theorem writeFrom_body (parts : List Part) (h : ∀ p ∈ parts, p.PlainLyrics) :
    writeFrom .body none (parts.map Part.node) = bodyText parts := by
  cases parts with
  | nil => rfl
  | cons p parts =>
    rw [List.map_cons, writeFrom, Option.elim_none, List.nil_append]
    -- The first part has no separator before it; after each part comes its gap.
    induction parts generalizing p with
    | nil =>
      rw [List.map_nil, writeFrom, List.append_nil, p.write_node (h p List.mem_cons_self)]
      rfl
    | cons q parts ih =>
      rw [List.map_cons, writeFrom, Option.elim_some, p.separator_body,
        p.write_node (h p List.mem_cons_self), List.append_assoc,
        ih q fun r hr => h r (List.mem_cons_of_mem p hr)]
      exact (List.append_assoc ..).symm

/-- An entry of the header is written as its text. -/
theorem Entry.write_node (e : Entry) : e.node.write = e.text := by
  cases e with
  | field f => exact write_leaf rfl
  | comment c => exact c.write_node

/-- A score is written as its text. -/
theorem write_node (s : Score) (h : ∀ parts ∈ s.body, ∀ p ∈ parts, p.PlainLyrics) :
    s.node.write = s.text := by
  have hkey (v : Value) : (leaf (.keyField v.keyText)).write = v.keyText := write_leaf rfl
  have hentries := map_write Entry.write_node hkey s.entries s.key
  unfold node text
  generalize s.entries.map Entry.node ++ (s.key.map fun v => leaf (.keyField v.keyText)).toList =
    ns at hentries
  -- The header and the document are written alike, each child on a line.
  have hlines {l : Label} (hl : l = .header ∨ l = .document) (ns : List Node) :
      (unread l ns).write = joined Text.lineEnd (ns.map write) := by
    rcases hl with rfl | rfl
    all_goals
      unfold unread write
      rw [writeFrom_joined fun _ _ => rfl]
      exact List.append_nil _
  rw [hlines (.inr rfl), List.map_cons, hlines (.inl rfl), hentries]
  cases hbody : s.body with
  | none => rfl
  | some parts =>
    have hparts : (unread .body (parts.map Part.node)).write = bodyText parts := by
      unfold unread write
      rw [← writeFrom_body parts (h parts hbody)]
      exact List.append_nil _
    unfold joined
    simp [hparts]

end Write

/-! ## The lexemes -/

/-- What a body is put together from: notes, rests, chords, lines of lyrics and single tokens. -/
inductive Atom where
  | note (n : Note)
  | rest (s : Suffix)
  | chord (c : Chord)
  | bar (b : Bar)
  | tuplet (size : TupletSize)
  | newline
  | comment (c : Comment)
  | voice (v : Value)
  | lyrics (l : Lyrics)

/-- The lexemes of a suffix. -/
def Suffix.lexemes (s : Suffix) : List Lexeme :=
  if s.text.isEmpty then [] else [.length s.text]

/-- The lexemes of a sequence of octave marks. -/
def octaveLexemes (marks : List OctaveMark) : List Lexeme :=
  if marks.isEmpty then [] else [.octave marks]

/-- The lexemes of a note. -/
def Note.lexemes (n : Note) : List Lexeme :=
  (n.accidental.map Lexeme.accidental).toList ++
    .note n.name :: (octaveLexemes n.octaves ++ n.suffix.lexemes)

/-- The lexemes of an atom, each with its region. -/
def Atom.lexemes : Atom → List (Lexeme × Region)
  | note n => n.lexemes.map (·, .body)
  | rest s => (.rest, .body) :: s.lexemes.map (·, .body)
  | chord c => (.chordStart, .chord) :: (c.notes.flatMap Note.lexemes).map (·, .chord) ++
      [(.chordEnd, .chord)]
  | bar b => [(.bar b, .body)]
  | tuplet size => [(.tuplet size, .body)]
  | newline => [(.newline, .body)]
  | comment c => [(.comment c.text, .body)]
  | voice v => [(.voiceField (Field.written 'V' v.text), .body)]
  | lyrics l => (.lyricStart, .lyric) :: lex .lyric l.text ++ [(.newline, .lyric)]

/-- The atom of a member of a tuplet. -/
def Member.atom : Member → Atom
  | note n => .note n
  | chord c => .chord c

/-- The atoms of an element of a line. -/
def Element.atoms : Element → List Atom
  | member m => [m.atom]
  | rest s => [.rest s]
  | tuplet t => .tuplet t.size :: t.members.map Member.atom
  | bar b => [.bar b]

/-- The atoms of a part of the body. -/
def Part.atoms : Part → List Atom
  | comment c => [.comment c]
  | voice v => [.voice v]
  | line l => l.elements.flatMap Element.atoms ++ (l.comment.map Atom.comment).toList ++ [.newline]
  | lyrics l => [.lyrics l]

/-- The atoms between a part of the body and the next one. -/
def Part.gapAtoms : Part → List Atom
  | line _ | lyrics _ => []
  | comment _ | voice _ => [.newline]

/-- The atoms of the body. -/
def bodyAtoms : List Part → List Atom
  | [] => []
  | [p] => p.atoms
  | p :: q :: parts => p.atoms ++ p.gapAtoms ++ bodyAtoms (q :: parts)

/-- The lexeme of an entry of the header. -/
def Entry.lexeme : Entry → Lexeme
  | field f => .field f.text
  | comment c => .comment c.text

/-- The lexemes of a score. The key field takes the newline before a body. -/
def lexemes (s : Score) : List (Lexeme × Region) :=
  s.entries.map (fun e => (e.lexeme, .header)) ++
    (s.key.map fun v =>
      (.keyField (v.keyText ++ s.body.elim [] fun _ => Text.lineEnd), .header)).toList ++
    s.body.elim [] fun parts => (bodyAtoms parts).flatMap Atom.lexemes

end Score

end SingAlong
