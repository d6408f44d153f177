import SingAlong.Proofs.Body

/-!
# The shape of a tree that is read

`Label.Holds` says what the children of an element can be: a line of music has elements and one end,
a chord has notes, a tuplet has as many members as its size tells, and so on. It is a condition on
labels alone, so the places of a tree do not matter, and it is checked on the trees of scores, one
lemma for each type of a score (`Score.shaped_node`). Since every tune that is read is a score up
to its places, every node of it is shaped in this way (`readTune_wellFormed`).
-/

namespace SingAlong

/-! ## Descendants -/

namespace Node

/-- The nodes of a list and all nodes below them come one node after the other. -/
theorem descendantsAll_eq_flatMap (ns : List Node) :
    descendantsAll ns = ns.flatMap fun n => n :: n.descendants := by
  induction ns with
  | nil => rfl
  | cons n ns ih => rw [descendantsAll, ih, List.flatMap_cons]

/-- The nodes of a list and all nodes below them. -/
theorem mem_descendantsAll {ns : List Node} {m : Node} :
    m ∈ descendantsAll ns ↔ ∃ n ∈ ns, m = n ∨ m ∈ n.descendants := by
  rw [descendantsAll_eq_flatMap, List.mem_flatMap]
  simp only [List.mem_cons]

mutual
/-- What is below a node that is below a tree is below the tree. -/
theorem descendants_trans {m k : Node} (hk : k ∈ m.descendants) : ∀ n : Node,
    m ∈ n.descendants → k ∈ n.descendants
  | mk _ _ _ ns, hm => descendantsAll_trans hk ns hm
/-- So it is for the trees of a list. -/
theorem descendantsAll_trans {m k : Node} (hk : k ∈ m.descendants) : ∀ ns : List Node,
    m ∈ descendantsAll ns → k ∈ descendantsAll ns
  | [], hm => absurd hm List.not_mem_nil
  | n :: ns, hm => by
    rw [descendantsAll, List.mem_append, List.mem_cons] at hm ⊢
    rcases hm with (rfl | hm) | hm
    · exact .inl (.inr hk)
    · exact .inl (.inr (descendants_trans hk n hm))
    · exact .inr (descendantsAll_trans hk ns hm)
end

/-- What is below an element is its children and what is below them. -/
theorem mem_descendants_unread {l : Label} {ns : List Node} {m : Node} :
    m ∈ (unread l ns).descendants ↔ ∃ n ∈ ns, m = n ∨ m ∈ n.descendants :=
  mem_descendantsAll

/-- The children of an element are below it. -/
theorem mem_descendants_of_mem {n m : Node} (h : m ∈ n.children) : m ∈ n.descendants := by
  obtain ⟨l, s, t, ns⟩ := n
  exact mem_descendantsAll.2 ⟨m, h, .inl rfl⟩

mutual
/-- What is below a tree without places is what is below the tree, without places. -/
theorem descendants_unplaced : ∀ n : Node, n.unplaced.descendants = n.descendants.map unplaced
  | mk l s t ns => by
    rw [unplaced, unread, descendants, descendants, descendantsAll_unplacedAll ns]
/-- So it is for the trees of a list. -/
theorem descendantsAll_unplacedAll :
    ∀ ns : List Node, descendantsAll (unplacedAll ns) = (descendantsAll ns).map unplaced
  | [] => rfl
  | n :: ns => by
    rw [unplacedAll, descendantsAll, descendantsAll, descendants_unplaced n,
      descendantsAll_unplacedAll ns, List.map_append, List.map_cons]
end

end Node

/-! ## What an element holds -/

/-- Is it an element of a line of music? -/
def Label.IsElement : Label → Prop
  | note _ | rest _ | chord | tuplet _ | bar _ => True
  | _ => False

/-- Is it a token of lyrics, other than the newline at the end of a line? -/
def Label.IsLyric : Label → Prop
  | lyric kind _ => kind ≠ .newline
  | _ => False

/-- The children that an element has, by their labels. A header has fields and comments, and at most
one key field, after all of them. A line of music has elements and an end, with at most a comment
between them. The elements that are not named here have no children. -/
def Label.Holds : Label → List Label → Prop
  | document, ls => ls = [header] ∨ ls = [header, body]
  | header, ls => ∃ (entries : List Label) (key : Option Text),
      ls = entries ++ (key.map keyField).toList ∧
        ∀ l ∈ entries, ∃ t, l = field t ∨ l = comment t
  | body, ls => ∀ l ∈ ls, l = line ∨ l = lyricLine ∨ ∃ t, l = comment t ∨ l = voiceField t
  | line, ls => ∃ (elements : List Label) (ending : Option Text) (newline : Text),
      ls = elements ++ (ending.map comment).toList ++ [endOfLine newline] ∧
        elements ≠ [] ∧ ∀ l ∈ elements, l.IsElement
  | lyricLine, ls => ∃ (tokens : List Label) (newline : Text),
      ls = tokens ++ [lyric .newline newline] ∧ ∀ l ∈ tokens, l.IsLyric
  | chord, ls => ls ≠ [] ∧ ∀ l ∈ ls, ∃ name, l = note name
  | tuplet size, ls => ls.length = size.count ∧ ∀ l ∈ ls, l = chord ∨ ∃ name, l = note name
  | note _, ls => ∃ (sign : Option Accidental) (marks : Option (List OctaveMark))
      (suffix : Option Text),
      ls = (sign.map accidental).toList ++ (marks.map octave).toList ++
        (suffix.map length).toList
  | rest _, ls => ∃ suffix : Option Text, ls = (suffix.map length).toList
  | _, ls => ls = []

namespace Node

/-- The element holds what its label says. -/
def Shaped (n : Node) : Prop :=
  n.label.Holds (n.children.map label)

/-- All elements of the tree hold what their labels say. -/
def AllShaped (n : Node) : Prop :=
  ∀ m ∈ n :: n.descendants, m.Shaped

/-- A document whose elements hold what their labels say, and that has a body only after a key
field. -/
structure WellFormed (document : Node) : Prop where
  label : document.label = .document
  shaped : document.AllShaped
  keyed : ∀ header body, document.children = [header, body] →
    ∃ key, header.children.getLast?.map Node.label = some (.keyField key)

/-- A tree below one whose elements hold what their labels say is such a tree. -/
theorem AllShaped.of_mem {n m : Node} (h : n.AllShaped) (hm : m ∈ n.descendants) : m.AllShaped := by
  refine List.forall_mem_cons.2 ⟨h m (List.mem_cons_of_mem n hm), fun k hk => ?_⟩
  exact h k (List.mem_cons_of_mem n (descendants_trans hk n hm))

/-- The places of an element do not matter. -/
theorem shaped_unplaced {n : Node} : n.unplaced.Shaped ↔ n.Shaped := by
  unfold Shaped
  have hlabels : label ∘ unplaced = label := funext label_unplaced
  rw [label_unplaced, children_unplaced, List.map_map, hlabels]

/-- The places of a tree do not matter. -/
theorem allShaped_unplaced {n : Node} : n.unplaced.AllShaped ↔ n.AllShaped := by
  unfold AllShaped
  rw [descendants_unplaced, ← List.map_cons, List.forall_mem_map]
  exact forall₂_congr fun m _ => shaped_unplaced

/-- A tree is shaped when its root holds what it says and the trees of its children are shaped. -/
theorem allShaped_unread {l : Label} {ns : List Node} (hl : l.Holds (ns.map label))
    (hns : ∀ n ∈ ns, n.AllShaped) : (unread l ns).AllShaped := by
  refine List.forall_mem_cons.2 ⟨hl, fun m hm => ?_⟩
  obtain ⟨n, hn, hmn⟩ := mem_descendants_unread.1 hm
  exact hns n hn m (List.mem_cons.2 hmn)

/-- An element without children is shaped when its label says that it has none. -/
theorem allShaped_leaf {l : Label} (hl : l.Holds []) : (leaf l).AllShaped :=
  allShaped_unread hl nofun

end Node

/-! ## The trees of scores -/

namespace Score

open Node (unread leaf allShaped_unread allShaped_leaf)

/-- The labels of the children that a suffix makes. -/
theorem Suffix.labels_nodes (s : Suffix) :
    ∃ length : Option Text, s.nodes.map Node.label = (length.map Label.length).toList := by
  unfold nodes
  split_ifs
  · exact ⟨.none, rfl⟩
  · exact ⟨.some s.text, rfl⟩

/-- What a suffix makes is shaped. -/
theorem Suffix.allShaped_nodes (s : Suffix) : ∀ n ∈ s.nodes, n.AllShaped := by
  unfold nodes
  split_ifs
  · exact nofun
  · exact List.forall_mem_singleton.2 (allShaped_leaf rfl)

/-- A rest is shaped. -/
theorem Suffix.allShaped_rest (s : Suffix) : s.rest.AllShaped :=
  allShaped_unread s.labels_nodes s.allShaped_nodes

/-- A note is shaped. -/
theorem Note.allShaped_node (n : Note) : n.node.AllShaped := by
  obtain ⟨suffix, hsuffix⟩ := n.suffix.labels_nodes
  refine allShaped_unread ⟨n.accidental, if n.octaves.isEmpty then none else some n.octaves, suffix,
    ?_⟩ ?_
  · unfold marks
    rw [List.map_append, List.map_append, hsuffix, List.append_assoc]
    congr 1
    · cases n.accidental <;> rfl
    · split_ifs <;> rfl
  · refine List.forall_mem_append.2 ⟨?_, List.forall_mem_append.2 ⟨?_, n.suffix.allShaped_nodes⟩⟩
    · intro m hm
      obtain ⟨a, -, rfl⟩ := Option.map_eq_some_iff.1 (Option.mem_toList.1 hm)
      exact allShaped_leaf rfl
    · split_ifs
      · exact nofun
      · exact List.forall_mem_singleton.2 (allShaped_leaf rfl)

/-- A chord is shaped. -/
theorem Chord.allShaped_node (c : Chord) : c.node.AllShaped := by
  refine allShaped_unread ⟨?_, ?_⟩ ?_
  · rw [Ne, List.map_eq_nil_iff, List.map_eq_nil_iff]
    exact c.nonempty
  · rw [List.map_map]
    exact List.forall_mem_map.2 fun n _ => ⟨n.name, rfl⟩
  · exact List.forall_mem_map.2 fun n _ => n.allShaped_node

/-- A member of a tuplet is shaped. -/
theorem Member.allShaped_node (m : Member) : m.node.AllShaped := by
  cases m with
  | note n => exact n.allShaped_node
  | chord c => exact c.allShaped_node

/-- A member of a tuplet is a note or a chord. -/
theorem Member.label_node (m : Member) :
    m.node.label = .chord ∨ ∃ name, m.node.label = .note name := by
  cases m with
  | note n => exact .inr ⟨n.name, rfl⟩
  | chord c => exact .inl rfl

/-- An element of a line is shaped. -/
theorem Element.allShaped_node (e : Element) : e.node.AllShaped := by
  cases e with
  | member m => exact m.allShaped_node
  | rest s => exact s.allShaped_rest
  | tuplet t =>
    refine allShaped_unread ⟨?_, ?_⟩ (List.forall_mem_map.2 fun m _ => m.allShaped_node)
    · rw [List.length_map, List.length_map, t.complete]
    · rw [List.map_map]
      exact List.forall_mem_map.2 fun m _ => m.label_node
  | bar b => exact allShaped_leaf rfl

/-- The label of an element of a line. -/
theorem Element.isElement_label (e : Element) : e.node.label.IsElement := by
  cases e with
  | member m => cases m <;> trivial
  | _ => trivial

/-- A comment is shaped. -/
theorem Comment.allShaped_node (c : Comment) : c.node.AllShaped :=
  allShaped_leaf rfl

/-- A line of music is shaped. -/
theorem Line.allShaped_node (l : Line) : l.node.AllShaped := by
  refine allShaped_unread ⟨l.elements.map fun e => e.node.label, l.comment.map Comment.text,
    Text.lineEnd, ?_, ?_, ?_⟩ ?_
  · rw [List.map_append, List.map_append, List.map_map]
    cases l.comment <;> rfl
  · rw [Ne, List.map_eq_nil_iff]
    exact l.nonempty
  · exact List.forall_mem_map.2 fun e _ => e.isElement_label
  · refine List.forall_mem_append.2 ⟨List.forall_mem_append.2 ⟨?_, ?_⟩, ?_⟩
    · exact List.forall_mem_map.2 fun e _ => e.allShaped_node
    · intro n hn
      obtain ⟨c, -, rfl⟩ := Option.map_eq_some_iff.1 (Option.mem_toList.1 hn)
      exact c.allShaped_node
    · exact List.forall_mem_singleton.2 (allShaped_leaf rfl)

/-- The tokens of a line of lyrics, without its newline, are leaves with tokens of lyrics. -/
theorem Lyrics.tokens_node (l : Lyrics) :
    ∀ n ∈ (lex .lyric l.text).filterMap lyricNode?, ∃ kind text,
      n = leaf (.lyric kind text) ∧ kind ≠ .newline := by
  intro n hn
  obtain ⟨e, he, hnode⟩ := List.mem_filterMap.1 hn
  obtain ⟨k, hk, rfl⟩ := List.mem_map.1 he
  obtain ⟨kind, text, hl, hkind, -⟩ := tokensFrom_lyric_kinds 0 l.inField k hk
  unfold lyricNode? Token.bare at hnode
  rw [hl] at hnode
  exact ⟨kind, text, (Option.some.inj hnode).symm, hkind⟩

/-- A line of lyrics is shaped. -/
theorem Lyrics.allShaped_node (l : Lyrics) : l.node.AllShaped := by
  refine allShaped_unread ⟨((lex .lyric l.text).filterMap lyricNode?).map Node.label,
    Text.lineEnd, ?_, ?_⟩ ?_
  · rw [List.map_append]
    rfl
  · refine List.forall_mem_map.2 fun n hn => ?_
    obtain ⟨kind, text, rfl, hkind⟩ := l.tokens_node n hn
    exact hkind
  · refine List.forall_mem_append.2 ⟨fun n hn => ?_, List.forall_mem_singleton.2 ?_⟩
    · obtain ⟨kind, text, rfl, -⟩ := l.tokens_node n hn
      exact allShaped_leaf rfl
    · exact allShaped_leaf rfl

/-- A part of the body is shaped. -/
theorem Part.allShaped_node (p : Part) : p.node.AllShaped := by
  cases p with
  | comment c => exact c.allShaped_node
  | voice v => exact allShaped_leaf rfl
  | line l => exact l.allShaped_node
  | lyrics l => exact l.allShaped_node

/-- The label of a part of the body. -/
theorem Part.label_node (p : Part) : p.node.label = .line ∨ p.node.label = .lyricLine ∨
    ∃ t, p.node.label = .comment t ∨ p.node.label = .voiceField t := by
  cases p with
  | comment c => exact .inr (.inr ⟨c.text, .inl rfl⟩)
  | voice v => exact .inr (.inr ⟨_, .inr rfl⟩)
  | line l => exact .inl rfl
  | lyrics l => exact .inr (.inl rfl)

/-- The body is shaped. -/
theorem allShaped_body (parts : List Part) :
    (unread .body (parts.map Part.node)).AllShaped := by
  refine allShaped_unread ?_ (List.forall_mem_map.2 fun p _ => p.allShaped_node)
  rw [List.map_map]
  exact List.forall_mem_map.2 fun p _ => p.label_node

/-- The header of a score. -/
def header (s : Score) : Node :=
  unread .header (s.entries.map Entry.node ++
    (s.key.map fun v => leaf (.keyField v.keyText)).toList)

/-- The header is shaped. -/
theorem allShaped_header (s : Score) : s.header.AllShaped := by
  refine allShaped_unread ⟨s.entries.map fun e => e.node.label, s.key.map Value.keyText, ?_, ?_⟩ ?_
  · rw [List.map_append, List.map_map]
    cases s.key <;> rfl
  · refine List.forall_mem_map.2 fun e _ => ?_
    cases e with
    | field f => exact ⟨f.text, .inl rfl⟩
    | comment c => exact ⟨c.text, .inr rfl⟩
  · refine List.forall_mem_append.2 ⟨List.forall_mem_map.2 fun e _ => ?_, fun n hn => ?_⟩
    · cases e with
      | field f => exact allShaped_leaf rfl
      | comment c => exact c.allShaped_node
    · obtain ⟨v, -, rfl⟩ := Option.map_eq_some_iff.1 (Option.mem_toList.1 hn)
      exact allShaped_leaf rfl

/-- The tree of a score is well formed. -/
theorem wellFormed_node (s : Score) : s.node.WellFormed where
  label := rfl
  shaped := by
    have hheader := s.allShaped_header
    refine allShaped_unread ?_ (List.forall_mem_cons.2 ⟨hheader, fun n hn => ?_⟩)
    · cases s.body with
      | none => exact .inl rfl
      | some parts => exact .inr rfl
    · obtain ⟨parts, -, rfl⟩ := Option.map_eq_some_iff.1 (Option.mem_toList.1 hn)
      exact allShaped_body parts
  keyed := by
    intro header body hchildren
    obtain ⟨rfl, hbody⟩ := List.cons.inj hchildren
    -- Without a key there is no body.
    cases hkey : s.key with
    | none =>
      rw [s.keyed hkey] at hbody
      cases hbody
    | some v =>
      refine ⟨v.keyText, ?_⟩
      exact congrArg (Option.map Node.label) List.getLast?_concat

end Score

/-! ## Trees that are read -/

/-- A tree is well formed when it is without its places. -/
theorem Node.WellFormed.of_unplaced {document : Node} (h : document.unplaced.WellFormed) :
    document.WellFormed where
  label := by
    rw [← document.label_unplaced]
    exact h.label
  shaped := allShaped_unplaced.1 h.shaped
  keyed := by
    intro header body hchildren
    have hunplaced : document.unplaced.children = [header.unplaced, body.unplaced] := by
      rw [document.children_unplaced, hchildren]
      rfl
    obtain ⟨key, hkey⟩ := h.keyed _ _ hunplaced
    refine ⟨key, ?_⟩
    rw [header.children_unplaced, List.getLast?_map, Option.map_map] at hkey
    rwa [show Node.label ∘ Node.unplaced = Node.label from funext Node.label_unplaced] at hkey

/-- Every element of a tree that is read holds what its label says. -/
theorem allShaped_of_readTune {source : Text} {document : Node}
    (h : readTune source = .ok document) : document.AllShaped := by
  obtain ⟨s, hs, -⟩ := readTune_score (L := fun _ => True) h fun _ _ _ => trivial
  rw [← Node.allShaped_unplaced, hs]
  exact s.wellFormed_node.shaped

/-- Every tree that is read is well formed: the document has a header and at most one body, which
comes after a key field, and every element below it has the children that its label says. -/
theorem readTune_wellFormed {source : Text} {document : Node}
    (h : readTune source = .ok document) : document.WellFormed := by
  obtain ⟨s, hs, -⟩ := readTune_score (L := fun _ => True) h fun _ _ _ => trivial
  refine .of_unplaced ?_
  rw [hs]
  exact s.wellFormed_node

/-- A tune with a chord, a tuplet, a rest, a comment at the end of a line, and lyrics that a voice
field follows. -/
def verse : Text :=
  "T:a %b\nK:G\n[C2E,2] (3ab[ce] ^F,/2 z4 :| %c\nw:la- la*_ %d\nV:1\nd".text

/-- The tree of a tune is well formed. -/
theorem readTune_wellFormed_verse :
    ∃ document, readTune verse = .ok document ∧ document.WellFormed := by
  have hread : (readTune verse).toOption.isSome := by decide +kernel
  cases h : readTune verse with
  | error e =>
    rw [h] at hread
    cases hread
  | ok document => exact ⟨document, rfl, readTune_wellFormed h⟩

end SingAlong
