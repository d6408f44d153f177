import SingAlong.Proofs.Acceptance
import SingAlong.Proofs.TreeShape

/-!
# Elements in the order of the source

An element of the music is read from tokens that stand in the source in the order in which it is
written: the accidental of a note before its letter, then the octave marks and the length, and the
members of a chord between its brackets. `Node.inOrder` lists the spans of an element in this order.
They are those of its own head and tail and of all elements below it (`Node.mem_inOrder`).

Putting notes and rests together neither drops nor moves a token, since what is read from items has
the spans of the items (`readDurables_traced`), and so it is for a chord (`readChord_traced`). The
spans of every element of the music of a tune are then spans of tokens, in their order
(`readTune_traced`). Whole lines are another matter: a voice field that is read within a line is put
before it.
-/

namespace SingAlong

/-- Is it an element of the music, or a part of one? -/
def Label.isMusical : Label → Bool
  | note _ | rest _ | chord | tuplet _ | bar _ | accidental _ | octave _ | length _ => true
  | _ => false

/-- A note or chord is no accidental. -/
theorem Label.isAccidental_of_isSung {l : Label} (h : l.isSung) : l.isAccidental = false := by
  cases l with
  | accidental => cases h
  | _ => rfl

/-! ## The spans of an element -/

namespace Node

/-- The spans of the head and of the tail of an element. -/
def ownSpans (n : Node) : List Span :=
  n.opening.toList ++ n.closing.toList

/-- The spans of an element and of all that is below it. -/
def spans (n : Node) : List Span :=
  (n :: n.descendants).flatMap ownSpans

mutual
/-- The spans of an element and of all that is below it, in the order in which it is written. -/
def inOrder : Node → List Span
  | mk _ opening closing ns =>
    inOrderOnly true ns ++ opening.toList ++ inOrderOnly false ns ++ closing.toList
/-- The spans of the accidentals of a list, or of all others. -/
def inOrderOnly (accidentals : Bool) : List Node → List Span
  | [] => []
  | n :: ns =>
    (if n.label.isAccidental == accidentals then inOrder n else []) ++ inOrderOnly accidentals ns
end

section

variable {S S' : List Span} {l : Label} {opening closing : Option Span} {n m : Node}
  {ns : List Node} {s : Span}

/-- The spans of some nodes of a list come one node after the other. -/
theorem inOrderOnly_eq (accidentals : Bool) (ns : List Node) : inOrderOnly accidentals ns =
    (ns.filter fun n => n.label.isAccidental == accidentals).flatMap inOrder := by
  induction ns with
  | nil => rfl
  | cons n ns ih =>
    rw [inOrderOnly, ih, List.filter_cons]
    split_ifs <;> rfl

/-- Without accidentals the head comes first. -/
theorem inOrder_mk (h : ∀ n ∈ ns, n.label.isAccidental = false) :
    (mk l opening closing ns).inOrder =
      opening.toList ++ ns.flatMap inOrder ++ closing.toList := by
  have hnone : ns.filter (fun n => n.label.isAccidental == true) = [] :=
    List.filter_eq_nil_iff.2 fun n hn => by simp [h n hn]
  have hall : ns.filter (fun n => n.label.isAccidental == false) = ns :=
    List.filter_eq_self.2 fun n hn => by simp [h n hn]
  rw [inOrder, inOrderOnly_eq, inOrderOnly_eq, hnone, hall]
  rfl

/-- The spans of a mark come after those of the note or rest that it is added to. -/
theorem inOrder_append (hn : n.closing = none) (hm : m.label.isAccidental = false) :
    (n.append m).inOrder = n.inOrder ++ m.inOrder := by
  obtain ⟨l, opening, closing, ns⟩ := n
  obtain rfl : closing = none := hn
  simp [append, inOrder, inOrderOnly_eq, hm]

mutual
/-- The spans in order are the spans of an element. -/
theorem mem_inOrder : ∀ n : Node, s ∈ n.inOrder ↔ s ∈ n.spans
  | mk l opening closing ns => by
    have hbelow := mem_inOrderAll ns
    rw [inOrder, spans, List.flatMap_cons, descendants, ownSpans]
    simp only [List.mem_append, ← hbelow]
    tauto
/-- So it is for the nodes of a list. -/
theorem mem_inOrderAll : ∀ ns : List Node,
    s ∈ inOrderOnly true ns ∨ s ∈ inOrderOnly false ns ↔ s ∈ (descendantsAll ns).flatMap ownSpans
  | [] => by simp [inOrderOnly, descendantsAll]
  | n :: ns => by
    have hfirst := mem_inOrder n
    have hrest := mem_inOrderAll ns
    rw [descendantsAll, List.flatMap_append, List.mem_append, ← hrest]
    change _ ↔ s ∈ n.spans ∨ _
    rw [← hfirst, inOrderOnly, inOrderOnly]
    cases n.label.isAccidental <;> simp [or_assoc, or_left_comm]
end

/-- The spans of a child are spans of the element, in their order. -/
theorem inOrder_sublist_of_mem (h : m ∈ ns) :
    m.inOrder.Sublist (mk l opening closing ns).inOrder := by
  have honly : m.inOrder.Sublist (inOrderOnly m.label.isAccidental ns) := by
    rw [inOrderOnly_eq, List.flatMap_def]
    exact List.sublist_flatten_of_mem
      (List.mem_map_of_mem (List.mem_filter.2 ⟨h, beq_self_eq_true _⟩))
  rw [inOrder]
  cases hm : m.label.isAccidental with
  | true =>
    rw [hm] at honly
    rw [List.append_assoc, List.append_assoc]
    exact honly.trans (List.sublist_append_left _ _)
  | false =>
    rw [hm] at honly
    exact (honly.trans (List.sublist_append_right _ _)).trans (List.sublist_append_left _ _)

/-! ## Elements that are traced to the source -/

/-- The element has the span of a head. It has that of a tail if it is a chord, and only then. -/
structure Spanned (n : Node) : Prop where
  opening : n.opening.isSome
  closing : n.closing.isSome ↔ n.label = .chord

/-- Every element of the music in the tree has its spans among the given ones, in their order. -/
def Traced (S : List Span) (n : Node) : Prop :=
  ∀ m ∈ n :: n.descendants, m.label.isMusical → m.Spanned ∧ m.inOrder.Sublist S

/-- More spans may be given. -/
theorem Traced.mono (h : n.Traced S) (hS : S.Sublist S') : n.Traced S' := by
  intro m hm hmusic
  obtain ⟨hspanned, hsub⟩ := h m hm hmusic
  exact ⟨hspanned, hsub.trans hS⟩

/-- A tree is traced when its root and the trees of its children are. -/
theorem traced_mk (hroot : l.isMusical → (mk l opening closing ns).Spanned ∧
      (mk l opening closing ns).inOrder.Sublist S) (hns : ∀ n ∈ ns, n.Traced S) :
    (mk l opening closing ns).Traced S := by
  refine List.forall_mem_cons.2 ⟨hroot, fun m hm => ?_⟩
  obtain ⟨n, hn, hmn⟩ := mem_descendantsAll.1 hm
  exact hns n hn m (List.mem_cons.2 hmn)

/-- An element whose children are traced to their own spans is traced to its own. -/
theorem traced_inOrder (hroot : (mk l opening closing ns).Spanned)
    (hns : ∀ n ∈ ns, n.Traced n.inOrder) :
    (mk l opening closing ns).Traced (mk l opening closing ns).inOrder :=
  traced_mk (fun _ => ⟨hroot, List.Sublist.refl _⟩) fun n hn =>
    (hns n hn).mono (inOrder_sublist_of_mem hn)

/-- A token that is read as an element is traced to its span. -/
theorem traced_token (t : Token) (hl : l ≠ .chord) : (t.node l).Traced [t.span] :=
  traced_inOrder ⟨rfl, iff_of_false nofun hl⟩ nofun

/-- An element that is no music, and holds none, is traced to nothing. -/
theorem traced_of_not_isMusical (hl : l.isMusical = false) (hns : ∀ n ∈ ns, n.Traced S) :
    (mk l opening closing ns).Traced S :=
  traced_mk (fun hmusic => absurd hmusic (by rw [hl]; nofun)) hns

/-- What is below a tree that is traced is traced. -/
theorem Traced.of_mem (h : n.Traced S) (hm : m ∈ n.descendants) : m.Traced S := by
  refine List.forall_mem_cons.2 ⟨h m (List.mem_cons_of_mem n hm), fun k hk => ?_⟩
  exact h k (List.mem_cons_of_mem n (descendants_trans hk n hm))

/-- A note or rest with one more mark is traced to its spans. -/
theorem Traced.append (hn : n.Traced n.inOrder) (hclosing : n.closing = none)
    (hm : m.Traced m.inOrder) (hlabel : m.label.isAccidental = false) :
    (n.append m).Traced (n.append m).inOrder := by
  have hsplit := inOrder_append hclosing hlabel
  obtain ⟨l, opening, closing, ns⟩ := n
  rw [append] at hsplit ⊢
  refine traced_mk (fun hmusic => ⟨?_, List.Sublist.refl _⟩) fun k hk => ?_
  · obtain ⟨⟨hopening, hclosing⟩, -⟩ := hn _ List.mem_cons_self hmusic
    exact ⟨hopening, hclosing⟩
  · rw [hsplit]
    rcases List.mem_append.1 hk with hk | hk
    · exact (hn.of_mem (mem_descendants_of_mem hk)).mono (List.sublist_append_left _ _)
    · rw [List.mem_singleton.1 hk]
      exact hm.mono (List.sublist_append_right _ _)

end

end Node

/-! ## Notes and rests -/

/-- The spans of an item. Those of a line of lyrics are left out. -/
def Item.spans : Item → List Span
  | token t => [t.span]
  | chord _ n => n.inOrder
  | lyrics _ => []

/-- A chord that is traced to its spans, or a token, or a line of lyrics, which holds no music. -/
def Item.Traced : Item → Prop
  | token _ => True
  | chord _ n => n.Traced n.inOrder
  | lyrics n => n.Traced []

namespace Piece

/-- The spans of a piece. -/
def spans : Piece → List Span
  | durable _ n => n.inOrder
  | item i => i.spans

/-- A note or rest that is traced to its spans, or such an item. -/
def Traced : Piece → Prop
  | durable _ n => n.Traced n.inOrder
  | item i => i.Traced

end Piece

namespace Pending

variable {p p' : Pending} {t : Token} {done : List Piece}

/-- The spans of what is pending. -/
def spans : Pending → List Span
  | nothing => []
  | accidental t _ => [t.span]
  | durable _ n _ _ => n.inOrder

/-- A pending note or rest is traced to its spans, and more spans can follow. -/
def Traced : Pending → Prop
  | durable _ n _ _ => n.Traced n.inOrder ∧ n.closing = none
  | _ => True

/-- Only an accidental needs a note. -/
theorem fault?_of_ne_accidental (h : ∀ u a, p ≠ accidental u a) : p.fault? = none := by
  cases p with
  | accidental u a => exact absurd rfl (h u a)
  | _ => rfl

/-- What is completed is traced to the spans of what is pending. -/
theorem complete_traced (hp : p.Traced) (hfault : p.fault? = none) :
    (∀ piece ∈ p.complete, piece.Traced) ∧ p.complete.flatMap Piece.spans = p.spans := by
  cases p with
  | nothing => exact ⟨nofun, rfl⟩
  | accidental => cases hfault
  | durable start n => exact ⟨List.forall_mem_singleton.2 hp.1, List.append_nil _⟩

/-- A token adds its span to that of a pending note or rest. -/
theorem append_traced {start : Nat} {n : Node} {octaveDue lengthDue octaveDue' lengthDue' : Bool}
    {l : Label} (hp : (durable start n octaveDue lengthDue).Traced) (hl : l ≠ .chord)
    (hlabel : l.isAccidental = false) :
    (durable start (n.append (t.node l)) octaveDue' lengthDue').Traced ∧
      (n.append (t.node l)).inOrder = n.inOrder ++ [t.span] := by
  obtain ⟨htraced, hclosing⟩ := hp
  refine ⟨⟨htraced.append hclosing (Node.traced_token t hl) hlabel, ?_⟩,
    Node.inOrder_append hclosing hlabel⟩
  obtain ⟨_, _, _, _⟩ := n
  exact hclosing

/-- A token that is part of a note or rest has its span in what is completed or pending. -/
theorem take_traced (hp : p.Traced) (h : p.take t = (done, .ok p')) :
    p'.Traced ∧ (∀ piece ∈ done, piece.Traced) ∧
      done.flatMap Piece.spans ++ p'.spans = p.spans ++ [t.span] := by
  unfold take at h
  split at h
  all_goals cases h
  -- An accidental, a letter or a rest comes after what it completes, which is no lone accidental.
  case h_2 hlone =>
    obtain ⟨hdone, hspans⟩ := complete_traced hp (fault?_of_ne_accidental hlone)
    exact ⟨trivial, hdone, congrArg (· ++ [t.span]) hspans⟩
  case h_4 name _ hlone =>
    obtain ⟨hdone, hspans⟩ := complete_traced hp (fault?_of_ne_accidental hlone)
    exact ⟨⟨Node.traced_token t nofun, rfl⟩, hdone, congrArg (· ++ [t.span]) hspans⟩
  case h_6 _ hlone =>
    obtain ⟨hdone, hspans⟩ := complete_traced hp (fault?_of_ne_accidental hlone)
    exact ⟨⟨Node.traced_token t nofun, rfl⟩, hdone, congrArg (· ++ [t.span]) hspans⟩
  -- A letter goes on with its accidental, and octave marks and a length with what has begun.
  case h_3 u a _ =>
    refine ⟨⟨Node.traced_inOrder ⟨rfl, iff_of_false nofun nofun⟩ ?_, rfl⟩, nofun, rfl⟩
    exact List.forall_mem_singleton.2 (Node.traced_token u nofun)
  case h_7 marks _ _ _ _ =>
    obtain ⟨htraced, hspans⟩ := append_traced (l := .octave marks) hp nofun rfl
    exact ⟨htraced, nofun, hspans⟩
  case h_8 text _ _ _ _ =>
    obtain ⟨htraced, hspans⟩ := append_traced (l := .length text) hp nofun rfl
    exact ⟨htraced, nofun, hspans⟩

end Pending

/-- What is put together is traced to its spans, which are those of the items. -/
theorem readDurables_traced {p : Pending} {items : List Item} (hp : p.Traced)
    (hi : ∀ i ∈ items, i.Traced) (h : (readDurables p items).fault = none) :
    (∀ piece ∈ (readDurables p items).pieces, piece.Traced) ∧
      (readDurables p items).pieces.flatMap Piece.spans = p.spans ++ items.flatMap Item.spans := by
  induction items generalizing p with
  | nil =>
    rw [List.flatMap_nil, List.append_nil]
    exact Pending.complete_traced hp h
  | cons i rest ih =>
    obtain ⟨hitem, hrest⟩ := List.forall_mem_cons.1 hi
    by_cases hm : i.isMusic
    · obtain ⟨t, rfl⟩ := Item.exists_token hm
      cases htake : p.take t with
      | mk done result =>
        cases result with
        | error e =>
          rw [readDurables_unexpected hm htake] at h
          cases h
        | ok p' =>
          rw [readDurables_music hm htake] at h ⊢
          obtain ⟨htraced', hdone, hspans⟩ := Pending.take_traced hp htake
          obtain ⟨hpieces, hrests⟩ := ih htraced' hrest h
          refine ⟨List.forall_mem_append.2 ⟨hdone, hpieces⟩, ?_⟩
          rw [List.flatMap_append, hrests, ← List.append_assoc, hspans, List.append_assoc]
          rfl
    · rw [Bool.not_eq_true] at hm
      cases hfault : p.fault? with
      | some e =>
        rw [readDurables_lone hm hfault] at h
        cases h
      | none =>
        rw [readDurables_item hm hfault] at h ⊢
        obtain ⟨hdone, hspans⟩ := Pending.complete_traced hp hfault
        obtain ⟨hpieces, hrests⟩ := ih (p := .nothing) trivial hrest h
        refine ⟨List.forall_mem_append.2 ⟨hdone, List.forall_mem_cons.2 ⟨hitem, hpieces⟩⟩, ?_⟩
        rw [List.flatMap_append, hspans, List.flatMap_cons, hrests]
        rfl

/-! ## Chords and groups -/

/-- The notes of a chord are traced to their spans, which are those of its pieces. -/
theorem chordNotes_traced {opening : Token} {pieces : List Piece} {notes : List Node}
    (hpieces : ∀ piece ∈ pieces, piece.Traced) (h : chordNotes opening pieces = .ok notes) :
    (∀ n ∈ notes, n.Traced n.inOrder ∧ n.label.isAccidental = false) ∧
      notes.flatMap Node.inOrder = pieces.flatMap Piece.spans := by
  have hnotes := forall₂_chordNotes h
  clear h
  induction hnotes with
  | nil => exact ⟨nofun, rfl⟩
  | @cons piece n _ _ hpiece _ ih =>
    obtain ⟨htraced, hrest⟩ := List.forall_mem_cons.1 hpieces
    obtain ⟨start, name, rfl, hl⟩ := hpiece
    obtain ⟨hnotes, hspans⟩ := ih hrest
    have hlabel : n.label.isAccidental = false := by rw [hl]; rfl
    refine ⟨List.forall_mem_cons.2 ⟨⟨htraced, hlabel⟩, hnotes⟩, ?_⟩
    rw [List.flatMap_cons, hspans]
    rfl

/-- A chord is traced to its spans, which are those of its tokens. -/
theorem readChord_traced {opening : Token} {inside : List Token} {n : Node}
    (h : readChord opening inside = .ok n) :
    n.Traced n.inOrder ∧ n.inOrder = opening.span :: inside.map Token.span := by
  obtain ⟨ts, closing, notes, rfl, -, hfault, hnotes, -, rfl⟩ := exists_of_readChord h
  have hitems : ∀ i ∈ ts.map Item.token, i.Traced := List.forall_mem_map.2 fun _ _ => trivial
  obtain ⟨hpieces, hspans⟩ := readDurables_traced (p := .nothing) trivial hitems hfault
  obtain ⟨htraced, hnoteSpans⟩ := chordNotes_traced hpieces hnotes
  have htokens : (ts.map Item.token).flatMap Item.spans = ts.map Token.span := by
    rw [List.flatMap_map, ← List.flatMap_singleton' (ts.map Token.span), List.flatMap_map]
    rfl
  refine ⟨Node.traced_inOrder ⟨rfl, iff_of_true rfl rfl⟩ fun n hn => (htraced n hn).1, ?_⟩
  rw [Node.inOrder_mk fun n hn => (htraced n hn).2, hnoteSpans, hspans, htokens, List.map_append]
  rfl

/-- A line of lyrics holds no music. -/
theorem readLyrics_traced (opening : Token) (inside : List Token) :
    (readLyrics opening inside).Traced [] := by
  have hread : ∀ n ∈ inside.filterMap lyricNode?, n.Traced [] := by
    intro n hn
    obtain ⟨t, -, hnode⟩ := List.mem_filterMap.1 hn
    unfold lyricNode? at hnode
    split at hnode
    all_goals
      cases hnode
      try exact Node.traced_of_not_isMusical rfl nofun
  refine Node.traced_of_not_isMusical rfl ?_
  split_ifs
  · exact hread
  · refine List.forall_mem_append.2 ⟨hread, List.forall_mem_singleton.2 ?_⟩
    exact Node.traced_of_not_isMusical rfl nofun

namespace Group

/-- The spans of a group. Those of a line of lyrics are left out. -/
def spans : Group → List Span
  | single t => [t.span]
  | chord opening inside => opening.span :: inside.map Token.span
  | lyrics _ _ => []

/-- The item of a group is traced to the spans of the group. -/
theorem read_traced {g : Group} {i : Item} (h : g.read = .ok i) : i.Traced ∧ i.spans = g.spans := by
  cases g with
  | single t =>
    cases h
    exact ⟨trivial, rfl⟩
  | chord opening inside =>
    obtain ⟨n, hn, h⟩ := bind_eq_ok.1 h
    cases h
    exact readChord_traced hn
  | lyrics opening inside =>
    cases h
    exact ⟨readLyrics_traced opening inside, rfl⟩

/-- The items are traced to the spans of their groups. -/
theorem mapM_traced {groups : List Group} {items : List Item}
    (h : groups.mapM Group.read = .ok items) :
    (∀ i ∈ items, i.Traced) ∧ items.flatMap Item.spans = groups.flatMap Group.spans := by
  have hread := mapM_eq_ok.1 h
  clear h
  induction hread with
  | nil => exact ⟨nofun, rfl⟩
  | cons hi _ ih =>
    obtain ⟨hfirst, hspans⟩ := read_traced hi
    obtain ⟨hitems, hrest⟩ := ih
    refine ⟨List.forall_mem_cons.2 ⟨hfirst, hitems⟩, ?_⟩
    rw [List.flatMap_cons, List.flatMap_cons, hspans, hrest]

end Group

/-- The groups have the spans of the tokens that they are made of, in their order. -/
theorem groupFrom_spans (ts : List Token) :
    ((groupFrom ts).1.map Token.span ++ (groupFrom ts).2.flatMap Group.spans).Sublist
      (ts.map Token.span) := by
  induction ts with
  | nil => exact List.Sublist.refl []
  | cons k rest ih =>
    rcases groupFrom_cons k rest with ⟨-, heq⟩ | ⟨-, heq⟩ | ⟨-, heq⟩ | ⟨-, -, heq⟩
    · rw [heq]
      exact ih.cons_cons k.span
    · rw [heq]
      exact ((List.sublist_append_right _ _).trans ih).cons k.span
    · rw [heq]
      exact ih.cons_cons k.span
    · rw [heq]
      exact ((List.sublist_append_right _ _).trans ih).cons_cons k.span

/-! ## The body -/

/-- The spans of a tuplet that has been begun. -/
def OpenTuplet.spans (t : OpenTuplet) : List Span :=
  t.mark.span :: t.members.flatMap Node.inOrder

namespace Draft

/-- The spans that are read but belong to no element yet, those of a tuplet that has been begun. -/
def openSpans (d : Draft) : List Span :=
  d.tuplet.elim [] OpenTuplet.spans

/-- The body as far as it is read is traced to the spans `S` of the source. Those of the tuplet that
has been begun come before the ones that are not yet read, the `rest`. -/
structure Traced (S rest : List Span) (d : Draft) : Prop where
  nodes : ∀ n ∈ d.nodes, n.Traced S
  line : ∀ n ∈ d.line, n.Traced S
  members : ∀ t ∈ d.tuplet, ∀ n ∈ t.members, n.Traced n.inOrder ∧ n.label.isSung
  due : (d.openSpans ++ rest).Sublist S

namespace Traced

variable {S read rest : List Span} {d d' : Draft} {n : Node}

/-- Spans are read. -/
theorem skip (h : d.Traced S (read ++ rest)) : d.Traced S rest := by
  refine ⟨h.nodes, h.line, h.members, List.Sublist.trans ?_ h.due⟩
  exact (List.sublist_append_right read rest).append_left d.openSpans

/-- What is traced to the spans that are read is traced to those of the source. -/
theorem mono (h : d.Traced S (read ++ rest)) (hn : n.Traced read) : n.Traced S := by
  refine hn.mono (List.Sublist.trans ?_ h.due)
  exact (List.sublist_append_left read rest).trans (List.sublist_append_right _ _)

/-- A node joins those that are complete. -/
theorem addNode (h : d.Traced S rest) (hn : n.Traced S) :
    Traced S rest { d with nodes := d.nodes ++ [n] } :=
  ⟨List.forall_mem_append.2 ⟨h.nodes, List.forall_mem_singleton.2 hn⟩, h.line, h.members, h.due⟩

/-- An element joins the current line. -/
theorem addElement (h : d.Traced S rest) (hn : n.Traced S) :
    Traced S rest { d with line := d.line ++ [n] } :=
  ⟨h.nodes, List.forall_mem_append.2 ⟨h.line, List.forall_mem_singleton.2 hn⟩, h.members, h.due⟩

/-- A line ends. -/
theorem endLine (h : d.Traced S rest) {ending : Node} (hending : ending.Traced S) :
    (d.endLine ending).Traced S rest := by
  unfold Draft.endLine
  split_ifs
  · exact h
  · refine ⟨List.forall_mem_append.2 ⟨h.nodes, List.forall_mem_singleton.2 ?_⟩, nofun, h.members,
      h.due⟩
    refine Node.traced_of_not_isMusical rfl ?_
    exact List.forall_mem_append.2 ⟨h.line, List.forall_mem_singleton.2 hending⟩

/-- A note, rest or chord joins the current line or the tuplet that has been begun. -/
theorem add {start : Nat} (h : d.Traced S (n.inOrder ++ rest)) (hn : n.Traced n.inOrder)
    (hadd : d.add start n = .ok d') : d'.Traced S rest := by
  unfold Draft.add at hadd
  split at hadd
  next =>
    cases hadd
    exact h.skip.addElement (h.mono hn)
  next t ht =>
    split_ifs at hadd with hsung
    have hmembers : ∀ m ∈ t.members ++ [n], m.Traced m.inOrder ∧ m.label.isSung :=
      List.forall_mem_append.2 ⟨h.members t ht, List.forall_mem_singleton.2 ⟨hn, hsung⟩⟩
    -- The spans of the new member follow those of the tuplet so far.
    have hdue : (t.mark.span :: (t.members ++ [n]).flatMap Node.inOrder ++ rest).Sublist S := by
      have hdue := h.due
      rw [openSpans, ht] at hdue
      simpa [OpenTuplet.spans] using hdue
    dsimp only at hadd
    split_ifs at hadd
    · cases hadd
      have htraced :
          (Node.mk (.tuplet t.size) (some t.mark.span) none (t.members ++ [n])).Traced _ :=
        Node.traced_inOrder ⟨rfl, iff_of_false nofun nofun⟩ fun m hm => (hmembers m hm).1
      rw [Node.inOrder_mk fun m hm => Label.isAccidental_of_isSung (hmembers m hm).2,
        Option.toList_none, List.append_nil] at htraced
      refine ⟨h.nodes, ?_, nofun, (List.sublist_append_right _ _).trans hdue⟩
      refine List.forall_mem_append.2 ⟨h.line, List.forall_mem_singleton.2 ?_⟩
      exact htraced.mono ((List.sublist_append_left _ _).trans hdue)
    · cases hadd
      refine ⟨h.nodes, h.line, ?_, hdue⟩
      rintro _ ⟨⟩
      exact hmembers

/-- A token of the body is added. -/
theorem addToken {t : Token} (h : d.Traced S ([t.span] ++ rest)) (hadd : d.addToken t = .ok d') :
    d'.Traced S rest := by
  have hnode {l : Label} (hl : l ≠ .chord) : (t.node l).Traced S :=
    h.mono (Node.traced_token t hl)
  unfold Draft.addToken at hadd
  split at hadd
  next =>
    obtain ⟨_, -, hadd⟩ := bind_eq_ok.1 hadd
    cases hadd
    exact h.skip.endLine (hnode nofun)
  next =>
    obtain ⟨_, -, hadd⟩ := bind_eq_ok.1 hadd
    cases hadd
    exact h.skip.addElement (hnode nofun)
  next size _ =>
    split at hadd
    next => cases hadd
    next hnone =>
      cases hadd
      refine ⟨h.nodes, h.line, ?_, ?_⟩
      · rintro _ ⟨⟩
        exact nofun
      · have hdue := h.due
        rwa [openSpans, hnone] at hdue
  next =>
    cases hadd
    exact h.skip.addNode (hnode nofun)
  next =>
    dsimp only at hadd
    split_ifs at hadd
    · cases hadd
      exact h.skip.addNode (hnode nofun)
    · cases hadd
      exact h.skip.addElement (hnode nofun)
  next => cases hadd

/-- A piece is added. -/
theorem addPiece {piece : Piece} (h : d.Traced S (piece.spans ++ rest)) (hpiece : piece.Traced)
    (hadd : d.addPiece piece = .ok d') : d'.Traced S rest := by
  match piece with
  | .durable start n => exact h.add hpiece hadd
  | .item (.chord start n) => exact h.add hpiece hadd
  | .item (.token t) => exact h.addToken hadd
  | .item (.lyrics n) =>
    cases hadd
    exact h.skip.addNode (h.mono hpiece)

/-- All pieces are added, one after the other. -/
theorem foldlM {pieces : List Piece} (h : d.Traced S (pieces.flatMap Piece.spans))
    (hpieces : ∀ piece ∈ pieces, piece.Traced) (hadd : pieces.foldlM Draft.addPiece d = .ok d') :
    d'.Traced S [] := by
  induction pieces generalizing d with
  | nil =>
    cases hadd
    exact h
  | cons piece rest ih =>
    rw [List.foldlM_cons] at hadd
    obtain ⟨d₁, hfirst, hadd⟩ := bind_eq_ok.1 hadd
    obtain ⟨hpiece, hrest⟩ := List.forall_mem_cons.1 hpieces
    exact ih (h.addPiece hpiece hfirst) hrest hadd

end Traced

end Draft

/-- The music of a body that is read is traced to the spans of its items. -/
theorem readBody_traced {items : List Item} {n : Node} (hi : ∀ i ∈ items, i.Traced)
    (h : readBody items = .ok n) : n.Traced (items.flatMap Item.spans) := by
  obtain ⟨d, hd, h⟩ := bind_eq_ok.1 h
  split at h
  next => cases h
  next hfault =>
    obtain ⟨_, -, h⟩ := bind_eq_ok.1 h
    cases h
    obtain ⟨hpieces, hspans⟩ := readDurables_traced (p := .nothing) trivial hi hfault
    have hempty : Draft.empty.Traced (items.flatMap Item.spans)
        ((readDurables .nothing items).pieces.flatMap Piece.spans) :=
      ⟨nofun, nofun, nofun, by rw [hspans]; exact List.Sublist.refl _⟩
    refine Node.traced_of_not_isMusical rfl ((hempty.foldlM hpieces hd).endLine ?_).nodes
    exact Node.traced_of_not_isMusical rfl nofun

/-- An element of the header is no music. -/
theorem headerNode_traced {S : List Span} {t : Token} {n : Node} (h : headerNode t = .ok n) :
    n.Traced S := by
  unfold headerNode at h
  split at h
  all_goals
    cases h
    try exact Node.traced_of_not_isMusical rfl nofun

/-- The music of a tune that is read is traced to the tokens of the source: every element has the
span of its head and, if it is a chord, of its tail, and its spans and those of the elements below
it are spans of tokens, in their order. -/
theorem readTune_traced {source : Text} {document : Node} (h : readTune source = .ok document) :
    document.Traced ((tokens source).map Token.span) := by
  obtain ⟨header, ts, ht, hfront, hts⟩ := exists_isBody source
  obtain ⟨items, bodies, fields, hitems, hbodies, hfields, rfl⟩ :=
    (readTune_eq_ok ht (fun k hk => (hfront k hk).2) hts.region).1 h
  obtain ⟨htraced, hspans⟩ := Group.mapM_traced hitems
  have hsub : (items.flatMap Item.spans).Sublist ((tokens source).map Token.span) := by
    rw [hspans, ht, List.map_append]
    exact ((List.sublist_append_right _ _).trans (groupFrom_spans ts)).trans
      (List.sublist_append_right _ _)
  refine Node.traced_of_not_isMusical rfl (List.forall_mem_cons.2 ⟨?_, fun n hn => ?_⟩)
  · refine Node.traced_of_not_isMusical rfl fun n hn => ?_
    obtain ⟨t, -, hnode⟩ := exists_of_mem_mapM hfields n hn
    exact headerNode_traced hnode
  · split_ifs at hbodies
    · cases hbodies
      cases hn
    · obtain ⟨body, hread, hbodies⟩ := bind_eq_ok.1 hbodies
      cases hbodies
      rw [List.mem_singleton.1 hn]
      exact (readBody_traced htraced hread).mono hsub

end SingAlong
