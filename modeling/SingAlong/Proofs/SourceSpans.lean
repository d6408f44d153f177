import SingAlong.Proofs.SourceOrder
import SingAlong.Proofs.Voices

/-!
# The span of an element

Where an element of the music starts and ends in its source. It starts at the first of its spans in
the order of the source (`Node.Charted.start?_eq_head?`), and it ends with the last one
(`Node.Charted.endsLast`), but for a note that is an accidental and a letter and nothing more. The
letter is the head of such a note and the accidental its only child, so the end of the accidental is
found first and is taken for that of the note. The same holds of a tuplet whose last member is such
a note (`Node.Charted.stop?_of_endsAltered`). Since tokens stand one after the other, the first span
has the smallest start and the last one the largest end (`readTune_spans`).
-/

namespace SingAlong

/-! ## Spans that stand one after the other -/

/-- The spans are not empty and stand one after the other. -/
structure InSequence (ss : List Span) : Prop where
  nonempty : ∀ s ∈ ss, s.start < s.stop
  ordered : ss.Pairwise fun a b => a.stop ≤ b.start

namespace InSequence

variable {ss ts : List Span} {s : Span}

/-- Some of the spans also stand one after the other. -/
theorem sublist (h : InSequence ts) (hss : ss.Sublist ts) : InSequence ss :=
  ⟨fun s hs => h.nonempty s (hss.subset hs), h.ordered.sublist hss⟩

/-- The first span has the smallest start. -/
theorem min?_start (h : InSequence ss) (hfirst : ss.head? = some s) (hts : ∀ x, x ∈ ss ↔ x ∈ ts) :
    (ts.map Span.start).min? = some s.start := by
  obtain ⟨rest, rfl⟩ := List.head?_eq_some_iff.1 hfirst
  refine List.min?_eq_some_iff.2 ⟨?_, List.forall_mem_map.2 fun x hx => ?_⟩
  · exact List.mem_map_of_mem ((hts s).1 List.mem_cons_self)
  · rcases List.mem_cons.1 ((hts x).2 hx) with rfl | hx
    · exact le_refl x.start
    · have hle := (List.pairwise_cons.1 h.ordered).1 x hx
      exact (h.nonempty s List.mem_cons_self).le.trans hle

/-- The last span has the largest end. -/
theorem max?_stop (h : InSequence ss) (hlast : ss.getLast? = some s) (hts : ∀ x, x ∈ ss ↔ x ∈ ts) :
    (ts.map Span.stop).max? = some s.stop := by
  obtain ⟨before, rfl⟩ := List.getLast?_eq_some_iff.1 hlast
  have hs : s ∈ before ++ [s] := List.mem_append_right _ List.mem_cons_self
  refine List.max?_eq_some_iff.2 ⟨?_, List.forall_mem_map.2 fun x hx => ?_⟩
  · exact List.mem_map_of_mem ((hts s).1 hs)
  · rcases List.mem_append.1 ((hts x).2 hx) with hx | hx
    · have hle := (List.pairwise_append.1 h.ordered).2.2 x hx s List.mem_cons_self
      exact hle.trans (h.nonempty s hs).le
    · rw [List.mem_singleton.1 hx]

end InSequence

/-- The spans of tokens stand one after the other. -/
theorem inSequence_tokens (source : Text) : InSequence ((tokens source).map Token.span) := by
  have hplaced := tokens_placed source
  refine ⟨List.forall_mem_map.2 fun k hk => (hplaced.within k hk).2.1, ?_⟩
  exact List.pairwise_map.2 hplaced.ordered

/-! ## What the music holds -/

namespace Label

/-- Is it a bar or a mark of a note? -/
def isAtomic : Label → Bool
  | bar _ | accidental _ | octave _ | length _ => true
  | _ => false

/-- Is it an element that has members? -/
def isGroup : Label → Bool
  | chord | tuplet _ => true
  | _ => false

variable {l k : Label} {ls : List Label}

/-- Music is no bare node. -/
theorem ne_bare (hl : l.isMusical) : l ≠ .bare := by
  rintro rfl
  cases hl

/-- A bar and a mark of a note are music, and no chord. -/
theorem isMusical_of_isAtomic (h : l.isAtomic) : l.isMusical ∧ l ≠ .chord := by
  cases l with
  | bar | accidental | octave | length => exact ⟨rfl, nofun⟩
  | _ => cases h

/-- A note and a chord are music, and no tuplet. -/
theorem isMusical_of_isSung (h : l.isSung) : l.isMusical ∧ ∀ size, l ≠ .tuplet size := by
  cases l with
  | note | chord => exact ⟨rfl, fun _ => nofun⟩
  | _ => cases h

/-- An accidental is a mark of a note. -/
theorem isAtomic_of_isAccidental (h : l.isAccidental) : l.isAtomic := by
  cases l with
  | accidental => rfl
  | _ => cases h

namespace Holds

/-- A bar and a mark of a note hold nothing. -/
theorem eq_nil (h : l.Holds ls) (hl : l.isAtomic) : ls = [] := by
  cases l with
  | bar | accidental | octave | length => exact h
  | _ => cases hl

/-- The members of a chord or a tuplet are notes and chords. -/
theorem isSung (h : l.Holds ls) (hl : l.isGroup) (hk : k ∈ ls) : k.isSung := by
  cases l with
  | chord =>
    obtain ⟨name, rfl⟩ := h.2 k hk
    rfl
  | tuplet size =>
    obtain rfl | ⟨name, rfl⟩ := h.2 k hk
    all_goals rfl
  | _ => cases hl

/-- Other music holds marks of notes, and only a note has an accidental. -/
theorem isAtomic (h : l.Holds ls) (hmusic : l.isMusical) (hl : l.isGroup = false) (hk : k ∈ ls) :
    k.isAtomic ∧ (k.isAccidental → ∃ name, l = .note name) := by
  cases l with
  | note name =>
    obtain ⟨sign, marks, suffix, rfl⟩ := h
    refine ⟨?_, fun _ => ⟨name, rfl⟩⟩
    simp only [List.mem_append, Option.mem_toList, Option.map_eq_some_iff] at hk
    obtain (⟨_, -, rfl⟩ | ⟨_, -, rfl⟩) | ⟨_, -, rfl⟩ := hk
    all_goals rfl
  | rest text =>
    obtain ⟨suffix, rfl⟩ := h
    obtain ⟨t, -, rfl⟩ := Option.map_eq_some_iff.1 (Option.mem_toList.1 hk)
    refine ⟨rfl, fun hacc => ?_⟩
    cases hacc
  | bar | accidental | octave | length =>
    rw [h.eq_nil rfl] at hk
    cases hk
  | chord | tuplet => cases hl
  | _ => cases hmusic

/-- Music holds music. -/
theorem isMusical (h : l.Holds ls) (hmusic : l.isMusical) (hk : k ∈ ls) : k.isMusical := by
  cases hl : l.isGroup with
  | false => exact (isMusical_of_isAtomic (h.isAtomic hmusic hl hk).1).1
  | true => exact (isMusical_of_isSung (h.isSung hl hk)).1

/-- Only a note has an accidental. -/
theorem exists_note (h : l.Holds ls) (hmusic : l.isMusical) (hk : k ∈ ls)
    (hacc : k.isAccidental) : ∃ name, l = .note name := by
  cases hl : l.isGroup with
  | false => exact (h.isAtomic hmusic hl hk).2 hacc
  | true =>
    rw [isAccidental_of_isSung (h.isSung hl hk)] at hacc
    cases hacc

/-- Octave marks and a length come after the accidental of a note, so if this is the last mark it is
the only one. -/
theorem eq_nil_of_accidental {name : NoteName} (h : (note name).Holds (ls ++ [k]))
    (hacc : k.isAccidental) : ls = [] := by
  obtain ⟨sign, marks, suffix, hls⟩ := h
  have hlast := congrArg List.getLast? hls
  rw [List.getLast?_concat] at hlast
  cases suffix with
  | some t =>
    rw [Option.map_some, Option.toList_some, List.getLast?_concat] at hlast
    cases hlast
    cases hacc
  | none =>
    rw [Option.map_none, Option.toList_none, List.append_nil] at hlast hls
    cases marks with
    | some t =>
      rw [Option.map_some, Option.toList_some, List.getLast?_concat] at hlast
      cases hlast
      cases hacc
    | none =>
      have hlength := congrArg List.length hls
      cases sign <;> simp at hlength
      exact hlength

end Holds

end Label

/-! ## The first and the last span of an element -/

namespace Node

/-- Is the last child an accidental? -/
def endsInAccidental (n : Node) : Bool :=
  n.children.getLast?.any fun m => m.label.isAccidental

/-- Is it a note that is an accidental and a letter and nothing more, or a tuplet whose last member
is such a note? -/
def endsAltered (n : Node) : Bool :=
  match n.label with
  | .note _ => n.endsInAccidental
  | .tuplet _ => n.children.getLast?.any endsInAccidental
  | _ => false

/-- It is an element of the music. The elements of its tree hold what their labels say and are
traced to the given spans. -/
structure Charted (S : List Span) (n : Node) : Prop where
  music : n.label.isMusical
  shape : n.AllShaped
  traced : n.Traced S

/-- The element ends with the last of its spans. -/
def EndsLast (n : Node) : Prop :=
  ∃ s, n.inOrder.getLast? = some s ∧ n.stop? = some s.stop

section

variable {S : List Span} {l : Label} {n m : Node} {ns : List Node} {s : Span} {p : Nat}

/-- The label of a node that is added is among those of the children. -/
theorem label_mem_append (n m : Node) : m.label ∈ (n.append m).children.map label := by
  obtain ⟨_, _, _, ns⟩ := n
  exact List.mem_map_of_mem (List.mem_append_right ns List.mem_cons_self)

/-- An element holds what its label says. -/
theorem Charted.holds (h : n.Charted S) : n.label.Holds (n.children.map label) :=
  h.shape n List.mem_cons_self

/-- The children of an element of the music are such elements. -/
theorem Charted.of_mem (h : n.Charted S) (hm : m ∈ n.children) : m.Charted S where
  music := h.holds.isMusical h.music (List.mem_map_of_mem hm)
  shape := h.shape.of_mem (mem_descendants_of_mem hm)
  traced := h.traced.of_mem (mem_descendants_of_mem hm)

/-- An element that is no chord is its head, or it has no tail and a last child. -/
theorem Charted.eq_leaf_or_append (h : n.Charted S) (hl : n.label ≠ .chord) :
    (∃ l s, n = Node.mk l (some s) none []) ∨
      ∃ l s ns m, n = (Node.mk l (some s) none ns).append m ∧ m.Charted S := by
  obtain ⟨⟨hopening, hclosing⟩, -⟩ := h.traced n List.mem_cons_self h.music
  obtain ⟨s, hs⟩ := Option.isSome_iff_exists.1 hopening
  have hnone : n.closing = none := by
    rw [← Option.not_isSome_iff_eq_none]
    exact fun h => hl (hclosing.1 h)
  obtain ⟨l, opening, closing, ns⟩ := n
  obtain rfl : opening = some s := hs
  obtain rfl : closing = none := hnone
  rcases ns.eq_nil_or_concat' with rfl | ⟨ns, m, rfl⟩
  · exact .inl ⟨l, s, rfl⟩
  · exact .inr ⟨l, s, ns, m, rfl, h.of_mem (List.mem_append_right ns List.mem_cons_self)⟩

/-- A bar and a mark of a note are their heads. -/
theorem Charted.exists_leaf (h : n.Charted S) (hl : n.label.isAtomic) :
    ∃ l s, n = Node.mk l (some s) none [] := by
  have hnone := List.map_eq_nil_iff.1 (h.holds.eq_nil hl)
  rcases h.eq_leaf_or_append (Label.isMusical_of_isAtomic hl).2 with
    hleaf | ⟨l, s, ns, m, rfl, -⟩
  · exact hleaf
  · exact absurd hnone (List.concat_ne_nil m ns)

/-! ### Starts -/

/-- An element without accidentals starts at its first head. -/
theorem start?_of_no_accidental (h : ∀ m ∈ n.children, m.label.isAccidental = false) :
    n.start? = n.firstHead := by
  cases hl : n.label with
  | note name =>
    exact start?_of_find?_none hl (List.find?_eq_none.2 fun m hm => by simp [h m hm])
  | _ => simp only [start?, hl]

/-- An element of the music starts at the first of its spans. -/
theorem Charted.start?_eq_head? (h : n.Charted S) :
    n.start? = n.inOrder.head?.map Span.start := by
  obtain ⟨⟨hopening, -⟩, -⟩ := h.traced n List.mem_cons_self h.music
  obtain ⟨s, hs⟩ := Option.isSome_iff_exists.1 hopening
  cases hfind : n.children.find? fun child => child.label.isAccidental with
  | none =>
    have hnone : ∀ m ∈ n.children, m.label.isAccidental = false := by
      simpa using List.find?_eq_none.1 hfind
    rw [start?_of_no_accidental hnone]
    obtain ⟨l, opening, closing, ns⟩ := n
    obtain rfl : opening = some s := hs
    change ∀ m ∈ ns, m.label.isAccidental = false at hnone
    rw [inOrder_mk hnone]
    rfl
  | some a =>
    have ha := List.mem_of_find?_eq_some hfind
    have hacc : a.label.isAccidental := by simpa using List.find?_some hfind
    obtain ⟨name, hname⟩ := h.holds.exists_note h.music (List.mem_map_of_mem ha) hacc
    obtain ⟨k, s', rfl⟩ := (h.of_mem ha).exists_leaf (Label.isAtomic_of_isAccidental hacc)
    rw [start?_of_find?_some hname hfind]
    obtain ⟨l, opening, closing, ns⟩ := n
    -- The first accidental comes before all that is not one.
    change ns.find? (fun child => child.label.isAccidental) = _ at hfind
    obtain ⟨rest, hrest⟩ := List.head?_eq_some_iff.1 (List.head?_filter.trans hfind)
    rw [inOrder, inOrderOnly_eq]
    simp only [beq_true, hrest]
    rfl

/-! ### Ends -/

/-- An element has an end where one is found. -/
theorem stop?_eq_some : n.stop? = some p ↔ n.ending = .found p := by
  unfold stop?
  cases n.ending <;> simp

/-- Nodes end with the last one. -/
theorem endingOf_append (hm : m.ending = .found p) : endingOf (ns ++ [m]) = .found p := by
  induction ns with
  | nil => exact hm
  | cons n ns ih => rw [List.cons_append, endingOf, ih]

/-- An element without a tail ends with its last child. -/
theorem stop?_append (hl : n.label.isMusical) (hclosing : n.closing = none)
    (hm : m.stop? = some p) : (n.append m).stop? = some p := by
  rw [stop?_eq_some] at hm ⊢
  obtain ⟨l, opening, closing, ns⟩ := n
  obtain rfl : closing = none := hclosing
  have hbare : l ≠ .bare := Label.ne_bare hl
  simp only [append, ending, if_neg hbare, endingOf_append hm]

/-- An element without children ends with its head. -/
theorem stop?_leaf (hl : l.isMusical) : (Node.mk l (some s) none []).stop? = some s.stop := by
  rw [stop?_eq_some, ending, if_neg (Label.ne_bare hl)]
  rfl

/-- The head of an element without children is the last of its spans. -/
theorem endsLast_leaf (hl : l.isMusical) : (Node.mk l (some s) none []).EndsLast :=
  ⟨s, rfl, stop?_leaf hl⟩

/-- An element ends with the last span of its last child, unless this is an accidental. -/
theorem EndsLast.append (hm : m.EndsLast) (hl : n.label.isMusical) (hclosing : n.closing = none)
    (hlabel : m.label.isAccidental = false) : (n.append m).EndsLast := by
  obtain ⟨s, hlast, hstop⟩ := hm
  refine ⟨s, ?_, stop?_append hl hclosing hstop⟩
  rw [inOrder_append hclosing hlabel, List.getLast?_append, hlast]
  rfl

/-- A chord ends with its tail. -/
theorem Charted.endsLast_chord (h : n.Charted S) (hl : n.label = .chord) : n.EndsLast := by
  obtain ⟨⟨-, hclosing⟩, -⟩ := h.traced n List.mem_cons_self h.music
  obtain ⟨s, hs⟩ := Option.isSome_iff_exists.1 (hclosing.2 hl)
  obtain ⟨l, opening, closing, ns⟩ := n
  obtain rfl : l = .chord := hl
  obtain rfl : closing = some s := hs
  refine ⟨s, ?_, ?_⟩
  · rw [inOrder]
    exact List.getLast?_concat
  · rw [stop?_eq_some, ending, if_neg nofun]

/-- An element that is no tuplet ends with the last of its spans, unless its last child is an
accidental. -/
theorem Charted.endsLast_of_not_tuplet (h : n.Charted S) (hl : ∀ size, n.label ≠ .tuplet size)
    (hlast : n.endsInAccidental = false) : n.EndsLast := by
  by_cases hchord : n.label = .chord
  · exact h.endsLast_chord hchord
  have hgroup : n.label.isGroup = false := by
    cases hlabel : n.label with
    | chord => exact absurd hlabel hchord
    | tuplet size => exact absurd hlabel (hl size)
    | _ => rfl
  rcases h.eq_leaf_or_append hchord with ⟨l, s, rfl⟩ | ⟨l, s, ns, m, rfl, hm⟩
  · exact endsLast_leaf h.music
  · have hatomic := (h.holds.isAtomic h.music hgroup (label_mem_append _ m)).1
    obtain ⟨k, s', rfl⟩ := hm.exists_leaf hatomic
    have hacc : k.isAccidental = false := by
      simpa [endsInAccidental, append, children, label] using hlast
    exact (endsLast_leaf hm.music).append h.music rfl hacc

/-- Only a note ends in an accidental. -/
theorem Charted.exists_note (h : n.Charted S) (hlast : n.endsInAccidental) :
    ∃ name, n.label = .note name := by
  obtain ⟨m, hm, hacc⟩ := (Option.any_eq_true _ _).1 hlast
  exact h.holds.exists_note h.music (List.mem_map_of_mem (List.mem_of_getLast? hm)) hacc

/-- An element of the music ends with the last of its spans, unless this is the letter of a note
with an accidental. -/
theorem Charted.endsLast (h : n.Charted S) (hlast : n.endsAltered = false) : n.EndsLast := by
  by_cases htuplet : ∃ size, n.label = .tuplet size
  · obtain ⟨size, hl⟩ := htuplet
    rw [endsAltered, hl] at hlast
    rcases h.eq_leaf_or_append (by rw [hl]; nofun) with ⟨l, s, rfl⟩ | ⟨l, s, ns, m, rfl, hm⟩
    · exact endsLast_leaf h.music
    · have hsung := h.holds.isSung (by rw [hl]; rfl) (label_mem_append _ m)
      have hmember := hm.endsLast_of_not_tuplet (Label.isMusical_of_isSung hsung).2
        (by simpa [append, children] using hlast)
      exact hmember.append h.music rfl (Label.isAccidental_of_isSung hsung)
  · refine h.endsLast_of_not_tuplet (not_exists.1 htuplet) ?_
    rw [← Bool.not_eq_true]
    intro haccidental
    obtain ⟨name, hl⟩ := h.exists_note haccidental
    rw [endsAltered, hl] at hlast
    exact Bool.false_ne_true (hlast.symm.trans haccidental)

/-- A note that ends in an accidental has the spans of this and of its letter. The accidental is
taken for its end. -/
theorem Charted.stop?_of_endsInAccidental (h : n.Charted S) (hlast : n.endsInAccidental) :
    ∃ sign letter, n.inOrder = [sign, letter] ∧ n.stop? = some sign.stop := by
  obtain ⟨name, hl⟩ := h.exists_note hlast
  rcases h.eq_leaf_or_append (by rw [hl]; nofun) with ⟨l, s, rfl⟩ | ⟨l, s, ns, m, rfl, hm⟩
  · cases hlast
  · have hacc : m.label.isAccidental := by simpa [endsInAccidental, append, children] using hlast
    obtain rfl : ns = [] := by
      have hholds := h.holds
      obtain rfl : l = .note name := hl
      rw [append, children, List.map_append] at hholds
      exact List.map_eq_nil_iff.1 (hholds.eq_nil_of_accidental hacc)
    obtain ⟨k, s', rfl⟩ := hm.exists_leaf (Label.isAtomic_of_isAccidental hacc)
    refine ⟨s', s, ?_, stop?_append h.music rfl (stop?_leaf hm.music)⟩
    change k.isAccidental at hacc
    simp [append, inOrder, inOrderOnly, label, hacc]

/-- Where the letter of a note with an accidental is the last span, the accidental before it is
taken for the end. -/
theorem Charted.stop?_of_endsAltered (h : n.Charted S) (hlast : n.endsAltered) :
    ∃ before sign letter, n.inOrder = before ++ [sign, letter] ∧ n.stop? = some sign.stop := by
  unfold endsAltered at hlast
  split at hlast
  next name hl =>
    obtain ⟨sign, letter, horder, hstop⟩ := h.stop?_of_endsInAccidental hlast
    exact ⟨[], sign, letter, horder, hstop⟩
  next size hl =>
    rcases h.eq_leaf_or_append (by rw [hl]; nofun) with ⟨l, s, rfl⟩ | ⟨l, s, ns, m, rfl, hm⟩
    · cases hlast
    · have hsung := h.holds.isSung (by rw [hl]; rfl) (label_mem_append _ m)
      obtain ⟨sign, letter, horder, hstop⟩ := hm.stop?_of_endsInAccidental
        (by simpa [append, children] using hlast)
      refine ⟨(Node.mk l (some s) none ns).inOrder, sign, letter, ?_, stop?_append h.music rfl hstop⟩
      rw [inOrder_append rfl (Label.isAccidental_of_isSung hsung), horder]
  next => cases hlast

/-! ### The smallest start and the largest end -/

/-- An element of the music has spans, those of its head at least. -/
theorem Charted.spans_ne_nil (h : n.Charted S) : n.spans ≠ [] := by
  obtain ⟨⟨hopening, -⟩, -⟩ := h.traced n List.mem_cons_self h.music
  obtain ⟨s, hs⟩ := Option.isSome_iff_exists.1 hopening
  refine List.ne_nil_of_mem (a := s) (List.mem_flatMap.2 ⟨n, List.mem_cons_self, ?_⟩)
  rw [ownSpans, hs]
  exact List.mem_cons_self

/-- The spans of an element are among those that it is traced to, in their order. -/
theorem Charted.sublist (h : n.Charted S) : n.inOrder.Sublist S :=
  (h.traced n List.mem_cons_self h.music).2

/-- Where spans stand one after the other, an element starts at the smallest start. -/
theorem Charted.start?_eq_min? (h : n.Charted S) (hS : InSequence S) :
    n.start? = (n.spans.map Span.start).min? := by
  rw [h.start?_eq_head?]
  cases hfirst : n.inOrder.head? with
  | some s => exact ((hS.sublist h.sublist).min?_start hfirst fun _ => n.mem_inOrder).symm
  | none =>
    obtain ⟨s, hs⟩ := List.exists_mem_of_ne_nil _ h.spans_ne_nil
    rw [← mem_inOrder, List.head?_eq_none_iff.1 hfirst] at hs
    cases hs

/-- Where spans stand one after the other, an element ends with the largest end, unless this is that
of the letter of a note with an accidental. -/
theorem Charted.stop?_eq_max? (h : n.Charted S) (hS : InSequence S)
    (hlast : n.endsAltered = false) : n.stop? = (n.spans.map Span.stop).max? := by
  obtain ⟨s, hs, hstop⟩ := h.endsLast hlast
  rw [hstop]
  exact ((hS.sublist h.sublist).max?_stop hs fun _ => n.mem_inOrder).symm

/-- Otherwise it ends before the largest end. -/
theorem Charted.stop?_lt_max? (h : n.Charted S) (hS : InSequence S) (hlast : n.endsAltered) :
    ∃ p q, n.stop? = some p ∧ (n.spans.map Span.stop).max? = some q ∧ p < q := by
  obtain ⟨before, sign, letter, horder, hstop⟩ := h.stop?_of_endsAltered hlast
  have hsequence := hS.sublist h.sublist
  have hletter : n.inOrder.getLast? = some letter := by
    rw [horder, List.getLast?_append]
    rfl
  refine ⟨sign.stop, letter.stop, hstop, hsequence.max?_stop hletter fun _ => n.mem_inOrder, ?_⟩
  rw [horder] at hsequence
  obtain ⟨hnonempty, hordered⟩ := hsequence.sublist (List.sublist_append_right before _)
  have hmem : letter ∈ [letter] := List.mem_cons_self
  have hle := (List.pairwise_cons.1 hordered).1 letter hmem
  exact hle.trans_lt (hnonempty letter (List.mem_cons_of_mem sign hmem))

end

end Node

/-! ## Tunes that are read -/

/-- Every element of the music of a tune that is read has its spans, and those of the elements below
it, from tokens of the source. It starts where the first of these starts, and it ends where the last
one ends exactly when this is not the letter of a note with an accidental. -/
theorem readTune_spans {source : Text} {document n : Node} (h : readTune source = .ok document)
    (hn : n ∈ document.descendants) (hmusic : n.label.isMusical) :
    n.spans ≠ [] ∧ (∀ s ∈ n.spans, ∃ k ∈ tokens source, k.span = s) ∧
      n.start? = (n.spans.map Span.start).min? ∧
      (n.stop? = (n.spans.map Span.stop).max? ↔ n.endsAltered = false) := by
  have hcharted : n.Charted ((tokens source).map Token.span) :=
    ⟨hmusic, (allShaped_of_readTune h).of_mem hn, (readTune_traced h).of_mem hn⟩
  have htokens := inSequence_tokens source
  refine ⟨hcharted.spans_ne_nil, fun s hs => ?_, hcharted.start?_eq_min? htokens, ?_⟩
  · exact List.mem_map.1 (hcharted.sublist.subset (n.mem_inOrder.2 hs))
  · constructor
    · intro heq
      rw [← Bool.not_eq_true]
      intro hlast
      obtain ⟨p, q, hp, hq, hlt⟩ := hcharted.stop?_lt_max? htokens hlast
      rw [hp, hq, Option.some.injEq] at heq
      exact hlt.ne heq
    · exact hcharted.stop?_eq_max? htokens

/-- A source has an element of some kind if one is found in it. -/
theorem exists_descendant (source : Text) (p : Node → Bool)
    (h : (readTune source).toOption.any fun document => document.descendants.any p) :
    ∃ document n, readTune source = .ok document ∧ n ∈ document.descendants ∧ p n := by
  obtain ⟨document, hdocument, h⟩ := (Option.any_eq_true _ _).1 h
  obtain ⟨n, hn, hp⟩ := List.any_eq_true.1 h
  exact ⟨document, n, toOption_eq_some.1 hdocument, hn, hp⟩

/-- A note with all its marks, and a tuplet with a chord. -/
def ornamented : Text :=
  "X:1\nT:t\nK:C\n__e''/4 (3D[^C2E]F\n".text

/-- The accidental, the letter, the octave marks and the length of a note tell where it starts and
ends. -/
theorem readTune_spans_ornamented :
    ∃ document n, readTune ornamented = .ok document ∧ n ∈ document.descendants ∧
      n.label.isMusical ∧ n.spans.length = 4 ∧ n.start? = (n.spans.map Span.start).min? ∧
      n.stop? = (n.spans.map Span.stop).max? := by
  obtain ⟨document, n, h, hn, hfound⟩ := exists_descendant ornamented
    (fun n => n.label.isMusical ∧ n.spans.length = 4 ∧ n.endsAltered = false) (by decide +kernel)
  obtain ⟨hmusic, hlength, haltered⟩ := of_decide_eq_true hfound
  obtain ⟨-, -, hstart, hstop⟩ := readTune_spans h hn hmusic
  exact ⟨document, n, h, hn, hmusic, hlength, hstart, hstop.2 haltered⟩

/-- A note that is an accidental and a letter and nothing more. -/
def sharpNote : Text :=
  "X:1\nT:t\nK:C\n^C\n".text

/-- The end of such a note is that of its accidental, which comes before that of its letter. -/
theorem readTune_sharpNote :
    ∃ document n, readTune sharpNote = .ok document ∧ n ∈ document.descendants ∧
      n.label = .note ⟨.C, false⟩ ∧ n.stop? = some 13 ∧
      (n.spans.map Span.stop).max? = some 14 := by
  obtain ⟨document, n, h, hn, hfound⟩ := exists_descendant sharpNote
    (fun n => n.label = .note ⟨.C, false⟩ ∧ n.stop? = some 13 ∧
      (n.spans.map Span.stop).max? = some 14) (by decide +kernel)
  obtain ⟨hlabel, hstop, hmax⟩ := of_decide_eq_true hfound
  exact ⟨document, n, h, hn, hlabel, hstop, hmax⟩

end SingAlong
