import SingAlong.Proofs.Acceptance
import SingAlong.Proofs.Coverage
import Mathlib.Algebra.BigOperators.Group.Multiset.Basic
import Mathlib.Tactic.Abel

/-!
# The ink of a tune

The ink of a text is the multiset of its characters that are not blank. A tune that is read and
written has the ink of its source, but for the comments in lines of lyrics, which are not read
(`readTune_ink`).

Each stage of reading keeps the ink of what it is given. The ink of a source is that of its tokens,
as only blanks are passed over between them (`tokensFrom_ink`); groups, items, pieces and the draft
of the body have the ink of the tokens that they were made of; and an element is written with the
ink of its head, its children and its tail, since separators are blank (`Node.ink_mk`).
-/

namespace SingAlong

/-! ## The ink of a text -/

namespace Text

/-- The characters of a text that are not blank. -/
def ink (t : Text) : Multiset CodePoint :=
  ↑(t.filter fun c => !isBlank c)

/-- No text has no ink. -/
@[simp] theorem ink_nil : ink [] = 0 :=
  rfl

/-- The ink of two texts is put together. -/
@[simp] theorem ink_append (t u : Text) : ink (t ++ u) = ink t + ink u := by
  unfold ink
  rw [List.filter_append, Multiset.coe_add]

/-- A blank text has no ink. -/
theorem ink_blank {t : Text} (h : t.all isBlank) : ink t = 0 := by
  unfold ink
  rw [List.filter_eq_nil_iff.2, Multiset.coe_nil]
  intro c hc
  rw [List.all_eq_true.1 h c hc]
  exact nofun

/-- The order of the characters has no effect on the ink. -/
theorem ink_reverse (t : Text) : ink t.reverse = ink t := by
  unfold ink
  rw [List.filter_reverse, Multiset.coe_reverse]

/-- Blanks at the end have no ink. -/
@[simp] theorem ink_trimEnd (t : Text) : ink (trimEnd t) = ink t := by
  have hblank : (t.reverse.takeWhile isBlank).all isBlank := List.all_takeWhile
  have hsplit := List.takeWhile_append_dropWhile (p := isBlank) (l := t.reverse)
  calc ink (trimEnd t) = ink (t.reverse.dropWhile isBlank) := ink_reverse _
    _ = ink (t.reverse.takeWhile isBlank ++ t.reverse.dropWhile isBlank) := by
        rw [ink_append, ink_blank hblank, zero_add]
    _ = ink t := by rw [hsplit, ink_reverse]

end Text

/-! ## The ink of an element -/

namespace Node

/-- The ink that an element is written with. -/
def ink (n : Node) : Multiset CodePoint :=
  n.write.ink

/-- The ink of the elements of a list. -/
def inkAll (ns : List Node) : Multiset CodePoint :=
  (ns.map ink).sum

/-- The first element of a list has its ink. -/
@[simp] theorem inkAll_cons (n : Node) (ns : List Node) : inkAll (n :: ns) = n.ink + inkAll ns :=
  rfl

/-- No elements have no ink. -/
@[simp] theorem inkAll_nil : inkAll [] = 0 :=
  rfl

/-- The ink of two lists is put together. -/
@[simp] theorem inkAll_append (ns ms : List Node) : inkAll (ns ++ ms) = inkAll ns + inkAll ms := by
  unfold inkAll
  rw [List.map_append, List.sum_append]

/-- Separators are blank. -/
theorem separator_ink (parent before after : Label) :
    (parent.separator before after).ink = 0 := by
  refine Text.ink_blank ?_
  unfold Label.separator
  split <;> rfl

/-- Children are written with their ink. -/
theorem writeFrom_ink (parent : Label) (before : Option Label) (ns : List Node) :
    (writeFrom parent before ns).ink = inkAll ns := by
  induction ns generalizing before with
  | nil => rfl
  | cons n ns ih =>
    rw [writeFrom, Text.ink_append, Text.ink_append, ih, inkAll_cons]
    cases before with
    | none => exact congrArg (· + inkAll ns) (zero_add n.ink)
    | some b =>
      rw [Option.elim_some, separator_ink, zero_add]
      rfl

/-- Accidentals and other children together are written with their ink. -/
theorem writeOnly_ink (ns : List Node) :
    (writeOnly true ns).ink + (writeOnly false ns).ink = inkAll ns := by
  induction ns with
  | nil => rfl
  | cons n ns ih =>
    rw [writeOnly, writeOnly, inkAll_cons, ← ih, Text.ink_append, Text.ink_append]
    -- Each child is written on exactly one of the two sides of the letter.
    cases n.label.isAccidental with
    | false =>
      change Text.ink [] + _ + (n.ink + _) = _
      rw [Text.ink_nil]
      abel
    | true =>
      change n.ink + _ + (Text.ink [] + _) = _
      rw [Text.ink_nil]
      abel

/-- An element is written with the ink of its head, its children and its tail. -/
theorem ink_mk (l : Label) (s t : Option Span) (ns : List Node) :
    (mk l s t ns).ink = (l.head?.getD []).ink + inkAll ns + (l.tail?.getD []).ink := by
  unfold ink write
  cases l with
  | note name =>
    -- The accidental before the letter counts with the other children.
    have hns := writeOnly_ink ns
    simp only [Text.ink_append, ← hns, Label.head?, Label.ownText?, Label.tail?, Option.getD_some,
      Option.getD_none, Text.ink_nil]
    abel
  | _ => simp only [Text.ink_append, writeFrom_ink]

/-- An element without a text of its own has the ink of its children. -/
theorem unread_ink {l : Label} {ns : List Node} (hhead : l.head? = none) (htail : l.tail? = none) :
    (unread l ns).ink = inkAll ns := by
  unfold unread
  rw [ink_mk, hhead, htail]
  exact (add_zero _).trans (zero_add _)

/-- A child that is added brings its ink. -/
theorem ink_append (n m : Node) : (n.append m).ink = n.ink + m.ink := by
  obtain ⟨l, s, t, ns⟩ := n
  rw [append, ink_mk, ink_mk, inkAll_append, inkAll_cons, inkAll_nil, add_zero]
  abel

/-- A token that is read as a leaf is written with the ink of the text of the leaf. -/
theorem ink_node (k : Token) {l : Label} {t : Text} (h : l.ownText? = some t) :
    (k.node l).ink = t.ink := by
  have hhead : l.head? = some t := by cases l <;> first | exact h | cases h
  have htail : l.tail? = none := by cases l <;> first | rfl | cases h
  unfold Token.node
  rw [ink_mk, hhead, htail, inkAll_nil, add_zero]
  exact add_zero _

end Node

/-! ## Notes and rests -/

open Node (inkAll inkAll_cons inkAll_nil inkAll_append ink_node)

/-- The ink of what is pending. -/
def Pending.ink : Pending → Multiset CodePoint
  | nothing => 0
  | accidental _ a => a.text.ink
  | durable _ n _ _ => n.ink

/-- The ink of an item. -/
def Item.ink : Item → Multiset CodePoint
  | token t => t.text.ink
  | chord _ n => n.ink
  | lyrics n => n.ink

/-- The ink of a piece. -/
def Piece.ink : Piece → Multiset CodePoint
  | durable _ n => n.ink
  | item i => i.ink

/-- What is complete has the ink of what was pending. -/
theorem Pending.complete_ink {p : Pending} (h : p.fault? = none) :
    (p.complete.map Piece.ink).sum = p.ink := by
  cases p with
  | nothing => rfl
  | accidental t a => cases h
  | durable start n octaveDue lengthDue => exact add_zero _

/-- A token that is part of a note or rest adds its ink. -/
theorem Pending.take_ink {p p' : Pending} {t : Token} {done : List Piece}
    (h : p.take t = (done, .ok p')) :
    (done.map Piece.ink).sum + p'.ink = p.ink + t.text.ink := by
  have hfault {p : Pending} (hp : ∀ u a, p = .accidental u a → False) : p.fault? = none := by
    cases p with
    | accidental u a => exact (hp u a rfl).elim
    | _ => rfl
  unfold take at h
  split at h
  all_goals cases h
  case h_2 a hl hp =>
    rw [complete_ink (hfault hp), Token.text, hl]
    rfl
  case h_3 name u a hl =>
    have hnode := Node.ink_mk (.note name) (some t.span) none [u.node (.accidental a)]
    rw [inkAll_cons, inkAll_nil, add_zero, ink_node u (l := .accidental a) rfl] at hnode
    rw [List.map_nil, List.sum_nil, zero_add, Token.text, hl]
    exact hnode.trans ((add_zero _).trans (add_comm _ _))
  case h_4 name hl hp =>
    rw [complete_ink (hfault hp), ink, ink_node t (l := .note name) rfl, Token.text, hl]
    rfl
  case h_6 hl hp =>
    rw [complete_ink (hfault hp), ink, ink_node t (l := .rest t.text) rfl]
  case h_7 marks start n lengthDue hl =>
    rw [List.map_nil, List.sum_nil, zero_add, ink, Node.ink_append,
      ink_node t (l := .octave marks) rfl, Token.text, hl]
    rfl
  case h_8 text start n octaveDue hl =>
    rw [List.map_nil, List.sum_nil, zero_add, ink, Node.ink_append,
      ink_node t (l := .length text) rfl, Token.text, hl]
    rfl

/-- Pieces that are put together have the ink of what was pending and of the items. -/
theorem readDurables_ink {p : Pending} {items : List Item}
    (h : (readDurables p items).fault = none) :
    ((readDurables p items).pieces.map Piece.ink).sum = p.ink + (items.map Item.ink).sum := by
  induction items generalizing p with
  | nil => exact (Pending.complete_ink h).trans (add_zero _).symm
  | cons i rest ih =>
    by_cases hm : i.isMusic
    · obtain ⟨t, rfl⟩ := Item.exists_token hm
      cases htake : p.take t with
      | mk done result =>
        cases result with
        | error e =>
          rw [readDurables_unexpected hm htake] at h
          cases h
        | ok p' =>
          rw [readDurables_music hm htake] at h ⊢
          rw [List.map_append, List.sum_append, ih h, ← add_assoc, Pending.take_ink htake,
            List.map_cons, List.sum_cons, add_assoc]
          rfl
    · rw [Bool.not_eq_true] at hm
      cases hp : p.fault? with
      | some e =>
        rw [readDurables_lone hm hp] at h
        cases h
      | none =>
        rw [readDurables_item hm hp] at h ⊢
        rw [List.map_append, List.sum_append, List.map_cons, List.sum_cons, ih h,
          Pending.complete_ink hp, List.map_cons, List.sum_cons]
        exact congrArg (fun rest => p.ink + (i.ink + rest)) (zero_add _)

/-! ## Groups -/

/-- Is the token a comment in a line of lyrics? -/
def Token.isLyricComment (k : Token) : Bool :=
  match k.region, k.lexeme with
  | .lyric, .comment _ => true
  | _, _ => false

/-- The ink of a token that is read. Comments in lines of lyrics are not. -/
def Token.ink (k : Token) : Multiset CodePoint :=
  if k.isLyricComment then 0 else k.text.ink

/-- The ink of tokens that are read. -/
def tokensInk (ks : List Token) : Multiset CodePoint :=
  (ks.map Token.ink).sum

/-- The first token has its ink. -/
theorem tokensInk_cons (k : Token) (ks : List Token) :
    tokensInk (k :: ks) = k.ink + tokensInk ks :=
  rfl

/-- A token outside of the lyrics has the ink of its text. -/
theorem Token.ink_of_region {k : Token} (h : k.region ≠ .lyric) : k.ink = k.text.ink := by
  refine if_neg ?_
  unfold isLyricComment
  split
  next hr _ => exact absurd hr h
  next => exact nofun

/-- Tokens outside of the lyrics have the ink of their texts. -/
theorem tokensInk_of_region {ks : List Token} (h : ∀ k ∈ ks, k.region ≠ .lyric) :
    tokensInk ks = ((ks.map Item.token).map Item.ink).sum := by
  unfold tokensInk
  rw [List.map_map]
  exact congrArg List.sum (List.map_congr_left fun k hk => Token.ink_of_region (h k hk))

/-- The ink of the tokens of a group. -/
def Group.ink : Group → Multiset CodePoint
  | single t => t.ink
  | chord opening inside | lyrics opening inside => opening.ink + tokensInk inside

/-- The tokens of a group are those of its region: a chord or a line of lyrics is opened by its
lexeme, and the tokens in it belong to it. -/
def Group.Regional : Group → Prop
  | single t => t.region ≠ .lyric
  | chord opening inside => opening.lexeme = .chordStart ∧ opening.region = .chord ∧
      ∀ k ∈ inside, k.region = .chord
  | lyrics opening inside => opening.lexeme = .lyricStart ∧
      ∀ k ∈ inside, k.region = .lyric ∧ k.Taken ∧ k.Inner

/-- The notes of a chord have the ink of its pieces. -/
theorem chordNotes_ink {opening : Token} {pieces : List Piece} {ns : List Node}
    (h : chordNotes opening pieces = .ok ns) : inkAll ns = (pieces.map Piece.ink).sum := by
  have hnotes := forall₂_chordNotes h
  clear h
  induction hnotes with
  | nil => rfl
  | cons hpiece _ ih =>
    obtain ⟨start, name, rfl, -⟩ := hpiece
    rw [inkAll_cons, ih]
    rfl

/-- A chord has the ink of its tokens. -/
theorem readChord_ink {opening : Token} {inside : List Token} {n : Node}
    (hopening : opening.lexeme = .chordStart) (h : readChord opening inside = .ok n) :
    n.ink = opening.text.ink + ((inside.map Item.token).map Item.ink).sum := by
  obtain ⟨ts, closing, notes, rfl, hclosing, hfault, hnotes, -, rfl⟩ := exists_of_readChord h
  have hpieces := readDurables_ink hfault
  rw [← chordNotes_ink hnotes] at hpieces
  have hhead : (Label.chord.head?.getD []).ink = opening.text.ink := by
    rw [Token.text, hopening]
    rfl
  have htail : (Label.chord.tail?.getD []).ink = (Item.token closing).ink := by
    rw [Item.ink, Token.text, hclosing]
    rfl
  rw [Node.ink_mk, hpieces, hhead, htail, List.map_append, List.map_append, List.sum_append]
  exact (add_assoc _ _ _).trans (congrArg _ (congrArg₂ _ (zero_add _) (add_zero _).symm))

/-- A token in a line of lyrics is read as an element with its ink, or it is a comment. -/
theorem lyricNode?_ink {k : Token} (hr : k.region = .lyric) (ht : k.Taken) (hi : k.Inner) :
    inkAll (lyricNode? k).toList = k.ink := by
  have hread : (∃ l, lyricNode? k = some (k.node l) ∧ l.ownText? = some k.text ∧
      k.isLyricComment = false) ∨ lyricNode? k = none ∧ k.isLyricComment = true := by
    obtain ⟨r, hhas, hmove⟩ := ht
    obtain ⟨-, -, hstart⟩ := hi
    unfold lyricNode? Token.isLyricComment Token.text
    rw [hr] at hmove ⊢
    cases hl : k.lexeme with
    | lyric kind text => exact .inl ⟨_, rfl, rfl, rfl⟩
    | newline => exact .inl ⟨_, rfl, rfl, rfl⟩
    | comment text => exact .inr ⟨rfl, rfl⟩
    | lyricStart => exact absurd hl hstart
    | _ =>
      rw [hl] at hhas hmove
      cases r <;> first | cases hhas; done | cases hmove
  rcases hread with ⟨l, hl, htext, hcomment⟩ | ⟨hl, hcomment⟩
  · rw [hl, Option.toList_some, inkAll_cons, inkAll_nil, add_zero, ink_node k htext, Token.ink,
      hcomment, if_neg Bool.false_ne_true]
  · rw [hl, Token.ink, hcomment, if_pos rfl]
    rfl

/-- A line of lyrics has the ink of its tokens, but for the comments. -/
theorem readLyrics_ink {opening : Token} {inside : List Token}
    (hinside : ∀ k ∈ inside, k.region = .lyric ∧ k.Taken ∧ k.Inner) :
    (readLyrics opening inside).ink = Lexeme.lyricStart.text.ink + tokensInk inside := by
  have hread : inkAll (inside.filterMap lyricNode?) = tokensInk inside := by
    induction inside with
    | nil => rfl
    | cons k inside ih =>
      obtain ⟨⟨hr, ht, hi⟩, hrest⟩ := List.forall_mem_cons.1 hinside
      have hsplit : (k :: inside).filterMap lyricNode? =
          (lyricNode? k).toList ++ inside.filterMap lyricNode? := by
        cases hk : lyricNode? k <;> rw [List.filterMap_cons, hk] <;> rfl
      rw [hsplit, inkAll_append, lyricNode?_ink hr ht hi, ih hrest, tokensInk_cons]
  unfold readLyrics
  rw [Node.ink_mk, ← hread]
  -- The end of the line that may be added is blank.
  split_ifs
  · exact add_zero _
  · rw [inkAll_append]
    exact (add_zero _).trans (congrArg _ (add_zero _))

/-- The item of a group has the ink of its tokens. -/
theorem Group.read_ink {g : Group} (hg : g.Regional) {i : Item} (h : g.read = .ok i) :
    i.ink = g.ink := by
  cases g with
  | single t =>
    cases h
    exact (Token.ink_of_region hg).symm
  | chord opening inside =>
    obtain ⟨hopening, hregion, hinside⟩ := hg
    obtain ⟨n, hn, h⟩ := bind_eq_ok.1 h
    cases h
    have hout (k : Token) (hk : k.region = .chord) : k.region ≠ .lyric := by
      rw [hk]
      exact nofun
    rw [ink, Token.ink_of_region (hout opening hregion),
      tokensInk_of_region fun k hk => hout k (hinside k hk)]
    exact readChord_ink hopening hn
  | lyrics opening inside =>
    obtain ⟨hopening, hinside⟩ := hg
    cases h
    have hink : opening.ink = Lexeme.lyricStart.text.ink := by
      unfold Token.ink Token.isLyricComment Token.text
      rw [hopening]
      split_ifs with hcomment
      · split at hcomment <;> contradiction
      · rfl
    rw [ink, hink]
    exact readLyrics_ink hinside

/-- The tokens inside a group that is opened before are in the region that it opens. -/
theorem groupFrom_inside {ts : List Token} (hchain : ts.IsChain Token.Nested) {r : Region}
    (hhead : ∀ k ∈ ts.head?, k.Inner → k.region = r) :
    ∀ k ∈ (groupFrom ts).1, k.region = r ∧ k.Inner := by
  induction ts with
  | nil => exact nofun
  | cons k rest ih =>
    obtain ⟨hnested, hrest⟩ := List.isChain_cons.1 hchain
    rcases groupFrom_cons k rest with ⟨-, h⟩ | ⟨-, h⟩ | ⟨hinner, h⟩ | ⟨-, -, h⟩
    · rw [h]
      exact nofun
    · rw [h]
      exact nofun
    · have hregion := hhead k rfl hinner
      rw [h]
      refine List.forall_mem_cons.2 ⟨⟨hregion, hinner⟩, ih hrest fun k' hk' hinner' => ?_⟩
      rw [hnested k' hk' hinner', hregion]
    · rw [h]
      exact nofun

section Groups

variable {ts : List Token} (hchain : ts.IsChain Token.Nested)

include hchain

/-- The tokens of the groups of a body are those of their regions. -/
theorem groupFrom_regional (ht : ∀ k ∈ ts, k.Taken) : ∀ g ∈ (groupFrom ts).2, g.Regional := by
  induction ts with
  | nil => exact nofun
  | cons k rest ih =>
    obtain ⟨hnested, hrest⟩ := List.isChain_cons.1 hchain
    obtain ⟨htaken, htakens⟩ := List.forall_mem_cons.1 ht
    have hinside {r : Region} (hr : k.region = r) :=
      groupFrom_inside hrest fun k' hk' hinner => (hnested k' hk' hinner).trans hr
    have hgroups := ih hrest htakens
    rcases groupFrom_cons k rest with ⟨hl, h⟩ | ⟨hl, h⟩ | ⟨-, h⟩ | ⟨-, hr, h⟩
    · have hregion := htaken.chord hl
      rw [h]
      exact List.forall_mem_cons.2
        ⟨⟨hl, hregion, fun k' hk' => (hinside hregion k' hk').1⟩, hgroups⟩
    · rw [h]
      refine List.forall_mem_cons.2 ⟨⟨hl, fun k' hk' => ?_⟩, hgroups⟩
      obtain ⟨hr, hinner⟩ := hinside (htaken.lyrics hl) k' hk'
      exact ⟨hr, htakens k' (groupFrom_subset rest k' hk'), hinner⟩
    · rwa [h]
    · rw [h]
      exact List.forall_mem_cons.2 ⟨hr, hgroups⟩

/-- The ink of the tokens is that of the groups, and of the tokens inside a group opened before. -/
theorem groupFrom_ink :
    tokensInk ts = tokensInk (groupFrom ts).1 + ((groupFrom ts).2.map Group.ink).sum := by
  induction ts with
  | nil => rfl
  | cons k rest ih =>
    obtain ⟨hnested, hrest⟩ := List.isChain_cons.1 hchain
    rw [tokensInk_cons, ih hrest]
    rcases groupFrom_cons k rest with ⟨-, h⟩ | ⟨-, h⟩ | ⟨-, h⟩ | ⟨hc, hl, h⟩
    · rw [h, List.map_cons, List.sum_cons, Group.ink, ← add_assoc]
      exact (zero_add _).symm
    · rw [h, List.map_cons, List.sum_cons, Group.ink, ← add_assoc]
      exact (zero_add _).symm
    · rw [h, tokensInk_cons, add_assoc]
    · -- A single token does not stand before the inside of a group.
      have hnil : (groupFrom rest).1 = [] := groupFrom_eq_nil fun k' hk' hinner => by
        have hregion := hnested k' hk' hinner
        rcases hinner.1 with hr | hr
        · exact hc (hregion ▸ hr)
        · exact hl (hregion ▸ hr)
      rw [h, hnil, List.map_cons, List.sum_cons]
      exact add_left_comm _ _ _

end Groups

/-! ## The body -/

namespace Draft

/-- The ink of the body as far as it has been read. -/
def ink (d : Draft) : Multiset CodePoint :=
  inkAll d.nodes + inkAll d.line +
    d.tuplet.elim 0 fun t => t.size.text.ink + inkAll t.members

variable {d d' : Draft}

/-- A note, rest or chord that is added brings its ink. -/
theorem add_ink {start : Nat} {n : Node} (h : d.add start n = .ok d') : d'.ink = d.ink + n.ink := by
  unfold add at h
  split at h
  next ht =>
    cases h
    simp only [ink, ht, Option.elim_none, inkAll_append, inkAll_cons, inkAll_nil]
    abel
  next t ht =>
    split_ifs at h
    dsimp only at h
    split_ifs at h
    · -- The tuplet goes to the line with its mark and its members.
      cases h
      simp only [ink, ht, Option.elim_none, Option.elim_some, inkAll_append, inkAll_cons,
        inkAll_nil, Node.ink_mk, Label.head?, Label.tail?, Label.ownText?, Option.getD_some,
        Option.getD_none, Text.ink_nil]
      abel
    · cases h
      simp only [ink, ht, Option.elim_some, inkAll_append, inkAll_cons, inkAll_nil]
      abel

/-- A blank end leaves the ink of the line. -/
theorem endLine_ink {ending : Node} (h : ending.ink = 0) : (d.endLine ending).ink = d.ink := by
  unfold endLine
  split_ifs
  · rfl
  · have hline : (Node.unread .line (d.line ++ [ending])).ink = inkAll d.line := by
      unfold Node.unread
      rw [Node.ink_mk, inkAll_append, inkAll_cons, h]
      exact (add_zero _).trans ((zero_add _).trans (add_zero _))
    simp only [ink, inkAll_append, inkAll_cons, inkAll_nil, hline]
    abel

/-- A token that is added brings its ink. -/
theorem addToken_ink {t : Token} (h : d.addToken t = .ok d') : d'.ink = d.ink + t.text.ink := by
  unfold addToken at h
  unfold Token.text
  split at h
  next hl =>
    obtain ⟨-, -, h⟩ := bind_eq_ok.1 h
    cases h
    have hblank : t.lexeme.text.ink = 0 := by
      rw [hl]
      rfl
    rw [endLine_ink ((ink_node t rfl).trans hblank), hblank, add_zero]
  next b hl =>
    obtain ⟨-, -, h⟩ := bind_eq_ok.1 h
    cases h
    simp only [ink, inkAll_append, inkAll_cons, inkAll_nil, ink_node t (l := .bar b) rfl, hl,
      Lexeme.text]
    abel
  next size hl =>
    split at h
    next => cases h
    next ht =>
      cases h
      simp only [ink, ht, Option.elim_none, Option.elim_some, inkAll_nil, hl, Lexeme.text]
      abel
  next text hl =>
    cases h
    simp only [ink, inkAll_append, inkAll_cons, inkAll_nil,
      ink_node t (l := .voiceField (Text.trimEnd text)) rfl, Text.ink_trimEnd, hl, Lexeme.text]
    abel
  next text hl =>
    dsimp only at h
    split_ifs at h
    all_goals
      cases h
      simp only [ink, inkAll_append, inkAll_cons, inkAll_nil,
        ink_node t (l := .comment text) rfl, hl, Lexeme.text]
      abel
  next => cases h

/-- A piece that is added brings its ink. -/
theorem addPiece_ink {piece : Piece} (h : d.addPiece piece = .ok d') :
    d'.ink = d.ink + piece.ink := by
  match piece with
  | .durable start n => exact add_ink h
  | .item (.token t) => exact addToken_ink h
  | .item (.chord start n) => exact add_ink h
  | .item (.lyrics n) =>
    cases h
    simp only [ink, Piece.ink, Item.ink, inkAll_append, inkAll_cons, inkAll_nil]
    abel

/-- Pieces that are added bring their ink. -/
theorem foldlM_ink {pieces : List Piece} (h : pieces.foldlM Draft.addPiece d = .ok d') :
    d'.ink = d.ink + (pieces.map Piece.ink).sum := by
  induction pieces generalizing d with
  | nil =>
    cases h
    exact (add_zero _).symm
  | cons piece pieces ih =>
    rw [List.foldlM_cons] at h
    obtain ⟨next, hnext, h⟩ := bind_eq_ok.1 h
    rw [ih h, addPiece_ink hnext, List.map_cons, List.sum_cons, add_assoc]

end Draft

/-- After the end of a line nothing is left on the line. -/
theorem Draft.endLine_spec (d : Draft) (ending : Node) :
    (d.endLine ending).line = [] ∧ (d.endLine ending).tuplet = d.tuplet := by
  unfold endLine
  split_ifs with hline
  · exact ⟨List.isEmpty_iff.1 hline, rfl⟩
  · exact ⟨rfl, rfl⟩

/-- The body has the ink of its items. -/
theorem readBody_ink {items : List Item} {n : Node} (h : readBody items = .ok n) :
    n.ink = (items.map Item.ink).sum := by
  unfold readBody at h
  obtain ⟨d, hd, h⟩ := bind_eq_ok.1 h
  split at h
  next => cases h
  next hfault =>
    obtain ⟨_, hcheck, h⟩ := bind_eq_ok.1 h
    cases h
    have htuplet := Draft.checkTuplet_ok hcheck
    -- All ink of the draft is in its nodes when the last line has been ended.
    have hended : (d.endLine (.unread (.endOfLine ['\n']) [])).ink = d.ink :=
      Draft.endLine_ink rfl
    obtain ⟨hline, hsame⟩ := d.endLine_spec (.unread (.endOfLine ['\n']) [])
    unfold Draft.ink at hended
    rw [hline, hsame, htuplet] at hended
    calc (Node.unread .body (d.endLine (.unread (.endOfLine ['\n']) [])).nodes).ink
        = inkAll (d.endLine (.unread (.endOfLine ['\n']) [])).nodes + 0 + 0 := by
          rw [Node.unread_ink rfl rfl, add_zero, add_zero]
      _ = d.ink := by
          unfold Draft.ink
          rw [htuplet]
          exact hended
      _ = (items.map Item.ink).sum := by
          rw [Draft.foldlM_ink hd, readDurables_ink hfault]
          exact (zero_add _).trans (zero_add _)

/-! ## The tokens of a source -/

/-- Does the token hold the character at a position? -/
def Token.holds (k : Token) (i : Nat) : Bool :=
  k.pos ≤ i && i < k.stop

/-- The characters of a text at a position of the source that are in none of the tokens. -/
def Text.outside (ks : List Token) (pos : Nat) (t : Text) : Text :=
  ((t.zipIdx pos).filter fun entry => !ks.any (·.holds entry.2)).map Prod.fst

/-- The source without the comments in its lines of lyrics. -/
def withoutLyricComments (source : Text) : Text :=
  Text.outside ((tokens source).filter Token.isLyricComment) 0 source

namespace Text

variable {ks : List Token} {k : Token} {pos : Nat} {t u : Text}

/-- The characters outside are those of the parts of a text. -/
theorem outside_append : outside ks pos (t ++ u) =
    outside ks pos t ++ outside ks (pos + t.length) u := by
  unfold outside
  rw [List.zipIdx_append, List.filter_append, List.map_append]

/-- A token that holds no character of a text has no effect on what is outside. -/
theorem outside_cons (h : k.stop ≤ pos ∨ pos + t.length ≤ k.pos) :
    outside (k :: ks) pos t = outside ks pos t := by
  unfold outside
  refine congrArg _ (List.filter_congr fun entry hentry => ?_)
  obtain ⟨hle, hlt, -⟩ := List.mem_zipIdx hentry
  have hnot : k.holds entry.2 = false := by
    rw [Token.holds, Bool.and_eq_false_iff, decide_eq_false_iff_not, decide_eq_false_iff_not]
    omega
  rw [List.any_cons, hnot, Bool.false_or]

/-- All characters are outside of tokens after them. -/
theorem outside_eq_self (h : ∀ k ∈ ks, pos + t.length ≤ k.pos) : outside ks pos t = t := by
  induction ks with
  | nil =>
    unfold outside
    exact (congrArg _ (List.filter_eq_self.2 fun _ _ => rfl)).trans (List.zipIdx_map_fst _ _)
  | cons k ks ih =>
    obtain ⟨hk, hks⟩ := List.forall_mem_cons.1 h
    rw [outside_cons (.inr hk), ih hks]

/-- No characters are outside of a token that holds them. -/
theorem outside_eq_nil (hpos : k.pos = pos) (hstop : k.stop = pos + t.length) :
    outside (k :: ks) pos t = [] := by
  unfold outside
  rw [List.filter_eq_nil_iff.2, List.map_nil]
  intro entry hentry
  obtain ⟨hle, hlt, -⟩ := List.mem_zipIdx hentry
  have hholds : k.holds entry.2 = true := by
    rw [Token.holds, Bool.and_eq_true, decide_eq_true_eq, decide_eq_true_eq]
    omega
  rw [List.any_cons, hholds]
  exact nofun

end Text

/-- The ink of a text without the comments in its lines of lyrics is that of the tokens that are
read. -/
theorem tokensFrom_ink (r : Region) (pos : Nat) (t : Text) :
    (Text.outside ((tokensFrom r pos 0 t).filter Token.isLyricComment) pos t).ink =
      tokensInk (tokensFrom r pos 0 t) := by
  refine tokensFrom_induction (motive := fun _ pos t ts =>
    (Text.outside (ts.filter Token.isLyricComment) pos t).ink = tokensInk ts) ?nil ?lexeme ?blanks
    r pos t
  case nil =>
    intro r pos
    rfl
  case lexeme =>
    intro r pos l own next rest hnext hfinds ih
    have hafter := (tokensFrom_placed next (pos + l.text.length) rest).within
    rw [Text.outside_append, Text.ink_append, tokensInk_cons, ← ih, List.filter_cons]
    generalize tokensFrom next (pos + l.text.length) 0 rest = ts at hafter
    have hlater : ∀ k ∈ ts.filter Token.isLyricComment, pos + l.text.length ≤ k.pos :=
      fun k hk => (hafter k (List.mem_of_mem_filter hk)).1
    -- A comment in a line of lyrics is not outside of its token; any other lexeme is of the others.
    unfold Token.ink
    split_ifs
    · have hrest : Text.outside (⟨pos, l, own⟩ :: ts.filter Token.isLyricComment)
          (pos + l.text.length) rest =
          Text.outside (ts.filter Token.isLyricComment) (pos + l.text.length) rest :=
        Text.outside_cons (.inl le_rfl)
      rw [Text.outside_eq_nil (k := ⟨pos, l, own⟩) (t := l.text) rfl rfl, hrest, Text.ink_nil]
    · rw [Text.outside_eq_self hlater]
      rfl
  case blanks =>
    intro r pos b rest hnext hb r' hr' ih
    have hafter := (tokensFrom_placed r' (pos + b.length) rest).within
    have hpasses := Region.next_passes (r := r.current (b ++ rest))
      (List.append_ne_nil_of_left_ne_nil hb rest)
    rw [hnext] at hpasses
    rw [Text.outside_append, Text.ink_append, ih, Text.outside_eq_self fun k hk =>
      (hafter k (List.mem_of_mem_filter hk)).1, Text.ink_blank hpasses, zero_add]

/-! ## The tune -/

/-- The elements of the header have the ink of their tokens. -/
theorem headerNode_ink {k : Token} {n : Node} (h : headerNode k = .ok n) : n.ink = k.text.ink := by
  unfold headerNode at h
  unfold Token.text
  split at h
  next text hl =>
    cases h
    rw [ink_node k (l := .keyField (Text.trimEnd text)) rfl, Text.ink_trimEnd, hl]
    rfl
  next text hl =>
    cases h
    rw [ink_node k (l := .field (Text.trimEnd text)) rfl, Text.ink_trimEnd, hl]
    rfl
  next text hl =>
    cases h
    rw [ink_node k (l := .comment text) rfl, hl]
    rfl
  next => cases h

/-- Results that each weigh as much as what they are read from weigh as much together. -/
theorem mapM_sum {α β ε M : Type} [AddCommMonoid M] {f : α → Except ε β} {xs : List α} {ys : List β}
    {weight : β → M} {size : α → M} (hf : ∀ x ∈ xs, ∀ y, f x = .ok y → weight y = size x)
    (h : xs.mapM f = .ok ys) : (ys.map weight).sum = (xs.map size).sum := by
  have hread := mapM_eq_ok.1 h
  clear h
  induction hread with
  | nil => rfl
  | cons hy _ ih =>
    obtain ⟨hfirst, hrest⟩ := List.forall_mem_cons.1 hf
    rw [List.map_cons, List.map_cons, List.sum_cons, List.sum_cons, hfirst _ hy, ih hrest]

/-- A tune that is read from a source is written with the same characters, blanks apart: those of
the source, but for the comments in lines of lyrics, each as often as it is there. -/
theorem readTune_ink {source : Text} {document : Node} (h : readTune source = .ok document) :
    document.write.ink = (withoutLyricComments source).ink := by
  obtain ⟨header, body, ht, hheader, hbody⟩ := exists_isBody source
  obtain ⟨items, bodies, fields, hitems, hbodies, hfields, rfl⟩ :=
    (readTune_eq_ok ht (fun k hk => (hheader k hk).2) hbody.region).1 h
  have hfieldsInk : inkAll fields = tokensInk header := by
    refine mapM_sum (fun k hk n hn => ?_) hfields
    rw [headerNode_ink hn, Token.ink_of_region (by rw [(hheader k hk).2]; exact nofun)]
  have hbodiesInk : inkAll bodies = tokensInk body := by
    split_ifs at hbodies with hempty
    · cases hbodies
      rw [List.isEmpty_iff.1 hempty]
      rfl
    · obtain ⟨n, hn, hbodies⟩ := bind_eq_ok.1 hbodies
      cases hbodies
      have hregional := groupFrom_regional hbody.nested hbody.taken
      have hfirst := groupFrom_eq_nil hbody.first
      rw [inkAll_cons, inkAll_nil, add_zero, readBody_ink hn,
        mapM_sum (fun g hg _ => Group.read_ink (hregional g hg)) hitems,
        groupFrom_ink hbody.nested, hfirst]
      exact (zero_add _).symm
  calc (Node.unread .document (.unread .header fields :: bodies)).ink
      = inkAll fields + inkAll bodies := by
        rw [Node.unread_ink rfl rfl, inkAll_cons, Node.unread_ink rfl rfl]
    _ = tokensInk (tokens source) := by
        rw [hfieldsInk, hbodiesInk, ht]
        exact (List.sum_append.symm.trans (congrArg _ List.map_append.symm))
    _ = (withoutLyricComments source).ink := (tokensFrom_ink .header 0 source).symm

/-- A tune with blanks at the ends of its fields, a chord, a tuplet, a voice field within a line,
and comments in the music and in the lyrics. -/
def commentedRound : Text :=
  "K:G \n[CE,] (3ab^c2 z:| V:2  %c\nw:la-*_ %d\nd".text

/-- Of the comments of a tune only the one in the lyrics is not written. -/
theorem readTune_ink_commentedRound :
    (∃ document, readTune commentedRound = .ok document ∧
      document.write.ink = (withoutLyricComments commentedRound).ink) ∧
    withoutLyricComments commentedRound =
      "K:G \n[CE,] (3ab^c2 z:| V:2  %c\nw:la-*_ \nd".text := by
  refine ⟨?_, by decide +kernel⟩
  have hread : (readTune commentedRound).toOption.isSome := by decide +kernel
  cases h : readTune commentedRound with
  | error e =>
    rw [h] at hread
    cases hread
  | ok document => exact ⟨document, rfl, readTune_ink h⟩

end SingAlong
