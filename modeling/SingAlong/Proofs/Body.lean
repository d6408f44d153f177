import SingAlong.Proofs.Reading
import Mathlib.Data.List.DropRight
import Mathlib.Data.List.TakeDrop

/-!
# A tune that is read is a score

The pieces of the body are added to a draft one after the other. `Draft.Sketched` is the invariant:
the draft holds parts of a score, the elements of a line that is not complete, and the members of a
tuplet that is not complete. A comment stands at the end of its line because a newline follows it.

With the header, whose fields are kept without the blanks at their ends, `readTune_score` follows: a
tune that is read is the tree of a score, up to its places, and the lines of lyrics of this score
have the texts that they have in the source.
-/

namespace SingAlong

open Score (Suffix Member Element Comment Value Part Entry)

variable {L : Text → Prop}

/-! ## Fields -/

/-- The blanks at the end of a text are those after a character that is not blank. -/
theorem Text.trimEnd_cons {c : CodePoint} (hc : isBlank c = false) (s t : Text) :
    Text.trimEnd (s ++ c :: t) = s ++ c :: Text.trimEnd t := by
  unfold Text.trimEnd
  rw [List.reverse_append, List.reverse_cons, List.append_assoc, List.dropWhile_append]
  -- If only blanks follow the character, it is the last one that is kept.
  split_ifs with h
  · rw [List.isEmpty_iff.1 h]
    simp [hc]
  · simp

/-- A newline at the end is dropped with the blanks before it. -/
theorem Text.trimEnd_lineEnd (t : Text) : Text.trimEnd (t ++ Text.lineEnd) = Text.trimEnd t :=
  List.rdropWhile_concat_pos isBlank t _ rfl

/-- The value of a field that is kept. -/
def Score.Value.ofText {t : Text} (ht : t.all Rule.inField) : Value :=
  ⟨Text.trimEnd t, List.all_eq_true.2 fun c hc =>
    List.all_eq_true.1 ht c ((List.rdropWhile_prefix isBlank t).subset hc),
    List.rdropWhile_idempotent isBlank t⟩

/-- A field is kept without the blanks at the end of its value. -/
theorem Field.trimEnd_written {letter : CodePoint} {t : Text} (ht : t.all Rule.inField) :
    Text.trimEnd (Field.written letter t) = Field.written letter (Value.ofText ht).text :=
  Text.trimEnd_cons (c := (':' : CodePoint)) rfl [letter] t

/-- A field of a score has no blanks at its end. -/
theorem Score.Value.trimEnd_written (v : Value) (letter : CodePoint) :
    Text.trimEnd (Field.written letter v.text) = Field.written letter v.text := by
  have hwritten := Text.trimEnd_cons (c := (':' : CodePoint)) rfl [letter] v.text
  rw [v.trimmed] at hwritten
  exact hwritten

/-! ## The draft of the body -/

/-- A tuplet has members. -/
theorem TupletSize.count_pos (s : TupletSize) : 0 < s.count := by
  cases s <;> decide

/-- What a draft has so far: the parts that are complete, the elements of the current line with the
comment after them, and the members of a tuplet that is not complete. -/
structure Draft.Sketched (L : Text → Prop) (d : Draft) (parts : List Part)
    (elements : List Element) (comment : Option Comment) : Prop where
  nodes : d.nodes.map Node.unplaced = parts.map Part.node
  lyrics : ∀ l, .lyrics l ∈ parts → L l.text
  line : d.line.map Node.unplaced =
    elements.map Element.node ++ (comment.map Comment.node).toList
  commented : comment.isSome → elements ≠ []
  tuplet : ∀ t ∈ d.tuplet, ∃ members : List Member,
    t.members.map Node.unplaced = members.map Member.node ∧ members.length < t.size.count

/-- A note, rest or chord. -/
def IsPlayed (n : Node) : Prop :=
  (∃ m : Member, n.unplaced = m.node) ∨ ∃ s : Suffix, n.unplaced = s.rest

namespace Draft

variable {d d' : Draft} {parts : List Part} {elements : List Element} {comment : Option Comment}

/-- A tuplet that one more member is added to. -/
theorem map_unplaced_concat {ns : List Node} {members : List Member} {n : Node} {m : Member}
    (h : ns.map Node.unplaced = members.map Member.node) (hn : n.unplaced = m.node) :
    (ns ++ [n]).map Node.unplaced = (members ++ [m]).map Member.node ∧
      (ns ++ [n]).length = (members ++ [m]).length := by
  have hmembers : (ns ++ [n]).map Node.unplaced = (members ++ [m]).map Member.node := by
    rw [List.map_append, h, List.map_singleton, hn, List.map_append]
    rfl
  have hlengths := congrArg List.length hmembers
  rw [List.length_map, List.length_map] at hlengths
  exact ⟨hmembers, hlengths⟩

/-- An element that is added to the line is the next one of the line. -/
theorem Sketched.element (hd : d.Sketched L parts elements none) {n : Node} {e : Element}
    (hn : n.unplaced = e.node) {tuplet : Option OpenTuplet}
    (ht : tuplet = d.tuplet ∨ tuplet = none) :
    Sketched L { d with line := d.line ++ [n], tuplet } parts (elements ++ [e]) none where
  nodes := hd.nodes
  lyrics := hd.lyrics
  line := by
    rw [List.map_append, hd.line, List.map_singleton, hn, List.map_append]
    simp
  commented := nofun
  tuplet := by
    rcases ht with rfl | rfl
    · exact hd.tuplet
    · exact nofun

/-- A part that is complete at once stands before the current line. -/
theorem Sketched.part (hd : d.Sketched L parts elements comment) {n : Node} {p : Part}
    (hn : n.unplaced = p.node) (hp : ∀ l, p = .lyrics l → L l.text) :
    Sketched L { d with nodes := d.nodes ++ [n] } (parts ++ [p]) elements comment where
  nodes := by
    rw [List.map_append, hd.nodes, List.map_singleton, hn, List.map_append]
    rfl
  lyrics l hl := by
    rcases List.mem_append.1 hl with hl | hl
    · exact hd.lyrics l hl
    · exact hp l (List.mem_singleton.1 hl).symm
  line := hd.line
  commented := hd.commented
  tuplet := hd.tuplet

/-- A note, rest or chord that is added goes to the line or to a tuplet. -/
theorem Sketched.add (hd : d.Sketched L parts elements none) {start : Nat} {n : Node}
    (hn : IsPlayed n) (h : d.add start n = .ok d') :
    ∃ elements', d'.Sketched L parts elements' none := by
  unfold Draft.add at h
  split at h
  next hnone =>
    cases h
    rcases hn with ⟨m, hm⟩ | ⟨s, hs⟩
    · exact ⟨_, hd.element (e := .member m) hm (.inl rfl)⟩
    · exact ⟨_, hd.element (e := .rest s) hs (.inl rfl)⟩
  next t ht =>
    split_ifs at h with hsung
    dsimp only at h
    obtain ⟨members, hmembers, hlt⟩ := hd.tuplet t ht
    -- Only notes and chords are members of tuplets.
    obtain ⟨m, hm⟩ : ∃ m : Member, n.unplaced = m.node := by
      rcases hn with hm | ⟨s, hs⟩
      · exact hm
      · have hlabel := n.label_unplaced
        rw [hs] at hlabel
        rw [← hlabel] at hsung
        cases hsung
    obtain ⟨hmembers', hlength⟩ := map_unplaced_concat hmembers hm
    rw [hlength] at h
    -- The last member completes the tuplet, which goes to the line.
    split_ifs at h with hcount
    · cases h
      refine ⟨_, hd.element (e := .tuplet ⟨t.size, members ++ [m], hcount⟩) ?_ (.inr rfl)⟩
      rw [Node.unplaced_mk, hmembers']
      rfl
    · cases h
      refine ⟨elements, hd.nodes, hd.lyrics, hd.line, hd.commented, ?_⟩
      rintro _ ⟨⟩
      refine ⟨members ++ [m], hmembers', lt_of_le_of_ne ?_ hcount⟩
      rw [List.length_append, List.length_singleton]
      exact hlt

/-- The end of a line makes a part of its elements, if it has any. -/
theorem Sketched.endLine (hd : d.Sketched L parts elements comment) {ending : Node}
    (he : ending.unplaced = Node.leaf (.endOfLine Text.lineEnd)) :
    ∃ parts', (d.endLine ending).Sketched L parts' [] none := by
  unfold Draft.endLine
  by_cases hne : elements = []
  · -- There is no comment without elements before it, so the line is empty.
    have hcomment : comment = none := by
      cases comment with
      | none => rfl
      | some c => exact absurd hne (hd.commented rfl)
    subst hne hcomment
    have hline : d.line = [] := List.map_eq_nil_iff.1 hd.line
    rw [hline, List.isEmpty_nil, if_pos rfl]
    exact ⟨parts, hd⟩
  · have hline : d.line.isEmpty = false := by
      rw [List.isEmpty_eq_false_iff]
      intro hline
      have hmap := hd.line
      rw [hline, List.map_nil, eq_comm, List.append_eq_nil_iff, List.map_eq_nil_iff] at hmap
      exact hne hmap.1
    rw [hline, if_neg Bool.false_ne_true]
    have hpart := hd.part (n := .unread .line (d.line ++ [ending]))
      (p := .line ⟨elements, hne, comment⟩) ?_ nofun
    · exact ⟨_, hpart.nodes, hpart.lyrics, rfl, nofun, hpart.tuplet⟩
    · rw [Node.unplaced_unread, List.map_append, hd.line, List.map_singleton, he]
      rfl

/-- A token that is not part of a note keeps the draft one of a score, and only a comment leaves a
comment at the end of the line. After a comment the token must be a newline. -/
theorem Sketched.addToken (hd : d.Sketched L parts elements comment) {t : Token}
    (ht : t.lexeme.Genuine) (hc : comment.isSome → t.lexeme = .newline)
    (h : d.addToken t = .ok d') :
    ∃ parts' elements' comment', d'.Sketched L parts' elements' comment' ∧
      (comment'.isSome → ∃ text, t.lexeme = .comment text) := by
  -- Where a comment ends the line only a newline can come.
  have hnone (hl : t.lexeme ≠ .newline) : comment = none := by
    cases comment with
    | none => rfl
    | some c => exact absurd (hc rfl) hl
  have hbare : (none : Option Comment).isSome → ∃ text, t.lexeme = .comment text := by
    intro hsome
    cases hsome
  have hother {p : Part} (hp : ∀ l, p ≠ .lyrics l) : ∀ l, p = .lyrics l → L l.text :=
    fun l hl => absurd hl (hp l)
  unfold Draft.addToken at h
  split at h
  next hl =>
    obtain ⟨_, -, h⟩ := bind_eq_ok.1 h
    cases h
    have hending : (t.node (.endOfLine t.text)).unplaced = Node.leaf (.endOfLine Text.lineEnd) := by
      rw [Token.unplaced_node, Token.text, hl]
      rfl
    obtain ⟨parts', hd'⟩ := hd.endLine hending
    exact ⟨parts', [], none, hd', hbare⟩
  next b hl =>
    obtain ⟨_, -, h⟩ := bind_eq_ok.1 h
    cases h
    obtain rfl := hnone (by simp [hl])
    exact ⟨parts, _, none, hd.element (e := .bar b) rfl (.inl rfl), hbare⟩
  next size hl =>
    split at h
    next => cases h
    next =>
      cases h
      obtain rfl := hnone (by simp [hl])
      refine ⟨parts, elements, none, ⟨hd.nodes, hd.lyrics, hd.line, hd.commented, ?_⟩, hbare⟩
      rintro _ ⟨⟩
      exact ⟨[], rfl, size.count_pos⟩
  next text hl =>
    cases h
    obtain rfl := hnone (by simp [hl])
    rw [hl] at ht
    obtain ⟨value, hvalue, rfl⟩ := ht
    have hnode := t.unplaced_node (.voiceField (Text.trimEnd (Field.written 'V' value)))
    rw [Field.trimEnd_written hvalue] at hnode
    rw [Field.trimEnd_written hvalue]
    have hvoice := hd.part (p := .voice (Value.ofText hvalue)) hnode (hother (by simp))
    exact ⟨_, elements, none, hvoice, hbare⟩
  next text hl =>
    obtain rfl := hnone (by simp [hl])
    rw [hl] at ht
    obtain ⟨rest, hrest, rfl⟩ := ht
    dsimp only at h
    -- A comment on a line without elements is a part of its own.
    split_ifs at h with hempty
    · cases h
      have hcomment := hd.part (n := t.node (.comment (Text.commented rest)))
        (p := .comment ⟨rest, hrest⟩) rfl (hother (by simp))
      exact ⟨_, elements, none, hcomment, hbare⟩
    · cases h
      refine ⟨parts, elements, some ⟨rest, hrest⟩, ⟨hd.nodes, hd.lyrics, ?_, ?_, hd.tuplet⟩,
        fun _ => ⟨_, hl⟩⟩
      · rw [List.map_append, hd.line]
        simp [Comment.node, Comment.text, Token.unplaced_node]
      · rintro - rfl
        exact hempty (by rw [List.map_eq_nil_iff.1 hd.line]; rfl)
  next => cases h

/-- A piece keeps the draft one of a score, and only a comment leaves a comment at the end of the
line. -/
theorem Sketched.addPiece (hd : d.Sketched L parts elements comment) {piece : Piece}
    (hp : piece.Genuine L)
    (hc : comment.isSome → ∃ t ∈ piece.token?, t.lexeme = .newline)
    (h : d.addPiece piece = .ok d') :
    ∃ parts' elements' comment', d'.Sketched L parts' elements' comment' ∧
      (comment'.isSome → ∃ t ∈ piece.token?, ∃ text, t.lexeme = .comment text) := by
  have hnone (hpiece : piece.token? = none) : comment = none := by
    cases comment with
    | none => rfl
    | some c =>
      obtain ⟨t, ht, -⟩ := hc rfl
      rw [hpiece] at ht
      cases ht
  match piece with
  | .durable start n =>
    obtain rfl := hnone rfl
    have hn : IsPlayed n := by
      rcases hp with ⟨note, hn⟩ | hs
      · exact .inl ⟨.note note, hn⟩
      · exact .inr hs
    obtain ⟨elements', hd'⟩ := hd.add hn h
    exact ⟨parts, elements', none, hd', nofun⟩
  | .item (.chord start n) =>
    obtain rfl := hnone rfl
    obtain ⟨c, hn⟩ := hp
    obtain ⟨elements', hd'⟩ := hd.add (.inl ⟨.chord c, hn⟩) h
    exact ⟨parts, elements', none, hd', nofun⟩
  | .item (.lyrics n) =>
    obtain rfl := hnone rfl
    obtain ⟨l, hn, hl⟩ := hp
    cases h
    exact ⟨_, elements, none, hd.part (p := .lyrics l) hn (by rintro _ ⟨⟩; exact hl), nofun⟩
  | .item (.token t) =>
    have hnewline (h : comment.isSome) : t.lexeme = .newline := by
      obtain ⟨_, ⟨⟩, hl⟩ := hc h
      exact hl
    obtain ⟨parts', elements', comment', hd', hcomment⟩ := hd.addToken hp hnewline h
    exact ⟨parts', elements', comment', hd', fun hsome => ⟨t, rfl, hcomment hsome⟩⟩

/-- All pieces of a body keep the draft one of a score. -/
theorem Sketched.run {pieces : List Piece} (hd : d.Sketched L parts elements comment)
    (hp : ∀ piece ∈ pieces, piece.Genuine L)
    (hchain : pieces.IsChain fun a b => EndsComment a.token? b.token?)
    (hc : comment.isSome → ∀ piece ∈ pieces.head?, ∃ t ∈ piece.token?, t.lexeme = .newline)
    (h : pieces.foldlM Draft.addPiece d = .ok d') :
    ∃ parts' elements' comment', d'.Sketched L parts' elements' comment' := by
  -- Between two pieces the invariant holds, and if a comment stands at the end of the line, then
  -- the next piece is a newline.
  induction pieces generalizing d parts elements comment with
  | nil =>
    cases h
    exact ⟨parts, elements, comment, hd⟩
  | cons piece pieces ih =>
    rw [List.foldlM_cons] at h
    obtain ⟨d₁, hstep, h⟩ := bind_eq_ok.1 h
    obtain ⟨hhead, hrest⟩ := List.isChain_cons.1 hchain
    obtain ⟨parts₁, elements₁, comment₁, hd₁, hcomment⟩ :=
      hd.addPiece (hp piece List.mem_cons_self) (fun hsome => hc hsome piece rfl) hstep
    refine ih hd₁ (fun q hq => hp q (List.mem_cons_of_mem piece hq)) hrest ?_ h
    intro hsome q hq
    obtain ⟨t, ht, text, hl⟩ := hcomment hsome
    exact hhead q hq t ht text hl

end Draft

/-- The body that is read is that of a score. -/
theorem readBody_score {items : List Item} {n : Node} (hi : ∀ i ∈ items, i.Genuine L)
    (hchain : items.IsChain fun a b => EndsComment a.token? b.token?)
    (h : readBody items = .ok n) :
    ∃ parts : List Part, n.unplaced = .unread .body (parts.map Part.node) ∧
      ∀ l, .lyrics l ∈ parts → L l.text := by
  obtain ⟨d, hd, h⟩ := bind_eq_ok.1 h
  have hempty : Draft.empty.Sketched L [] [] none := ⟨rfl, nofun, rfl, nofun, nofun⟩
  obtain ⟨parts, elements, comment, hsketched⟩ :=
    hempty.run (readDurables_genuine (p := .nothing) trivial hi) (readDurables_comments hchain)
      nofun hd
  split at h
  next => cases h
  next =>
    obtain ⟨_, -, h⟩ := bind_eq_ok.1 h
    cases h
    have hending : (Node.unread (.endOfLine ['\n']) []).unplaced =
        Node.leaf (.endOfLine Text.lineEnd) := rfl
    obtain ⟨parts', hparts⟩ := hsketched.endLine hending
    exact ⟨parts', by rw [Node.unplaced_unread, hparts.nodes], hparts.lyrics⟩

/-! ## The header and the whole tune -/

/-- A token of the header before the key field is an entry of a score. -/
theorem headerNode_entry {k : Token} {n : Node} (hk : k.lexeme.Genuine)
    (hkey : ∀ text, k.lexeme ≠ .keyField text) (h : headerNode k = .ok n) :
    ∃ e : Entry, n.unplaced = e.node := by
  unfold headerNode at h
  split at h
  next text hl => exact absurd hl (hkey text)
  next text hl =>
    cases h
    rw [hl] at hk
    obtain ⟨letter, value, hletter, hne, hvalue, rfl⟩ := hk
    refine ⟨.field ⟨letter, hletter, hne, Value.ofText hvalue⟩, ?_⟩
    rw [Field.trimEnd_written hvalue]
    rfl
  next text hl =>
    cases h
    rw [hl] at hk
    obtain ⟨rest, hrest, rfl⟩ := hk
    exact ⟨.comment ⟨rest, hrest⟩, rfl⟩
  next => cases h

/-- The tokens before the key field are the entries of a score. -/
theorem headerNode_entries {ks : List Token} {ns : List Node} (hk : ∀ k ∈ ks, k.lexeme.Genuine)
    (hkey : ∀ k ∈ ks, ∀ text, k.lexeme ≠ .keyField text) (h : ks.mapM headerNode = .ok ns) :
    ∃ entries : List Entry, ns.map Node.unplaced = entries.map Entry.node := by
  have hread := mapM_eq_ok.1 h
  clear h
  induction hread with
  | nil => exact ⟨[], rfl⟩
  | @cons k n ks ns hn hread ih =>
    obtain ⟨e, he⟩ := headerNode_entry (hk k List.mem_cons_self) (hkey k List.mem_cons_self) hn
    obtain ⟨entries, hentries⟩ := ih (fun k' hk' => hk k' (List.mem_cons_of_mem k hk'))
      fun k' hk' => hkey k' (List.mem_cons_of_mem k hk')
    exact ⟨e :: entries, by rw [List.map_cons, List.map_cons, he, hentries]⟩

/-- The key field is that of a score; the newline that it takes is not kept. -/
theorem headerNode_key {k : Token} {n : Node} (hk : k.lexeme.Genuine) {text : Text}
    (hkey : k.lexeme = .keyField text) (h : headerNode k = .ok n) :
    ∃ v : Value, n.unplaced = Node.leaf (.keyField v.keyText) := by
  unfold headerNode at h
  rw [hkey] at hk h
  cases h
  obtain ⟨value, hvalue, rfl | rfl⟩ := hk
  -- Without the newline, and with it.
  · refine ⟨Value.ofText hvalue, ?_⟩
    rw [Field.trimEnd_written hvalue]
    rfl
  · refine ⟨Value.ofText hvalue, ?_⟩
    have hend : Text.trimEnd (Field.written 'K' (value ++ Text.lineEnd)) =
        Text.trimEnd (Field.written 'K' value) := Text.trimEnd_lineEnd (Field.written 'K' value)
    rw [hend, Field.trimEnd_written hvalue]
    rfl

/-- The tokens of the header are those at the front. -/
theorem span_header {header body : List Token} (hh : ∀ k ∈ header, k.region = .header)
    (hb : ∀ k ∈ body, k.region ≠ .header) :
    (header ++ body).span (fun k => decide (k.region = .header)) = (header, body) := by
  have hfront : header.dropWhile (fun k => decide (k.region = .header)) = [] :=
    List.dropWhile_eq_nil_iff.2 fun k hk => decide_eq_true (hh k hk)
  have hnone : body.takeWhile (fun k => decide (k.region = .header)) = [] ∧
      body.dropWhile (fun k => decide (k.region = .header)) = body := by
    cases body with
    | nil => exact ⟨rfl, rfl⟩
    | cons k body =>
      have hk := decide_eq_false (hb k List.mem_cons_self)
      rw [List.takeWhile_cons, List.dropWhile_cons, hk]
      exact ⟨rfl, rfl⟩
  rw [List.span_eq_takeWhile_dropWhile, List.takeWhile_append_of_pos
    fun k hk => decide_eq_true (hh k hk), List.dropWhile_append, hfront, hnone.1, hnone.2]
  simp

section

variable {source : Text} {header body : List Token} (ht : tokens source = header ++ body)
  (hh : ∀ k ∈ header, k.region = .header) (hb : ∀ k ∈ body, k.region ≠ .header)
include ht hh hb

/-- The stages of reading a tune whose tokens are those of the header and those after it. The body
is read only if there are tokens for it. -/
theorem readTune_eq : readTune source =
    (groupFrom body).2.mapM Group.read >>= fun items =>
      (if body.isEmpty then .ok [] else (readBody items).map ([·])) >>= fun bodies =>
        header.mapM headerNode >>= fun fields =>
          .ok (.unread .document (.unread .header fields :: bodies)) := by
  unfold readTune
  rw [ht, span_header hh hb]
  refine bind_congr fun items => ?_
  split_ifs <;> rfl

/-- A tune is read when each stage is. -/
theorem readTune_eq_ok {n : Node} : readTune source = .ok n ↔
    ∃ items bodies fields, (groupFrom body).2.mapM Group.read = .ok items ∧
      (if body.isEmpty then .ok [] else (readBody items).map ([·])) = .ok bodies ∧
      header.mapM headerNode = .ok fields ∧
      n = .unread .document (.unread .header fields :: bodies) := by
  rw [readTune_eq ht hh hb, bind_eq_ok]
  refine exists_congr fun items => ?_
  constructor
  · rintro ⟨hitems, h⟩
    obtain ⟨bodies, hbodies, h⟩ := bind_eq_ok.1 h
    obtain ⟨fields, hfields, h⟩ := bind_eq_ok.1 h
    cases h
    exact ⟨bodies, fields, hitems, hbodies, hfields, rfl⟩
  · rintro ⟨bodies, fields, hitems, hbodies, hfields, rfl⟩
    exact ⟨hitems, bind_eq_ok.2 ⟨bodies, hbodies, bind_eq_ok.2 ⟨fields, hfields, rfl⟩⟩⟩

end

/-- The body of a tune, which is read if there are tokens for it, is that of a score. -/
theorem bodies_score {header body : List Token} {items : List Item} {bodies : List Node}
    (hgroups : ∀ g ∈ (groupFrom (header ++ body)).2, g.Genuine L)
    (hchain : (header ++ body).IsChain Token.EndsLine) (hbody : ∀ k ∈ body, k.region ≠ .header)
    (hitems : (groupFrom body).2.mapM Group.read = .ok items)
    (hbodies : (if body.isEmpty then .ok [] else (readBody items).map ([·])) = .ok bodies) :
    ∃ parts : Option (List Part),
      bodies.map Node.unplaced = (parts.map fun ps => .unread .body (ps.map Part.node)).toList ∧
        (body = [] → parts = none) ∧ ∀ ps ∈ parts, ∀ l, .lyrics l ∈ ps → L l.text := by
  split_ifs at hbodies with hempty
  · cases hbodies
    exact ⟨none, rfl, fun _ => rfl, nofun⟩
  · obtain ⟨n, hread, hbodies⟩ := bind_eq_ok.1 hbodies
    cases hbodies
    -- The groups of the body are the last groups of the source.
    have hsuffix := groupFrom_suffix header body
    have hcomments := groupFrom_comments (hchain.suffix (List.suffix_append _ _)) hbody
    obtain ⟨hitems, hcomments⟩ :=
      mapM_read (fun g hg => hgroups g (hsuffix.subset hg)) hcomments hitems
    obtain ⟨ps, hn, hps⟩ := readBody_score hitems hcomments hread
    refine ⟨some ps, by rw [List.map_singleton, hn]; rfl, fun hnil => ?_, ?_⟩
    · rw [hnil] at hempty
      exact absurd rfl hempty
    · rintro _ ⟨⟩
      exact hps

/-- A tune that is read is the tree of a score, up to its places. The lines of lyrics of the score
have texts of the source. -/
theorem readTune_score {source : Text} {document : Node} (h : readTune source = .ok document)
    (hlyrics : LyricTexts L source (tokens source)) :
    ∃ s : Score, document.unplaced = s.node ∧
      ∀ parts ∈ s.body, ∀ l, .lyrics l ∈ parts → L l.text := by
  obtain ⟨fields, key, body, ht, hfields, hkey, hbody, hkeyed⟩ := tokensFrom_header 0 source
  have hgenuine := tokensFrom_genuine .header 0 source
  have hgroups : ∀ g ∈ (groupFrom (tokens source)).2, g.Genuine L :=
    groupFrom_genuine source .header 0 hlyrics
  have hchain := tokensFrom_comments .header 0 source
  unfold tokens at hgroups hlyrics
  rw [ht] at hgenuine hgroups hchain
  have hheader : ∀ k ∈ fields ++ key.toList, k.region = .header := by
    intro k hk
    rcases List.mem_append.1 hk with hk | hk
    · exact (hfields k hk).1
    · exact (hkey k (Option.mem_toList.1 hk)).1
  obtain ⟨items, bodies, nodes, hitems, hbodies, hnodes, rfl⟩ :=
    (readTune_eq_ok ht hheader hbody).1 h
  rw [List.mapM_append] at hnodes
  obtain ⟨entryNodes, hentries, hnodes⟩ := bind_eq_ok.1 hnodes
  obtain ⟨keyNodes, hkeys, hnodes⟩ := bind_eq_ok.1 hnodes
  cases hnodes
  obtain ⟨entries, hentryNodes⟩ := headerNode_entries
    (fun k hk => hgenuine k (List.mem_append_left _ (List.mem_append_left _ hk)))
    (fun k hk => (hfields k hk).2) hentries
  obtain ⟨parts, hbody, hnone, hlyrics⟩ := bodies_score hgroups hchain hbody hitems hbodies
  -- The key field, without which there is no body.
  cases key with
  | none =>
    cases hkeys
    refine ⟨⟨entries, none, parts, fun _ => hnone (hkeyed rfl)⟩, ?_, hlyrics⟩
    rw [Node.unplaced_unread, List.map_cons, hbody, Node.unplaced_unread, List.map_append,
      hentryNodes]
    rfl
  | some k =>
    obtain ⟨keyNode, hkeyNode, hkeys⟩ := bind_eq_ok.1 hkeys
    cases hkeys
    obtain ⟨-, text, hl⟩ := hkey k rfl
    obtain ⟨v, hv⟩ := headerNode_key
      (hgenuine k (List.mem_append_left _ (List.mem_append_right _ List.mem_cons_self))) hl hkeyNode
    refine ⟨⟨entries, some v, parts, nofun⟩, ?_, hlyrics⟩
    rw [Node.unplaced_unread, List.map_cons, hbody, Node.unplaced_unread, List.map_append,
      hentryNodes]
    refine congrArg (fun n => Node.unread .document (.unread .header (_ ++ [n]) :: _)) ?_
    exact hv

end SingAlong
