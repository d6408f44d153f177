import SingAlong.Proofs.Atoms
import SingAlong.Proofs.TrailingBlanks
import SingAlong.Proofs.Uncommented

/-!
# Reading a body without its comments

The tokens of a body are read in stages, and each stage makes the same of the tokens without the
comments, except that no comments are among what it makes (`groupFrom_dropComments`,
`readDurables_dropComments`, `Draft.Uncommented`). So the body that is read has the same voices
(`readBody_dropComments`), since a comment is in none.

Two facts about comments carry this. A newline follows a comment of the body, so no group and no
note goes on after it. And a comment is not the first element of its line, so a line stays when its
comments are dropped.
-/

namespace SingAlong

/-! ## Groups and items -/

/-- Tokens without the comments among them. -/
def Token.dropComments (ts : List Token) : List Token :=
  ts.filter fun k => !k.lexeme.isComment

/-- The group with the comments inside it dropped; there are none in a chord. -/
def Group.dropComments : Group → Group
  | .lyrics opening inside => .lyrics opening (Token.dropComments inside)
  | g => g

/-- Is it a token that is a comment? -/
def isCommentToken (t : Option Token) : Bool :=
  t.any fun k => k.lexeme.isComment

section

variable {ts : List Token}

/-- Comments are no part of a chord. -/
theorem Token.Taken.not_comment {k : Token} (hk : k.Taken) (hr : k.region = .chord) :
    k.lexeme.isComment = false := by
  obtain ⟨r, hhas, hm⟩ := hk
  cases hl : k.lexeme with
  | comment text =>
    rw [hl] at hhas hm
    rw [hr] at hm
    cases r with
    | chord => cases hhas
    | _ => cases hm
  | _ => rfl

/-- A comment of the body comes after all groups that are opened before it. -/
theorem groupFrom_after_comment {k : Token} {rest : List Token} (hk : k.lexeme.isComment)
    (hr : k.region = .body) (hhead : ∀ k' ∈ rest.head?, k.EndsLine k') :
    (groupFrom rest).1 = [] := by
  refine groupFrom_eq_nil fun k' hk' hinner => ?_
  obtain ⟨text, hl⟩ := Lexeme.exists_of_isComment hk
  have hbody := (hhead k' hk' text hl hr).2
  rcases hinner.1 with h | h <;> rw [hbody] at h <;> cases h

/-- There are no comments inside a chord. -/
theorem dropComments_inChord (hchain : ts.IsChain Token.Nested) (ht : ∀ k ∈ ts, k.Taken)
    (hfirst : ∀ k ∈ ts.head?, k.Inner → k.region = .chord) :
    Token.dropComments (groupFrom ts).1 = (groupFrom ts).1 := by
  refine List.filter_eq_self.2 fun k hk => ?_
  have hinside := groupFrom_inChord hchain ht hfirst
  have hregion : k.inChord := List.mem_takeWhile_imp (hinside ▸ hk)
  rw [Token.inChord, Bool.and_eq_true, decide_eq_true_eq] at hregion
  rw [(ht k (groupFrom_subset ts k hk)).not_comment hregion.1]
  rfl

/-- A token stays unless it is a comment. -/
theorem Token.dropComments_cons {k : Token} (hk : k.lexeme.isComment = false) (ts : List Token) :
    Token.dropComments (k :: ts) = k :: Token.dropComments ts :=
  List.filter_cons_of_pos (by rw [hk]; rfl)

/-- A comment is dropped. -/
theorem Token.dropComments_comment {k : Token} (hk : k.lexeme.isComment) (ts : List Token) :
    Token.dropComments (k :: ts) = Token.dropComments ts :=
  List.filter_cons_of_neg (by rw [hk]; nofun)

/-- Without the comments the groups are those without comments inside or as groups. -/
theorem groupFrom_dropComments (hchain : ts.IsChain Token.Nested)
    (ht : ∀ k ∈ ts, k.Taken ∧ k.region ≠ .header) (hends : ts.IsChain Token.EndsLine) :
    groupFrom (Token.dropComments ts) = (Token.dropComments (groupFrom ts).1,
      ((groupFrom ts).2.filter fun g => !isCommentToken g.token?).map Group.dropComments) := by
  induction ts with
  | nil => rfl
  | cons k rest ih =>
    obtain ⟨⟨htaken, hheader⟩, hrest⟩ := List.forall_mem_cons.1 ht
    obtain ⟨hnested, htail⟩ := List.isChain_cons.1 hchain
    obtain ⟨hhead, hends⟩ := List.isChain_cons.1 hends
    have hgroups := ih htail hrest hends
    rcases groupFrom_cons k rest with ⟨hl, heq⟩ | ⟨hl, heq⟩ | ⟨hinner, heq⟩ | ⟨hc, hly, heq⟩
    · have hinside := dropComments_inChord htail (fun k' hk' => (hrest k' hk').1)
        fun k' hk' hinner => (hnested k' hk' hinner).trans (htaken.chord hl)
      rw [heq, Token.dropComments_cons (by rw [hl]; rfl), groupFrom, hl, hgroups, hinside]
      rfl
    · rw [heq, Token.dropComments_cons (by rw [hl]; rfl), groupFrom, hl, hgroups]
      rfl
    · rw [heq]
      by_cases hl : k.lexeme.isComment
      · rw [Token.dropComments_comment hl, Token.dropComments_comment hl, hgroups]
      · rw [Bool.not_eq_true] at hl
        rw [Token.dropComments_cons hl, Token.dropComments_cons hl, groupFrom_cons_inner hinner,
          hgroups]
    · have htoken : isCommentToken (Group.single k).token? = k.lexeme.isComment := rfl
      rw [heq]
      by_cases hl : k.lexeme.isComment
      · have hbody : k.region = .body := Token.body_of_single hheader hc hly
        rw [Token.dropComments_comment hl, hgroups, groupFrom_after_comment hl hbody hhead]
        refine congrArg (Prod.mk _) (congrArg (List.map _) ?_)
        exact (List.filter_cons_of_neg (by rw [htoken, hl]; exact Bool.false_ne_true)).symm
      · rw [Bool.not_eq_true] at hl
        rw [Token.dropComments_cons hl,
          groupFrom_cons_single (mt htaken.chord hc) (mt htaken.lyrics hly) hc hly, hgroups]
        refine congrArg (Prod.mk _) ?_
        rw [List.filter_cons_of_pos (by rw [htoken, hl]; rfl)]
        rfl

/-- The comments inside a line of lyrics are not read. -/
theorem Group.read_dropComments (g : Group) : g.dropComments.read = g.read := by
  cases g with
  | lyrics opening inside =>
    have hread : (Token.dropComments inside).filterMap lyricNode? =
        inside.filterMap lyricNode? := by
      unfold Token.dropComments
      rw [List.filterMap_filter]
      refine List.filterMap_congr fun k _ => ?_
      unfold lyricNode?
      cases k.lexeme <;> rfl
    have hline : readLyrics opening (Token.dropComments inside) = readLyrics opening inside := by
      unfold readLyrics
      rw [hread]
    exact congrArg (fun n => Except.ok (Item.lyrics n)) hline
  | _ => rfl

end

/-- A stage for each entry of a list, without the entries that have a property that the stage keeps;
for these it never fails. -/
theorem mapM_filter {α β ε : Type} {f : α → Except ε β} {p : α → Bool} {q : β → Bool}
    (hkeeps : ∀ a b, f a = .ok b → q b = p a) (hdropped : ∀ a, p a = false → ∃ b, f a = .ok b)
    (xs : List α) : (xs.filter p).mapM f = (xs.mapM f).map (List.filter q) := by
  induction xs with
  | nil => rfl
  | cons a xs ih =>
    rw [List.mapM_cons]
    by_cases ha : p a
    · rw [List.filter_cons_of_pos ha, List.mapM_cons, ih]
      cases hfa : f a with
      | error e => rfl
      | ok b =>
        have hb := hkeeps a b hfa
        cases xs.mapM f with
        | error e => rfl
        | ok bs => exact congrArg Except.ok (List.filter_cons_of_pos (by rw [hb, ha])).symm
    · rw [List.filter_cons_of_neg ha, ih]
      rw [Bool.not_eq_true] at ha
      obtain ⟨b, hfa⟩ := hdropped a ha
      have hb := hkeeps a b hfa
      rw [hfa]
      cases xs.mapM f with
      | error e => rfl
      | ok bs =>
        exact congrArg Except.ok (List.filter_cons_of_neg (by rw [hb, ha]; nofun)).symm

/-- Without the comments the items are those other than comments. -/
theorem mapM_read_dropComments {ts : List Token} (hchain : ts.IsChain Token.Nested)
    (ht : ∀ k ∈ ts, k.Taken ∧ k.region ≠ .header) (hends : ts.IsChain Token.EndsLine) :
    (groupFrom (Token.dropComments ts)).2.mapM Group.read =
      ((groupFrom ts).2.mapM Group.read).map
        (List.filter fun i => !isCommentToken i.token?) := by
  have hread : Group.read ∘ Group.dropComments = Group.read := funext Group.read_dropComments
  rw [groupFrom_dropComments hchain ht hends, List.mapM_map, hread]
  refine mapM_filter (fun g i hg => by rw [Group.token?_read hg]) (fun g hg => ?_) _
  cases g with
  | single t => exact ⟨_, rfl⟩
  | _ => cases hg

/-! ## Notes and rests -/

/-- Where no part of a note comes next, an accidental is left without its note. -/
theorem readDurables_incomplete {p : Pending} {e : SourceError} {rest : List Item}
    (hp : p.fault? = some e) (hrest : ∀ i ∈ rest.head?, i.isMusic = false) :
    readDurables p rest = ⟨[], some e⟩ := by
  cases rest with
  | nil =>
    cases p with
    | accidental t a => exact congrArg (Reading.mk []) hp
    | _ => cases hp
  | cons i rest => exact readDurables_lone (hrest i rfl) hp

/-- An item that is a comment. -/
theorem exists_comment {i : Item} (h : isCommentToken i.token?) :
    ∃ t text, i = .token t ∧ t.lexeme = .comment text := by
  cases i with
  | token t =>
    obtain ⟨text, hl⟩ := Lexeme.exists_of_isComment h
    exact ⟨t, text, rfl, hl⟩
  | _ => cases h

/-- No part of a note comes next after a comment, also without the comments: the newline after the
comment is kept. -/
theorem isMusic_after_comment {t : Token} {text : Text} (hl : t.lexeme = .comment text)
    {rest : List Item} (hrest : ∀ i ∈ rest.head?, EndsComment (some t) i.token?) :
    ∀ i ∈ (rest.filter fun i => !isCommentToken i.token?).head?, i.isMusic = false := by
  cases rest with
  | nil => exact nofun
  | cons i rest =>
    obtain ⟨t', ht', hnewline⟩ := hrest i rfl t rfl text hl
    obtain rfl : i = .token t' := by cases i <;> cases ht'; rfl
    have hkept : isCommentToken (Item.token t').token? = false := by
      rw [Item.token?, isCommentToken, Option.any_some, hnewline]
      rfl
    rw [List.filter_cons_of_pos (by rw [hkept]; rfl)]
    rintro _ ⟨⟩
    rw [Item.isMusic, hnewline]
    rfl

namespace Pending

/-- The note or rest that is complete is no comment. -/
theorem complete_dropComments (p : Pending) :
    (p.complete.filter fun piece => !isCommentToken piece.token?) = p.complete := by
  cases p <;> rfl

/-- The pieces that a token completes are no comments. -/
theorem take_dropComments (p : Pending) (t : Token) :
    ((p.take t).1.filter fun piece => !isCommentToken piece.token?) = (p.take t).1 := by
  rcases p.take_done t with heq | heq
  · rw [heq, complete_dropComments]
  · rw [heq]
    rfl

end Pending

/-- Without the comments, notes and rests are put together in the same way: a newline follows a
comment, so no note goes on after it. -/
theorem readDurables_dropComments {p : Pending} {items : List Item}
    (h : items.IsChain fun a b => EndsComment a.token? b.token?) :
    readDurables p (items.filter fun i => !isCommentToken i.token?) =
      ⟨(readDurables p items).pieces.filter fun piece => !isCommentToken piece.token?,
        (readDurables p items).fault⟩ := by
  induction items generalizing p with
  | nil => exact congrArg (Reading.mk · _) p.complete_dropComments.symm
  | cons i rest ih =>
    obtain ⟨hhead, htail⟩ := List.isChain_cons.1 h
    by_cases hcomment : isCommentToken i.token?
    · obtain ⟨t, text, rfl, hl⟩ := exists_comment hcomment
      have hother : (Item.token t).isMusic = false := by rw [Item.isMusic, hl]; rfl
      have hrest := isMusic_after_comment hl hhead
      -- What follows the comment is no music, so that nothing goes on when the comment is dropped.
      have hfresh : Fresh _ := fun i hi => Item.goesOn_of_not_isMusic (hrest i hi)
      rw [List.filter_cons_of_neg (by rw [hcomment]; exact Bool.false_ne_true)]
      cases hp : p.fault? with
      | some e =>
        rw [readDurables_lone hother hp, readDurables_incomplete hp hrest]
        rfl
      | none =>
        rw [readDurables_item hother hp, readDurables_fresh hp hfresh, ih htail,
          List.filter_append, p.complete_dropComments, List.filter_cons_of_neg]
        rw [Piece.token?, hcomment]
        exact Bool.false_ne_true
    · rw [Bool.not_eq_true] at hcomment
      rw [List.filter_cons_of_pos (by rw [hcomment]; rfl)]
      by_cases hm : i.isMusic
      · obtain ⟨t, rfl⟩ := Item.exists_token hm
        have hdone := p.take_dropComments t
        cases htake : p.take t with
        | mk done result =>
          rw [htake] at hdone
          cases result with
          | error e =>
            rw [readDurables_unexpected hm htake, readDurables_unexpected hm htake, hdone]
          | ok p' =>
            rw [readDurables_music hm htake, readDurables_music hm htake, ih htail,
              List.filter_append, hdone]
      · rw [Bool.not_eq_true] at hm
        cases hp : p.fault? with
        | some e =>
          rw [readDurables_lone hm hp, readDurables_lone hm hp]
          rfl
        | none =>
          rw [readDurables_item hm hp, readDurables_item hm hp, ih htail, List.filter_append,
            p.complete_dropComments, List.filter_cons_of_pos]
          rw [Piece.token?, hcomment]
          rfl

/-! ## The body -/

/-- Nodes without the comments among them. -/
def Node.dropComments (ns : List Node) : List Node :=
  ns.filter fun n => !n.label.isComment

/-- A line of music without the comments in it; other nodes have none. -/
def Node.uncommented (n : Node) : Node :=
  if n.label = .line then .unread .line (Node.dropComments n.children) else n

/-- A node that stays when comments are dropped: it is no comment, and no line, which may have
comments in it. -/
def Node.IsKept (n : Node) : Prop :=
  n.label.isComment = false ∧ n.label ≠ .line

/-- Bodies as far as they are read, with comments and without. The first element of a line is no
comment, so a line stays when its comments are dropped. -/
structure Draft.Uncommented (d d' : Draft) : Prop where
  nodes : d'.nodes = (Node.dropComments d.nodes).map Node.uncommented
  line : d'.line = Node.dropComments d.line
  first : ∀ n ∈ d.line.head?, n.label.isComment = false
  tuplet : d'.tuplet = d.tuplet

/-- A node that is no comment stays. -/
theorem Node.dropComments_concat (ns : List Node) {n : Node} (hn : n.label.isComment = false) :
    Node.dropComments (ns ++ [n]) = Node.dropComments ns ++ [n] := by
  unfold Node.dropComments
  rw [List.filter_append, List.filter_cons_of_pos (by rw [hn]; rfl)]
  rfl

/-- A comment is dropped. -/
theorem Node.dropComments_comment (ns : List Node) {n : Node} (hn : n.label.isComment) :
    Node.dropComments (ns ++ [n]) = Node.dropComments ns := by
  unfold Node.dropComments
  rw [List.filter_append, List.filter_cons_of_neg (by rw [hn]; nofun)]
  exact List.append_nil _

namespace Draft.Uncommented

variable {d d' : Draft}

/-- Both lines are empty or both are not. -/
theorem isEmpty_line (h : d.Uncommented d') : d'.line.isEmpty = d.line.isEmpty := by
  rw [h.line]
  have hfirst := h.first
  cases hline : d.line with
  | nil => rfl
  | cons n ns =>
    rw [hline] at hfirst
    rw [Node.dropComments, List.filter_cons_of_pos (by rw [hfirst n rfl]; rfl)]
    rfl

/-- A tuplet is incomplete in both or in neither. -/
theorem checkTuplet_eq (h : d.Uncommented d') : d'.checkTuplet = d.checkTuplet := by
  unfold Draft.checkTuplet
  rw [h.tuplet]

/-- A node that is complete at once is added to both. -/
theorem addNode (h : d.Uncommented d') {n : Node} (hn : n.IsKept) :
    Uncommented { d with nodes := d.nodes ++ [n] } { d' with nodes := d'.nodes ++ [n] } where
  nodes := by
    have hsame : n.uncommented = n := if_neg hn.2
    rw [h.nodes, Node.dropComments_concat _ hn.1, List.map_append, List.map_singleton, hsame]
  line := h.line
  first := h.first
  tuplet := h.tuplet

/-- An element is added to both lines. -/
theorem addElement (h : d.Uncommented d') {n : Node} (hn : n.label.isComment = false)
    {tuplet tuplet' : Option OpenTuplet} (ht : tuplet' = tuplet) :
    Uncommented { d with line := d.line ++ [n], tuplet }
      { d' with line := d'.line ++ [n], tuplet := tuplet' } where
  nodes := h.nodes
  line := by rw [h.line, Node.dropComments_concat _ hn]
  first := by
    have hfirst := h.first
    cases hline : d.line with
    | nil =>
      rintro _ ⟨⟩
      exact hn
    | cons m ms =>
      rw [hline] at hfirst
      exact hfirst
  tuplet := ht

/-- The end of a line is added to both, if they have any elements. -/
theorem endLine (h : d.Uncommented d') {n : Node} (hn : n.label.isComment = false) :
    (d.endLine n).Uncommented (d'.endLine n) := by
  have hempty := h.isEmpty_line
  unfold Draft.endLine
  rw [hempty]
  split_ifs
  · exact h
  · refine ⟨?_, rfl, nofun, h.tuplet⟩
    have hline : (Node.unread .line (d.line ++ [n])).uncommented =
        .unread .line (Node.dropComments (d.line ++ [n])) := if_pos rfl
    rw [h.nodes, Node.dropComments_concat _ rfl, List.map_append, List.map_singleton, hline,
      Node.dropComments_concat _ hn, h.line]

/-- A note, rest or chord is added to both. -/
theorem add (h : d.Uncommented d') {n : Node} (hn : n.label.isComment = false) (start : Nat) :
    Agrees Uncommented (d.add start n) (d'.add start n) := by
  have htuplet := h.tuplet
  unfold Draft.add
  rw [htuplet]
  cases d.tuplet with
  | none => exact .ok (h.addElement hn rfl)
  | some t =>
    dsimp only
    split_ifs
    · exact .ok (h.addElement rfl rfl)
    · exact .ok ⟨h.nodes, h.line, h.first, rfl⟩
    · exact .error _ _

/-- A comment is added to one of both only. -/
theorem addComment (h : d.Uncommented d') {t : Token} {text : Text}
    (hl : t.lexeme = .comment text) : ∃ e, d.addToken t = .ok e ∧ e.Uncommented d' := by
  have hcomment : (t.node (.comment text)).label.isComment := rfl
  unfold Draft.addToken
  rw [hl]
  dsimp only
  by_cases hempty : d.line.isEmpty
  · refine ⟨_, if_pos hempty, ⟨?_, h.line, h.first, h.tuplet⟩⟩
    rw [h.nodes, Node.dropComments_comment _ hcomment]
  · refine ⟨_, if_neg hempty, ⟨h.nodes, ?_, ?_, h.tuplet⟩⟩
    · rw [h.line, Node.dropComments_comment _ hcomment]
    · obtain ⟨m, ms, hline⟩ := List.exists_cons_of_ne_nil (mt List.isEmpty_iff.2 hempty)
      have hfirst := h.first
      rw [hline] at hfirst ⊢
      exact hfirst

/-- Another token is added to both. -/
theorem addToken (h : d.Uncommented d') {t : Token} (ht : t.lexeme.isComment = false) :
    Agrees Uncommented (d.addToken t) (d'.addToken t) := by
  unfold Draft.addToken
  cases hl : t.lexeme with
  | newline =>
    rw [h.checkTuplet_eq]
    exact (Agrees.refl _).bind fun _ _ _ => .ok (h.endLine rfl)
  | bar b =>
    rw [h.checkTuplet_eq]
    exact (Agrees.refl _).bind fun _ _ _ => .ok (h.addElement rfl h.tuplet)
  | tuplet size =>
    rw [h.tuplet]
    cases d.tuplet with
    | some _ => exact .error _ _
    | none => exact .ok ⟨h.nodes, h.line, h.first, rfl⟩
  | voiceField text => exact .ok (h.addNode ⟨rfl, nofun⟩)
  | comment text =>
    rw [hl] at ht
    cases ht
  | _ => exact .error _ _

/-- A piece other than a comment is added to both. -/
theorem addPiece {L : Text → Prop} (h : d.Uncommented d') {piece : Piece} (hp : piece.Genuine L)
    (hcomment : isCommentToken piece.token? = false) :
    Agrees Uncommented (d.addPiece piece) (d'.addPiece piece) := by
  have hlabel {n m : Node} (hn : n.unplaced = m) : n.label = m.label := by
    rw [← hn, n.label_unplaced]
  match piece with
  | .durable start n =>
    refine h.add ?_ start
    rcases hp with ⟨note, hn⟩ | ⟨s, hn⟩ <;> rw [hlabel hn] <;> rfl
  | .item (.token t) => exact h.addToken hcomment
  | .item (.chord start n) =>
    obtain ⟨c, hn⟩ := hp
    exact h.add (by rw [hlabel hn]; rfl) start
  | .item (.lyrics n) =>
    obtain ⟨l, hn, -⟩ := hp
    exact .ok (h.addNode (by rw [Node.IsKept, hlabel hn]; exact ⟨rfl, nofun⟩))

/-- Pieces are added to both, but comments to one of them only. -/
theorem foldlM {L : Text → Prop} (h : d.Uncommented d') {pieces : List Piece}
    (hp : ∀ piece ∈ pieces, piece.Genuine L) :
    Agrees Uncommented (pieces.foldlM Draft.addPiece d)
      ((pieces.filter fun piece => !isCommentToken piece.token?).foldlM Draft.addPiece d') := by
  induction pieces generalizing d d' with
  | nil => exact .ok h
  | cons piece pieces ih =>
    obtain ⟨hpiece, hpieces⟩ := List.forall_mem_cons.1 hp
    by_cases hcomment : isCommentToken piece.token?
    · rw [List.filter_cons_of_neg (by rw [hcomment]; nofun), List.foldlM_cons]
      obtain ⟨i, rfl⟩ : ∃ i, piece = .item i := by
        cases piece <;> first | exact ⟨_, rfl⟩ | cases hcomment
      obtain ⟨t, text, rfl, hl⟩ := exists_comment hcomment
      obtain ⟨e, he, hnext⟩ := h.addComment hl
      rw [show d.addPiece (.item (.token t)) = .ok e from he]
      exact ih hnext hpieces
    · rw [Bool.not_eq_true] at hcomment
      rw [List.filter_cons_of_pos (by rw [hcomment]; rfl), List.foldlM_cons, List.foldlM_cons]
      exact (h.addPiece hpiece hcomment).bind fun e e' he => ih he hpieces

end Draft.Uncommented

/-- Comments do not matter to the voices. -/
theorem splitVoices_dropComments (current : Text) (voices : List (Text × VoiceParts))
    (ns : List Node) :
    splitVoices current voices ((Node.dropComments ns).map Node.uncommented) =
      splitVoices current voices ns := by
  induction ns generalizing current voices with
  | nil => rfl
  | cons n ns ih =>
    by_cases hcomment : n.label.isComment
    · rw [splitVoices_comment hcomment, ← ih, Node.dropComments,
        List.filter_cons_of_neg (by rw [hcomment]; nofun)]
      rfl
    · rw [Bool.not_eq_true] at hcomment
      rw [Node.dropComments, List.filter_cons_of_pos (by rw [hcomment]; rfl), List.map_cons]
      by_cases hl : n.label = .line
      · have hline : n.uncommented = .unread .line (Node.dropComments n.children) := if_pos hl
        have helements : Node.dropComments (Node.dropComments n.children) =
            Node.dropComments n.children := by
          unfold Node.dropComments
          rw [List.filter_filter]
          simp only [Bool.and_self]
        rw [hline]
        unfold splitVoices
        rw [hl]
        change splitVoices _ (VoiceParts.add _ (Node.dropComments (Node.dropComments _)) _ _) _ = _
        rw [helements]
        exact ih _ _
      · rw [Node.uncommented, if_neg hl]
        unfold splitVoices
        cases n.label <;> exact ih _ _

/-- Without the comments the body is read with the same voices. -/
theorem readBody_dropComments {L : Text → Prop} {items : List Item}
    (hi : ∀ i ∈ items, i.Genuine L)
    (hchain : items.IsChain fun a b => EndsComment a.token? b.token?) :
    Agrees (fun body body' => body.voiceParts = body'.voiceParts) (readBody items)
      (readBody (items.filter fun i => !isCommentToken i.token?)) := by
  have hempty : Draft.empty.Uncommented Draft.empty := ⟨rfl, rfl, nofun, rfl⟩
  have hdrafts := hempty.foldlM (readDurables_genuine (p := .nothing) trivial hi)
  unfold readBody
  rw [readDurables_dropComments hchain]
  refine hdrafts.bind fun d d' hd => ?_
  dsimp only
  cases (readDurables .nothing items).fault with
  | some e => exact .error _ _
  | none =>
    dsimp only
    rw [hd.checkTuplet_eq]
    refine (Agrees.refl _).bind fun _ _ _ => .ok ?_
    have hnodes := (hd.endLine (n := .unread (.endOfLine ['\n']) []) rfl).nodes
    unfold Node.voiceParts Node.unread Node.children
    dsimp only
    unfold Node.unread at hnodes
    rw [hnodes, splitVoices_dropComments]

end SingAlong
