import SingAlong.Proofs.Body
import SingAlong.Proofs.Grammar
import SingAlong.Proofs.Positions

/-!
# The sources that are read as tunes

A source is read as a tune exactly when its tokens satisfy the grammar, and every other source has
a fault at a position in it (`readTune_iff_grammatical`).

Each stage of reading succeeds on a condition of the grammar: putting notes and rests together on
what can come next in them (`readDurables_fault`), chords on their lexemes (`readChord_iff`), and
the body on the roles of its items (`readBody_iff`). What the stages see of the tokens, the parts of
notes and the roles, is what the grammar sees, since tokens inside a chord or a line of lyrics come
after the one that opens it (`tokensFrom_nested`).
-/

namespace SingAlong

/-! ## Where lexemes come from -/

/-- The token has a lexeme of the region that it was read in, and the region that this gives. -/
def Token.Taken (k : Token) : Prop :=
  ∃ r : Region, r.has k.lexeme ∧ k.region = (r.move k.lexeme).1

/-- Every token has a lexeme of its region. -/
theorem tokensFrom_taken (r : Region) (pos : Nat) (t : Text) :
    ∀ k ∈ tokensFrom r pos 0 t, k.Taken := by
  refine tokensFrom_induction (motive := fun _ _ _ ts => ∀ k ∈ ts, k.Taken) ?nil ?lexeme ?blanks
    r pos t
  case nil =>
    intro r pos k hk
    cases hk
  case lexeme =>
    rintro r pos l own next rest hnext ⟨-, -, -, ⟨hl, hm⟩, -⟩ ih
    exact List.forall_mem_cons.2 ⟨⟨_, hl, (Prod.mk.inj hm).1⟩, ih⟩
  case blanks =>
    intro r pos b rest hnext hb r' hr' ih
    exact ih

namespace Token

variable {k : Token}

/-- A token of the header or the body was read there. -/
theorem Taken.has_region (hk : k.Taken) (hr : k.region = .header ∨ k.region = .body) :
    k.region.has k.lexeme := by
  obtain ⟨r, hhas, hm⟩ := hk
  have hsame : k.region = r := by
    rw [hm] at hr ⊢
    unfold Region.move at hr ⊢
    split at hr <;> simp_all
  rwa [hsame]

/-- A bracket opens a chord. -/
theorem Taken.chord (hk : k.Taken) (hl : k.lexeme = .chordStart) : k.region = .chord := by
  obtain ⟨r, hr, hm⟩ := hk
  rw [hl] at hr hm
  cases r <;> first | exact hm | cases hr

/-- Lyrics are opened in their own region. -/
theorem Taken.lyrics (hk : k.Taken) (hl : k.lexeme = .lyricStart) : k.region = .lyric := by
  obtain ⟨r, hr, hm⟩ := hk
  rw [hl] at hr hm
  cases r <;> first | exact hm | cases hr

/-- In the body only unknown text has no other role. -/
theorem Taken.unknown (hk : k.Taken) (hb : k.region = .body)
    (hrole : k.lexeme.role? = some .unknown) : ∃ text, k.lexeme = .unknown text := by
  have hhas := hk.has_region (.inr hb)
  rw [hb] at hhas
  cases hl : k.lexeme with
  | unknown text => exact ⟨text, rfl⟩
  | chordStart => exact absurd (hb.symm.trans (hk.chord hl)) nofun
  | lyricStart => exact absurd (hb.symm.trans (hk.lyrics hl)) nofun
  | keyField | field | chordEnd | lyric =>
    rw [hl] at hhas
    cases hhas
  | _ =>
    rw [hl] at hrole
    cases hrole

/-- A token of the header is read as an element unless it is unknown text. -/
theorem Taken.header (hk : k.Taken) (hh : k.region = .header) :
    (∃ n, headerNode k = .ok n) ↔ ∀ text, k.lexeme ≠ .unknown text := by
  have hhas := hk.has_region (.inl hh)
  rw [hh] at hhas
  unfold headerNode
  cases hl : k.lexeme with
  | keyField | field | comment => exact iff_of_true ⟨_, rfl⟩ fun _ => nofun
  | unknown text => exact iff_of_false nofun fun h => h text rfl
  | _ =>
    rw [hl] at hhas
    cases hhas

end Token

/-- A token inside a chord or a line of lyrics comes after another token of it. -/
def Token.Nested (a b : Token) : Prop :=
  b.Inner → b.region = a.region

/-- Tokens inside a chord or a line of lyrics come after the one that opens it. -/
theorem tokensFrom_nested (r : Region) (pos : Nat) (t : Text) :
    (tokensFrom r pos 0 t).IsChain Token.Nested ∧
      ∀ k ∈ (tokensFrom r pos 0 t).head?, k.Inner → k.region = r := by
  refine tokensFrom_induction (motive := fun r _ _ ts => ts.IsChain Token.Nested ∧
    ∀ k ∈ ts.head?, k.Inner → k.region = r) ?nil ?lexeme ?blanks r pos t
  case nil =>
    intro r pos
    exact ⟨.nil, nofun⟩
  case lexeme =>
    rintro r pos l own next rest hnext ⟨-, -, -, ⟨hl, hm⟩, -⟩ ⟨hchain, hhead⟩
    have hcur := r.current_eq (l.text ++ rest)
    generalize r.current (l.text ++ rest) = cur at hl hm hcur
    refine ⟨List.isChain_cons.2 ⟨fun k hk hinner => ?_, hchain⟩, ?_⟩
    · -- A region of chords or lyrics is that of the token before.
      have hregion := hhead k hk hinner
      obtain ⟨hr, -⟩ := hinner
      rw [hregion] at hr ⊢
      rcases hr with rfl | rfl
      all_goals
        cases cur <;> cases l <;> first | (cases hm; rfl) | cases hm
    · rintro _ ⟨⟩ ⟨hr, hchord, hlyric⟩
      -- A token that opens nothing is inside what was open before it.
      have hown : own = cur := by
        cases cur <;> cases l <;> first | contradiction | (cases hm; rfl)
      rcases hcur with rfl | ⟨-, rfl⟩
      · exact hown
      · dsimp only at hr
        rw [hown] at hr
        rcases hr with hr | hr <;> cases hr
  case blanks =>
    rintro r pos b rest hnext hb r' rfl ⟨hchain, hhead⟩
    refine ⟨hchain, fun k hk hinner => ?_⟩
    rcases r.current_eq (b ++ rest) with heq | ⟨-, heq⟩
    · rw [hhead k hk hinner, heq]
    · have hregion := hhead k hk hinner
      rw [heq] at hregion
      rcases hinner.1 with hr | hr <;> rw [hregion] at hr <;> cases hr

/-- What is recognised at the front is the first token. -/
theorem head?_tokensFrom {r own next : Region} {l : Lexeme} {c : CodePoint} {t : Text}
    (h : r.recognise (c :: t) = some (.lexeme l own next)) (pos : Nat) :
    (tokensFrom r pos 0 (c :: t)).head? = some ⟨pos, l, own⟩ := by
  rw [tokensFrom, Region.current_of_recognise h, Region.next_of_recognise h]
  rfl

/-- A voice field goes up to the end of the line or a comment. -/
theorem Region.next_voice {value rest : Text} {own next : Region}
    (h : Region.body.next (Field.written 'V' value ++ rest) =
      .lexeme (.voiceField (Field.written 'V' value)) own next)
    (hvalue : value.all Rule.inField) : ∀ c ∈ rest.head?, Rule.inField c = false := by
  have hrec : Region.body.recognise (Field.written 'V' value ++ rest) =
      some (.lexeme (.voiceField (Field.written 'V' ((value ++ rest).takeWhile Rule.inField)))
        .body .body) := rfl
  rw [Region.next_of_recognise hrec] at h
  have htake : (value ++ rest).takeWhile Rule.inField = value := by
    simp only [Recognised.lexeme.injEq, Lexeme.voiceField.injEq, Field.written,
      List.cons.injEq] at h
    exact h.1.2.2
  rw [List.takeWhile_append_of_pos (List.all_eq_true.1 hvalue)] at htake
  have hrest : rest.takeWhile Rule.inField = [] := by simpa using htake
  intro c hc
  cases rest with
  | nil => cases hc
  | cons c' rest =>
    cases hc
    by_contra hfield
    rw [Bool.not_eq_false] at hfield
    rw [List.takeWhile_cons_of_pos hfield] at hrest
    cases hrest

/-- After a voice field or a comment of the body comes the end of the line, maybe after a
comment. -/
def Token.EndsAside (a b : Token) : Prop :=
  a.role? = some .aside → b.role? = some .aside ∨ b.role? = some .stop

/-- Only comments and the end of the line come after a voice field or a comment. -/
theorem tokensFrom_asides (r : Region) (pos : Nat) (t : Text) :
    (tokensFrom r pos 0 t).IsChain Token.EndsAside := by
  refine tokensFrom_induction (motive := fun _ _ _ ts => ts.IsChain Token.EndsAside)
    ?nil ?lexeme ?blanks r pos t
  case nil =>
    intro r pos
    exact .nil
  case lexeme =>
    rintro r pos l own next rest hnext ⟨hgenuine, -, -, ⟨hl, hm⟩, hcomment⟩ ih
    refine List.isChain_cons.2 ⟨fun k hk haside => ?_, ih⟩
    generalize hcur : r.current (l.text ++ rest) = cur at hl hm hnext
    -- The next character ends the line or begins a comment.
    have hends : next = .body ∧ ∀ c ∈ rest.head?, c = '\n' ∨ c = '%' := by
      cases l with
      | voiceField text =>
        obtain rfl : cur = .body := by cases cur <;> first | rfl | cases hl
        obtain ⟨value, hvalue, rfl⟩ := hgenuine
        refine ⟨(Prod.mk.inj hm).2, fun c hc => ?_⟩
        have hfield := Region.next_voice hnext hvalue c hc
        by_contra hne
        rw [not_or] at hne
        simp [Rule.inField, hne.1, hne.2] at hfield
      | comment text =>
        obtain rfl : cur = .body := by
          obtain ⟨rfl, -⟩ := Prod.mk.inj hm
          cases cur <;> first | rfl | cases haside
        refine ⟨(Prod.mk.inj hm).2, fun c hc => .inl ?_⟩
        cases rest with
        | nil => cases hc
        | cons c' rest =>
          cases hc
          exact hcomment text rfl c rest rfl
      | chordStart => cases haside
      | _ => cases own <;> cases haside
    obtain ⟨rfl, hends⟩ := hends
    cases rest with
    | nil => cases hk
    | cons c rest =>
      rcases hends c rfl with rfl | rfl
      · have hrec : Region.body.recognise ('\n' :: rest) = some (.lexeme .newline .body .body) :=
          Region.recognise_newline_body rest
        rw [head?_tokensFrom hrec] at hk
        cases hk
        exact .inr rfl
      · have hrec := Region.recognise_comment (r := .body) (by decide) rest
        rw [Text.commented, Text.commented] at hrec
        rw [head?_tokensFrom hrec] at hk
        cases hk
        exact .inl rfl
  case blanks =>
    intro r pos b rest hnext hb r' hr' ih
    exact ih

/-! ## Notes and rests -/

/-- What can come after what is pending. -/
def Pending.due : Pending → Due
  | nothing => .parts false false
  | accidental _ _ => .note
  | durable _ _ octaveDue lengthDue => .parts octaveDue lengthDue

/-- The part of a note or rest that an item is, if it is one. -/
def Item.part? : Item → Option Lexeme
  | token t => if t.lexeme.isMusic then some t.lexeme else none
  | _ => none

/-- The role of an item. -/
def Item.role? : Item → Option Role
  | token t => t.lexeme.role?
  | chord _ _ => some .sung
  | lyrics _ => none

/-- The role of a piece. -/
def Piece.role? : Piece → Option Role
  | durable _ n => some (if n.label.isSung then .sung else .stop)
  | item i => i.role?

/-- The roles of pieces. -/
def Piece.roles (pieces : List Piece) : List Role :=
  pieces.filterMap Piece.role?

/-- A child at the end does not change what an element is. -/
theorem Node.label_append (n m : Node) : (n.append m).label = n.label := by
  cases n
  rfl

/-- Only an accidental cannot be followed by another item. -/
theorem Pending.fault?_eq_none (p : Pending) : p.fault? = none ↔ p.due ≠ .note := by
  cases p with
  | accidental t a => exact iff_of_false nofun fun h => h rfl
  | nothing | durable => exact iff_of_true rfl nofun

/-- A part of a note or rest is taken when it can come next, and a letter brings its role. -/
theorem Pending.take_due (p : Pending) {t : Token} (ht : t.lexeme.isMusic) :
    (∃ done p', p.take t = (done, .ok p') ∧ p.due.next? t.lexeme = some p'.due ∧
      Piece.roles done ++ Piece.roles p'.complete =
        Piece.roles p.complete ++ t.lexeme.role?.toList) ∨
    ∃ done e, p.take t = (done, .error e) ∧ p.due.next? t.lexeme = none := by
  unfold take
  cases hl : t.lexeme with
  | accidental a =>
    cases p with
    | accidental u b => exact .inr ⟨_, _, rfl, rfl⟩
    | nothing | durable => exact .inl ⟨_, _, rfl, rfl, rfl⟩
  | note name =>
    cases p with
    | accidental | nothing | durable => exact .inl ⟨_, _, rfl, rfl, rfl⟩
  | rest =>
    cases p with
    | accidental => exact .inr ⟨_, _, rfl, rfl⟩
    | nothing | durable => exact .inl ⟨_, _, rfl, rfl, rfl⟩
  | octave marks =>
    cases p with
    | accidental | nothing => exact .inr ⟨_, _, rfl, rfl⟩
    | durable start n octaveDue lengthDue =>
      cases octaveDue with
      | false => exact .inr ⟨_, _, rfl, rfl⟩
      | true =>
        refine .inl ⟨_, _, rfl, rfl, ?_⟩
        simp [Piece.roles, complete, Piece.role?, Node.label_append, Lexeme.role?]
  | length text =>
    cases p with
    | accidental | nothing => exact .inr ⟨_, _, rfl, rfl⟩
    | durable start n octaveDue lengthDue =>
      cases lengthDue with
      | false => cases octaveDue <;> exact .inr ⟨_, _, rfl, rfl⟩
      | true =>
        refine .inl ⟨[], .durable start (n.append (t.node (.length text))) false false, ?_, ?_, ?_⟩
        · cases octaveDue <;> rfl
        · cases octaveDue <;> rfl
        · simp [Piece.roles, complete, Piece.role?, Node.label_append, Lexeme.role?]
  | _ =>
    rw [hl] at ht
    cases ht

/-- Notes and rests are put together without a fault when their parts can come one after the other,
and then the pieces have the roles of the items. -/
theorem readDurables_fault (p : Pending) (items : List Item) :
    ((readDurables p items).fault = none ↔ p.due.Runs (items.map Item.part?)) ∧
      ((readDurables p items).fault = none → Piece.roles (readDurables p items).pieces =
        Piece.roles p.complete ++ items.filterMap Item.role?) := by
  induction items generalizing p with
  | nil => exact ⟨p.fault?_eq_none, fun _ => (List.append_nil _).symm⟩
  | cons i rest ih =>
    rw [List.map_cons]
    by_cases hm : i.isMusic
    · obtain ⟨t, rfl⟩ := Item.exists_token hm
      have hpart : (Item.token t).part? = some t.lexeme := if_pos hm
      rw [hpart]
      obtain ⟨done, p', htake, hnext, hroles⟩ | ⟨done, e, htake, hnext⟩ := p.take_due hm
      · -- The part goes on with what is pending, and its role is counted with what it completes.
        obtain ⟨hfault, hpieces⟩ := ih p'
        rw [readDurables_music hm htake]
        constructor
        · refine hfault.trans ⟨fun h => ⟨_, hnext, h⟩, fun ⟨s', hs', h⟩ => ?_⟩
          obtain rfl := Option.some.inj (hs'.symm.trans hnext)
          exact h
        · intro h
          have hrest : (Item.token t :: rest).filterMap Item.role? =
              t.lexeme.role?.toList ++ rest.filterMap Item.role? := by
            rw [List.filterMap_cons, Item.role?]
            cases t.lexeme.role? <;> rfl
          rw [hrest, ← List.append_assoc, ← hroles, List.append_assoc, ← hpieces h]
          exact List.filterMap_append
      · -- The part is unexpected: the reading stops here, and the parts do not run either.
        rw [readDurables_unexpected hm htake]
        refine ⟨iff_of_false nofun ?_, nofun⟩
        rintro ⟨s', hs', -⟩
        rw [hnext] at hs'
        cases hs'
    · rw [Bool.not_eq_true] at hm
      have hpart : i.part? = none := by
        cases i with
        | token t => exact if_neg (Bool.eq_false_iff.1 hm)
        | chord | lyrics => rfl
      rw [hpart]
      -- Anything else ends what is pending, which must not be an accidental without a note.
      cases hp : p.fault? with
      | some e =>
        rw [readDurables_lone hm hp]
        refine ⟨iff_of_false nofun fun h => ?_, nofun⟩
        rw [p.fault?_eq_none.2 h.1] at hp
        cases hp
      | none =>
        obtain ⟨hfault, hpieces⟩ := ih .nothing
        rw [readDurables_item hm hp]
        constructor
        · exact hfault.trans (and_iff_right (p.fault?_eq_none.1 hp)).symm
        · intro h
          rw [Piece.roles, List.filterMap_append, List.filterMap_cons, List.filterMap_cons]
          have hrest := hpieces h
          change (readDurables .nothing rest).pieces.filterMap Piece.role? = _ at hrest
          rw [hrest]
          rfl

/-- A piece is a note or rest that has been put together, or an item that is no part of one. -/
theorem readDurables_piece {p : Pending} {items : List Item} :
    ∀ piece ∈ (readDurables p items).pieces, (∃ start n, piece = .durable start n) ∨
      ∃ i ∈ items, i.isMusic = false ∧ piece = .item i := by
  have hcomplete (p : Pending) (items : List Item) : ∀ piece ∈ p.complete,
      (∃ start n, piece = .durable start n) ∨ ∃ i ∈ items, i.isMusic = false ∧ piece = .item i := by
    cases p with
    | nothing | accidental => exact nofun
    | durable start n => exact List.forall_mem_singleton.2 (.inl ⟨start, n, rfl⟩)
  induction items generalizing p with
  | nil => exact hcomplete p []
  | cons i rest ih =>
    -- The pieces are those that are complete with the first item, and those of the others.
    have hlater (p' : Pending) : ∀ piece ∈ (readDurables p' rest).pieces,
        (∃ start n, piece = .durable start n) ∨
          ∃ j ∈ i :: rest, j.isMusic = false ∧ piece = .item j := by
      intro piece hpiece
      rcases ih piece hpiece with h | ⟨j, hj, h⟩
      · exact .inl h
      · exact .inr ⟨j, List.mem_cons_of_mem i hj, h⟩
    by_cases hm : i.isMusic
    · obtain ⟨t, rfl⟩ := Item.exists_token hm
      have hdone : ∀ piece ∈ (p.take t).1, (∃ start n, piece = .durable start n) ∨
          ∃ j ∈ Item.token t :: rest, j.isMusic = false ∧ piece = .item j := by
        rcases p.take_done t with h | h
        · rw [h]
          exact hcomplete p _
        · rw [h]
          exact nofun
      cases htake : p.take t with
      | mk done result =>
        rw [htake] at hdone
        cases result with
        | ok p' =>
          rw [readDurables_music hm htake]
          exact List.forall_mem_append.2 ⟨hdone, hlater p'⟩
        | error e =>
          rw [readDurables_unexpected hm htake]
          exact hdone
    · rw [Bool.not_eq_true] at hm
      cases hp : p.fault? with
      | some e =>
        rw [readDurables_lone hm hp]
        exact nofun
      | none =>
        rw [readDurables_item hm hp]
        refine List.forall_mem_append.2 ⟨hcomplete p _, List.forall_mem_cons.2 ⟨?_, hlater _⟩⟩
        exact .inr ⟨i, List.mem_cons_self, hm, rfl⟩

/-! ## Chords -/

/-- A note that has been put together. -/
def Piece.IsNote (piece : Piece) : Prop :=
  ∃ start n name, piece = .durable start n ∧ n.label = .note name

/-- The pieces of a chord that are taken are notes. -/
theorem chordNotes_eq_ok {opening : Token} {pieces : List Piece} {ns : List Node}
    (h : chordNotes opening pieces = .ok ns) :
    (∀ piece ∈ pieces, piece.IsNote) ∧ ns.length = pieces.length := by
  have hnotes := forall₂_chordNotes h
  refine ⟨?_, hnotes.length_eq.symm⟩
  have hall : List.Forall₂ (fun piece _ => piece.IsNote ∧ True) pieces ns :=
    hnotes.imp fun piece n ⟨start, name, hn, hl⟩ => ⟨⟨start, n, name, hn, hl⟩, trivial⟩
  exact ((List.forall₂_and_left pieces ns).1 hall).1

/-- Notes are taken as those of a chord. -/
theorem exists_chordNotes {pieces : List Piece} (h : ∀ piece ∈ pieces, piece.IsNote)
    (opening : Token) : ∃ ns, chordNotes opening pieces = .ok ns := by
  induction pieces with
  | nil => exact ⟨[], rfl⟩
  | cons piece pieces ih =>
    obtain ⟨⟨start, n, name, rfl, hl⟩, hrest⟩ := List.forall_mem_cons.1 h
    obtain ⟨ns, hns⟩ := ih hrest
    refine ⟨n :: ns, ?_⟩
    unfold chordNotes
    rw [hl]
    exact bind_eq_ok.2 ⟨ns, hns, rfl⟩

/-- A chord is read when it is closed and its tokens are put together to notes. -/
theorem readChord_concat {opening closing : Token} {ts : List Token} :
    (∃ n, readChord opening (ts ++ [closing]) = .ok n) ↔ closing.lexeme = .chordEnd ∧
      (readDurables .nothing (ts.map Item.token)).fault = none ∧
      (readDurables .nothing (ts.map Item.token)).pieces ≠ [] ∧
      ∀ piece ∈ (readDurables .nothing (ts.map Item.token)).pieces, piece.IsNote := by
  constructor
  · rintro ⟨n, h⟩
    obtain ⟨ts', closing', notes, hinside, hend, hfault, hnotes, hne, -⟩ := exists_of_readChord h
    obtain ⟨rfl, hclosing⟩ := List.append_inj' hinside rfl
    obtain rfl := List.singleton_inj.1 hclosing
    obtain ⟨hall, hlength⟩ := chordNotes_eq_ok hnotes
    refine ⟨hend, hfault, fun hpieces => hne ?_, hall⟩
    rw [hpieces] at hlength
    exact List.length_eq_zero_iff.1 hlength
  · rintro ⟨hend, hfault, hne, hall⟩
    obtain ⟨notes, hnotes⟩ := exists_chordNotes hall opening
    obtain ⟨-, hlength⟩ := chordNotes_eq_ok hnotes
    have hempty : notes.isEmpty = false := by
      rw [List.isEmpty_eq_false_iff, ← List.length_pos_iff, hlength]
      exact List.length_pos_iff.2 hne
    refine ⟨.mk .chord (some opening.span) (some closing.span) notes, ?_⟩
    unfold readChord
    rw [List.getLast?_concat, List.dropLast_concat]
    dsimp only
    rw [if_pos hend]
    refine bind_eq_ok.2 ⟨notes, hnotes, ?_⟩
    rw [hfault]
    dsimp only
    rw [hempty, if_neg Bool.false_ne_true]

/-- A lexeme that is sung or has no role is part of a note. -/
theorem Lexeme.isMusic_of_role {l : Lexeme} (h : ∀ r ∈ l.role?, r = .sung) :
    l.isMusic ∧ l ≠ .rest := by
  cases l with
  | accidental | note | octave | length => exact ⟨rfl, nofun⟩
  | _ => exact nomatch h _ rfl

/-- A part of a note other than a rest is sung or has no role. -/
theorem Lexeme.role_of_isMusic {l : Lexeme} (hm : l.isMusic) (hl : l ≠ .rest) :
    ∀ r ∈ l.role?, r = .sung := by
  cases l with
  | accidental | octave | length => exact nofun
  | note name =>
    rintro r ⟨⟩
    rfl
  | rest => exact absurd rfl hl
  | _ => cases hm

/-- Only a letter is sung. -/
theorem Lexeme.role?_eq_sung {l : Lexeme} (h : l.role? = some .sung) : ∃ name, l = .note name := by
  cases l with
  | note name => exact ⟨name, rfl⟩
  | _ => cases h

/-- A note or rest that is sung is a note. -/
theorem IsDurable.isNote {start : Nat} {n : Node} (h : IsDurable n) (hsung : n.label.isSung) :
    (Piece.durable start n).IsNote := by
  rw [← n.label_unplaced] at hsung
  rcases h with ⟨note, hn⟩ | ⟨s, hs⟩
  · exact ⟨start, n, note.name, rfl, by rw [← n.label_unplaced, hn]; rfl⟩
  · rw [hs] at hsung
    cases hsung

/-- Tokens that are parts of notes and rests are put together without a fault when they can come one
after the other. -/
theorem readDurables_tokens_iff {ts : List Token} (hm : ∀ l ∈ ts.map Token.lexeme, l.isMusic) :
    (readDurables .nothing (ts.map Item.token)).fault = none ↔
      AreDurables (ts.map Token.lexeme) := by
  have hparts : (ts.map Item.token).map Item.part? = (ts.map Token.lexeme).map some := by
    rw [List.map_map, List.map_map]
    exact List.map_congr_left fun k hk => if_pos (hm k.lexeme (List.mem_map_of_mem hk))
  rw [(readDurables_fault .nothing (ts.map Item.token)).1, hparts]
  exact (Due.runs_map_some _ _).trans Due.accepts_iff

/-- The pieces of tokens that are put together without a fault have the roles of the tokens. -/
theorem roles_readDurables_tokens {ts : List Token}
    (h : (readDurables .nothing (ts.map Item.token)).fault = none) :
    Piece.roles (readDurables .nothing (ts.map Item.token)).pieces =
      (ts.map Token.lexeme).filterMap Lexeme.role? := by
  rw [(readDurables_fault .nothing (ts.map Item.token)).2 h, List.filterMap_map,
    List.filterMap_map]
  rfl

/-- The lexemes of tokens that are put together to notes only, of which there is one. -/
theorem areDurables_of_notes {ts : List Token}
    (hnone : (readDurables .nothing (ts.map Item.token)).fault = none)
    (hne : (readDurables .nothing (ts.map Item.token)).pieces ≠ [])
    (hnotes : ∀ piece ∈ (readDurables .nothing (ts.map Item.token)).pieces, piece.IsNote) :
    AreDurables (ts.map Token.lexeme) ∧ (∃ name, .note name ∈ ts.map Token.lexeme) ∧
      .rest ∉ ts.map Token.lexeme := by
  have hroles := roles_readDurables_tokens hnone
  have hrole : ∀ piece ∈ (readDurables .nothing (ts.map Item.token)).pieces,
      piece.role? = some .sung := by
    intro piece hpiece
    obtain ⟨start, n, name, rfl, hl⟩ := hnotes piece hpiece
    rw [Piece.role?, hl]
    rfl
  have hall : ∀ l ∈ ts.map Token.lexeme, l.isMusic ∧ l ≠ .rest := by
    intro l hl
    refine Lexeme.isMusic_of_role fun r hr => ?_
    have hmem : r ∈ Piece.roles (readDurables .nothing (ts.map Item.token)).pieces := by
      rw [hroles]
      exact List.mem_filterMap.2 ⟨l, hl, hr⟩
    obtain ⟨piece, hpiece, hpr⟩ := List.mem_filterMap.1 hmem
    exact Option.some.inj (hpr.symm.trans (hrole piece hpiece))
  refine ⟨(readDurables_tokens_iff fun l hl => (hall l hl).1).1 hnone, ?_,
    fun hl => (hall _ hl).2 rfl⟩
  -- The first note has a letter.
  obtain ⟨piece, pieces, hpieces⟩ := List.exists_cons_of_ne_nil hne
  have hsung : Role.sung ∈ Piece.roles (readDurables .nothing (ts.map Item.token)).pieces :=
    List.mem_filterMap.2 ⟨piece, by rw [hpieces]; exact List.mem_cons_self,
      hrole piece (by rw [hpieces]; exact List.mem_cons_self)⟩
  rw [hroles] at hsung
  obtain ⟨l, hl, hr⟩ := List.mem_filterMap.1 hsung
  obtain ⟨name, rfl⟩ := Lexeme.role?_eq_sung hr
  exact ⟨name, hl⟩

/-- The pieces of tokens whose lexemes are those of notes, without a rest, are notes. -/
theorem isNote_of_areDurables {ts : List Token} (hg : ∀ k ∈ ts, k.lexeme.Genuine)
    (hdurables : AreDurables (ts.map Token.lexeme)) (hrest : .rest ∉ ts.map Token.lexeme) :
    ∀ piece ∈ (readDurables .nothing (ts.map Item.token)).pieces, piece.IsNote := by
  intro piece hpiece
  have hm := hdurables.isMusic
  have hroles := roles_readDurables_tokens ((readDurables_tokens_iff hm).2 hdurables)
  have hitems : ∀ i ∈ ts.map Item.token, i.isMusic ∧ i.Genuine fun _ => True := by
    intro i hi
    obtain ⟨k, hk, rfl⟩ := List.mem_map.1 hi
    exact ⟨hm k.lexeme (List.mem_map_of_mem hk), hg k hk⟩
  obtain ⟨start, n, rfl⟩ : ∃ start n, piece = .durable start n := by
    rcases readDurables_piece piece hpiece with h | ⟨i, hi, hno, -⟩
    · exact h
    · rw [(hitems i hi).1] at hno
      cases hno
  have hgenuine := readDurables_genuine (p := .nothing) trivial (fun i hi => (hitems i hi).2) _
    hpiece
  have hrole : (if n.label.isSung then Role.sung else Role.stop) ∈
      Piece.roles (readDurables .nothing (ts.map Item.token)).pieces :=
    List.mem_filterMap.2 ⟨_, hpiece, rfl⟩
  rw [hroles] at hrole
  obtain ⟨l, hl, hr⟩ := List.mem_filterMap.1 hrole
  have hsung := Lexeme.role_of_isMusic (hm l hl) (fun h => hrest (h ▸ hl)) _ hr
  have hlabel : n.label.isSung := by
    by_contra hno
    rw [if_neg hno] at hsung
    cases hsung
  exact IsDurable.isNote hgenuine hlabel

/-- Tokens are put together to the notes of a chord when their lexemes are those of notes and rests,
among which there is a note and no rest. -/
theorem readDurables_notes_iff {ts : List Token} (hg : ∀ k ∈ ts, k.lexeme.Genuine) :
    ((readDurables .nothing (ts.map Item.token)).fault = none ∧
      (readDurables .nothing (ts.map Item.token)).pieces ≠ [] ∧
      ∀ piece ∈ (readDurables .nothing (ts.map Item.token)).pieces, piece.IsNote) ↔
    AreDurables (ts.map Token.lexeme) ∧ (∃ name, .note name ∈ ts.map Token.lexeme) ∧
      .rest ∉ ts.map Token.lexeme := by
  constructor
  · rintro ⟨hnone, hne, hnotes⟩
    exact areDurables_of_notes hnone hne hnotes
  · rintro ⟨hdurables, ⟨name, hname⟩, hrest⟩
    have hnone := (readDurables_tokens_iff hdurables.isMusic).2 hdurables
    refine ⟨hnone, fun hpieces => ?_, isNote_of_areDurables hg hdurables hrest⟩
    -- The note has a piece.
    have hsung : Role.sung ∈ Piece.roles (readDurables .nothing (ts.map Item.token)).pieces := by
      rw [roles_readDurables_tokens hnone]
      exact List.mem_filterMap.2 ⟨_, hname, rfl⟩
    rw [hpieces] at hsung
    cases hsung

/-- A chord is read when its lexemes are those of a chord. -/
theorem readChord_iff (opening : Token) {inside : List Token}
    (hg : ∀ k ∈ inside, k.lexeme.Genuine) :
    (∃ n, readChord opening inside = .ok n) ↔ ClosesChord (inside.map Token.lexeme) := by
  rcases List.eq_nil_or_concat inside with rfl | ⟨ts, closing, rfl⟩
  · refine iff_of_false nofun ?_
    rintro ⟨ls, hls, -⟩
    rw [List.map_nil, eq_comm, List.append_eq_nil_iff] at hls
    cases hls.2
  · rw [List.concat_eq_append] at hg ⊢
    rw [readChord_concat, readDurables_notes_iff fun k hk => hg k (List.mem_append_left _ hk)]
    unfold ClosesChord
    rw [List.map_append, List.map_singleton]
    constructor
    · rintro ⟨hend, h⟩
      exact ⟨_, by rw [hend], h⟩
    · rintro ⟨ls, hls, h⟩
      obtain ⟨rfl, hend⟩ := List.append_inj' hls rfl
      exact ⟨(List.cons.inj hend).1, h⟩

/-! ## Groups -/

namespace Group

/-- The part of a note or rest that a group is, if it is one. -/
def part? : Group → Option Lexeme
  | single t => if t.lexeme.isMusic then some t.lexeme else none
  | _ => none

/-- The role of a group. -/
def role? : Group → Option Role
  | single t => t.lexeme.role?
  | chord _ _ => some .sung
  | lyrics _ _ => none

/-- The lexemes of a group are those of a chord if it is one. -/
def Closes : Group → Prop
  | chord _ inside => ClosesChord (inside.map Token.lexeme)
  | _ => True

/-- The item of a group has its part and its role. -/
theorem outline_read {g : Group} {i : Item} (h : g.read = .ok i) :
    i.part? = g.part? ∧ i.role? = g.role? := by
  cases g with
  | single t =>
    cases h
    exact ⟨rfl, rfl⟩
  | chord opening inside =>
    obtain ⟨n, hn, h⟩ := bind_eq_ok.1 h
    cases h
    exact ⟨rfl, rfl⟩
  | lyrics opening inside =>
    cases h
    exact ⟨rfl, rfl⟩

/-- A group is read unless it is a chord that is not closed. -/
theorem exists_read {L : Text → Prop} {g : Group} (hg : g.Genuine L) :
    (∃ i, g.read = .ok i) ↔ g.Closes := by
  cases g with
  | single t => exact iff_of_true ⟨_, rfl⟩ trivial
  | lyrics opening inside => exact iff_of_true ⟨_, rfl⟩ trivial
  | chord opening inside =>
    refine Iff.trans ⟨?_, ?_⟩ (readChord_iff opening hg)
    · rintro ⟨i, h⟩
      obtain ⟨n, hn, -⟩ := bind_eq_ok.1 h
      exact ⟨n, hn⟩
    · rintro ⟨n, hn⟩
      exact ⟨_, bind_eq_ok.2 ⟨n, hn, rfl⟩⟩

end Group

/-- The items of groups are genuine and have their parts and their roles. -/
theorem outline_mapM {L : Text → Prop} {groups : List Group} {items : List Item}
    (hg : ∀ g ∈ groups, g.Genuine L) (h : groups.mapM Group.read = .ok items) :
    (∀ i ∈ items, i.Genuine L) ∧ items.map Item.part? = groups.map Group.part? ∧
      items.filterMap Item.role? = groups.filterMap Group.role? := by
  have hread := mapM_eq_ok.1 h
  clear h
  induction hread with
  | nil => exact ⟨nofun, rfl, rfl⟩
  | cons hi _ ih =>
    obtain ⟨hfirst, hrest⟩ := List.forall_mem_cons.1 hg
    obtain ⟨hpart, hrole⟩ := Group.outline_read hi
    obtain ⟨hgenuine, hparts, hroles⟩ := ih hrest
    refine ⟨List.forall_mem_cons.2 ⟨Group.read_genuine hfirst hi, hgenuine⟩, ?_, ?_⟩
    · rw [List.map_cons, List.map_cons, hpart, hparts]
    · rw [List.filterMap_cons, List.filterMap_cons, hrole, hroles]

section Groups

variable {ts : List Token}

/-- A single token of the body is outside chords and lyrics. -/
theorem Token.body_of_single {k : Token} (hk : k.region ≠ .header) (hc : k.region ≠ .chord)
    (hl : k.region ≠ .lyric) : k.region = .body := by
  cases hr : k.region <;> first | rfl | contradiction

/-- The groups have the roles of the tokens. -/
theorem groupFrom_roles (ht : ∀ k ∈ ts, k.Taken ∧ k.region ≠ .header) :
    (groupFrom ts).2.filterMap Group.role? = ts.filterMap Token.role? := by
  induction ts with
  | nil => rfl
  | cons k rest ih =>
    obtain ⟨⟨htaken, hheader⟩, hrest⟩ := List.forall_mem_cons.1 ht
    have htail := ih hrest
    rcases groupFrom_cons k rest with
      ⟨hl, heq⟩ | ⟨hl, heq⟩ | ⟨⟨hr, hchord, hlyric⟩, heq⟩ | ⟨hc, hly, heq⟩
    · have hrole : k.role? = some .sung := by rw [Token.role?, hl]
      rw [heq, List.filterMap_cons_some hrole, ← htail]
      rfl
    · have hrole : k.role? = none := by rw [Token.role?, hl, htaken.lyrics hl]
      rw [heq, List.filterMap_cons_none hrole, ← htail]
      rfl
    · have hrole : k.role? = none := by
        unfold Token.role?
        rcases hr with hr | hr
        all_goals
          rw [hr]
          cases hl : k.lexeme <;> first | rfl | exact absurd hl hchord
      rw [heq, List.filterMap_cons_none hrole, htail]
    · have hbody := Token.body_of_single hheader hc hly
      have hrole : k.role? = k.lexeme.role? := by
        unfold Token.role?
        rw [hbody]
        cases hl : k.lexeme <;> first | rfl | exact absurd (htaken.chord hl) hc
      rw [heq, List.filterMap_cons, List.filterMap_cons, hrole, htail]
      rfl

/-- The part of a note or rest of the body that a token is, if it is one. -/
def Token.part? (k : Token) : Option Lexeme :=
  if k.isPart then some k.lexeme else none

/-- The parts of notes and rests among the groups are those among the tokens. Where the tokens begin
inside a group, nothing is pending. -/
theorem groupFrom_runs (hchain : ts.IsChain Token.Nested) (ht : ∀ k ∈ ts, k.region ≠ .header)
    {s : Due} (hs : (groupFrom ts).1 = [] ∨ s = .parts false false) :
    s.Runs ((groupFrom ts).2.map Group.part?) ↔ s.Runs (ts.map Token.part?) := by
  induction ts generalizing s with
  | nil => exact Iff.rfl
  | cons k rest ih =>
    obtain ⟨hheader, hrest⟩ := List.forall_mem_cons.1 ht
    obtain ⟨hhead, htail⟩ := List.isChain_cons.1 hchain
    have hother (hk : k.part? = none) : s.Runs (none :: (groupFrom rest).2.map Group.part?) ↔
        s.Runs ((k :: rest).map Token.part?) := by
      rw [List.map_cons, hk]
      exact and_congr_right fun _ => ih htail hrest (.inr rfl)
    have hpart (hr : k.region ≠ .body) : k.part? = none := by
      unfold Token.part? Token.isPart
      rw [decide_eq_false hr]
      rfl
    have hmusic (hm : k.lexeme.isMusic = false) : k.part? = none := by
      unfold Token.part? Token.isPart
      rw [hm, Bool.and_false]
      rfl
    rcases groupFrom_cons k rest with
      ⟨hl, heq⟩ | ⟨hl, heq⟩ | ⟨⟨hr, -⟩, heq⟩ | ⟨hc, hly, heq⟩
    · rw [heq]
      exact hother (hmusic (by rw [hl]; rfl))
    · rw [heq]
      exact hother (hmusic (by rw [hl]; rfl))
    · -- Inside a group nothing is pending, and another item changes nothing.
      rw [heq] at hs ⊢
      obtain rfl : s = .parts false false := hs.resolve_left (List.cons_ne_nil _ _)
      have hnone : k.part? = none := hpart (by rcases hr with hr | hr <;> rw [hr] <;> exact nofun)
      rw [← hother hnone]
      exact (and_iff_right nofun).symm
    · have hbody := Token.body_of_single hheader hc hly
      rw [heq, List.map_cons]
      by_cases hm : k.lexeme.isMusic
      · have hsome : k.part? = some k.lexeme := by
          unfold Token.part? Token.isPart
          rw [hbody, hm]
          rfl
        rw [Group.part?, if_pos hm, List.map_cons, hsome]
        -- The token after it is not inside a group.
        have hfirst : (groupFrom rest).1 = [] := groupFrom_eq_nil fun k' hk' hinner => by
          have hregion := hhead k' hk' hinner
          rw [hbody] at hregion
          rcases hinner.1 with hr | hr <;> rw [hregion] at hr <;> cases hr
        exact exists_congr fun s' => and_congr_right fun _ => ih htail hrest (.inl hfirst)
      · rw [Bool.not_eq_true] at hm
        rw [Group.part?, hm, if_neg Bool.false_ne_true]
        exact hother (hmusic hm)

/-- The tokens that a chord holds are those that go on with it. -/
theorem groupFrom_inChord (hchain : ts.IsChain Token.Nested) (ht : ∀ k ∈ ts, k.Taken)
    (hhead : ∀ k ∈ ts.head?, k.Inner → k.region = .chord) :
    (groupFrom ts).1 = ts.takeWhile Token.inChord := by
  induction ts with
  | nil => rfl
  | cons k rest ih =>
    obtain ⟨htaken, hrest⟩ := List.forall_mem_cons.1 ht
    obtain ⟨hnested, htail⟩ := List.isChain_cons.1 hchain
    have hout (hk : k.inChord = false) (heq : (groupFrom (k :: rest)).1 = []) :
        (groupFrom (k :: rest)).1 = (k :: rest).takeWhile Token.inChord := by
      rw [heq, List.takeWhile_cons_of_neg (by rw [hk]; exact nofun)]
    rcases groupFrom_cons k rest with ⟨hl, heq⟩ | ⟨hl, heq⟩ | ⟨hinner, heq⟩ | ⟨hc, hly, heq⟩
    · refine hout ?_ (by rw [heq])
      rw [Token.inChord, hl, bne_self_eq_false, Bool.and_false]
    · refine hout ?_ (by rw [heq])
      rw [Token.inChord, htaken.lyrics hl]
      rfl
    · have hregion := hhead k rfl hinner
      have hin : k.inChord = true := by
        rw [Token.inChord, hregion, bne_iff_ne.2 hinner.2.1]
        rfl
      rw [heq, List.takeWhile_cons_of_pos hin, ih htail hrest]
      intro k' hk' hinner'
      rw [hnested k' hk' hinner', hregion]
    · refine hout ?_ (by rw [heq])
      rw [Token.inChord, decide_eq_false hc]
      rfl

/-- All groups are closed when each token that opens a chord is followed by the lexemes of one. -/
theorem groupFrom_closes (hchain : ts.IsChain Token.Nested) (ht : ∀ k ∈ ts, k.Taken) :
    (∀ g ∈ (groupFrom ts).2, g.Closes) ↔
      ∀ opening rest, (opening :: rest) <:+ ts → opening.lexeme = .chordStart →
        ClosesChord ((rest.takeWhile Token.inChord).map Token.lexeme) := by
  induction ts with
  | nil =>
    refine iff_of_true nofun fun opening rest hsuffix => ?_
    cases List.suffix_nil.1 hsuffix
  | cons k rest ih =>
    obtain ⟨htaken, hrest⟩ := List.forall_mem_cons.1 ht
    obtain ⟨hnested, htail⟩ := List.isChain_cons.1 hchain
    -- A token that opens no chord adds none to close.
    have hsame (hk : k.lexeme ≠ .chordStart) :
        (∀ opening rest', (opening :: rest') <:+ k :: rest → opening.lexeme = .chordStart →
          ClosesChord ((rest'.takeWhile Token.inChord).map Token.lexeme)) ↔
        ∀ g ∈ (groupFrom rest).2, g.Closes := by
      rw [ih htail hrest]
      constructor
      · intro h opening rest' hsuffix
        exact h opening rest' (hsuffix.trans (List.suffix_cons k rest))
      · intro h opening rest' hsuffix hl
        rcases List.suffix_cons_iff.1 hsuffix with heq | hsuffix
        · obtain ⟨rfl, -⟩ := List.cons.inj heq
          exact absurd hl hk
        · exact h opening rest' hsuffix hl
    rcases groupFrom_cons k rest with
      ⟨hl, heq⟩ | ⟨hl, heq⟩ | ⟨⟨-, hne, -⟩, heq⟩ | ⟨hc, hly, heq⟩
    · -- A token that opens a chord is followed by the inside of this chord.
      have hinside : (groupFrom rest).1 = rest.takeWhile Token.inChord :=
        groupFrom_inChord htail hrest fun k' hk' hinner => by
          rw [hnested k' hk' hinner, htaken.chord hl]
      rw [heq, List.forall_mem_cons, ih htail hrest, Group.Closes, hinside]
      constructor
      · rintro ⟨hfirst, hothers⟩ opening rest' hsuffix hl'
        rcases List.suffix_cons_iff.1 hsuffix with heq | hsuffix
        · obtain ⟨-, rfl⟩ := List.cons.inj heq
          exact hfirst
        · exact hothers opening rest' hsuffix hl'
      · intro h
        refine ⟨h k rest List.suffix_rfl hl, fun opening rest' hsuffix => ?_⟩
        exact h opening rest' (hsuffix.trans (List.suffix_cons k rest))
    · rw [hsame (by rw [hl]; exact nofun), heq, List.forall_mem_cons]
      exact and_iff_right trivial
    · rw [hsame hne, heq]
    · have hne : k.lexeme ≠ .chordStart := fun hl => hc (htaken.chord hl)
      rw [hsame hne, heq, List.forall_mem_cons]
      exact and_iff_right trivial

/-- A token that goes on with a chord comes after the one that opens it, unless the tokens begin
inside the chord. -/
theorem exists_chord_of_mem (hchain : ts.IsChain Token.Nested) (ht : ∀ k ∈ ts, k.Taken) {k : Token}
    (hk : k ∈ ts) (hin : k.inChord) : k ∈ ts.takeWhile Token.inChord ∨
      ∃ opening rest, (opening :: rest) <:+ ts ∧ opening.lexeme = .chordStart ∧
        k ∈ rest.takeWhile Token.inChord := by
  induction ts with
  | nil => cases hk
  | cons k' rest ih =>
    obtain ⟨-, htaken⟩ := List.forall_mem_cons.1 ht
    obtain ⟨hnested, htail⟩ := List.isChain_cons.1 hchain
    rcases List.mem_cons.1 hk with rfl | hk
    · exact .inl (by rw [List.takeWhile_cons_of_pos hin]; exact List.mem_cons_self)
    rcases ih htail htaken hk with hmem | ⟨opening, rest', hsuffix, hopening⟩
    · by_cases hin' : k'.inChord
      · refine .inl ?_
        rw [List.takeWhile_cons_of_pos hin']
        exact List.mem_cons_of_mem k' hmem
      · -- The token after it is inside the chord, so it opens the chord.
        refine .inr ⟨k', rest, List.suffix_rfl, ?_, hmem⟩
        cases rest with
        | nil => cases hmem
        | cons k₂ rest =>
          have hin₂ : k₂.inChord := by
            by_contra hno
            rw [List.takeWhile_cons_of_neg hno] at hmem
            cases hmem
          obtain ⟨hr, hne⟩ := Bool.and_eq_true_iff.1 hin₂
          have hr := of_decide_eq_true hr
          have hlyric : k₂.lexeme ≠ .lyricStart := fun hl =>
            nomatch hr.symm.trans ((htaken k₂ List.mem_cons_self).lyrics hl)
          have hregion := hnested k₂ rfl ⟨.inl hr, bne_iff_ne.1 hne, hlyric⟩
          by_contra hl
          refine hin' ?_
          rw [Token.inChord, ← hregion, hr, bne_iff_ne.2 hl]
          rfl
    · exact .inr ⟨opening, rest', hsuffix.trans (List.suffix_cons k' rest), hopening⟩

end Groups

/-! ## The body -/

namespace Draft

/-- The number of members that the tuplet that has been begun still needs. -/
def due (d : Draft) : Nat :=
  d.tuplet.elim 0 fun t => t.size.count - t.members.length

/-- The tuplet that has been begun is not complete. -/
def Incomplete (d : Draft) : Prop :=
  ∀ t ∈ d.tuplet, t.members.length < t.size.count

/-- A draft without an open tuplet needs no members, and an open one needs some. -/
theorem due_eq_zero {d : Draft} (hd : d.Incomplete) : d.due = 0 ↔ d.tuplet = none := by
  unfold due
  cases ht : d.tuplet with
  | none => exact iff_of_true rfl rfl
  | some t =>
    have hlt := hd t ht
    refine iff_of_false ?_ nofun
    change t.size.count - t.members.length ≠ 0
    omega

/-- The draft after an item needs the members that the role of the item says, or the item cannot
come. -/
def Follows (next : Option Nat) (x : Except SourceError Draft) : Prop :=
  (∃ d n, x = .ok d ∧ next = some n ∧ d.Incomplete ∧ d.due = n) ∨ ∃ e, x = .error e ∧ next = none

variable {d : Draft}

/-- Something that leaves the tuplet can always come. -/
theorem follows_same (hd : d.Incomplete) {d' : Draft} (h : d'.tuplet = d.tuplet) :
    Follows (some d.due) (.ok d') :=
  .inl ⟨d', d.due, rfl, rfl, fun t ht => hd t (h ▸ ht), by rw [due, due, h]⟩

/-- A bar, a rest or the end of a line can come when no tuplet is open. -/
theorem next?_stop (hd : d.Incomplete) :
    Role.stop.next? d.due = if d.tuplet = none then some d.due else none := by
  split_ifs with ht
  · rw [(due_eq_zero hd).2 ht]
    rfl
  · obtain ⟨n, hn⟩ := Nat.exists_eq_succ_of_ne_zero fun h => ht ((due_eq_zero hd).1 h)
    rw [hn]
    rfl

/-- A note, rest or chord follows its role. -/
theorem add_follows (hd : d.Incomplete) (start : Nat) (n : Node) :
    Follows ((if n.label.isSung then Role.sung else Role.stop).next? d.due) (d.add start n) := by
  unfold add
  cases ht : d.tuplet with
  | none =>
    have hdue := (due_eq_zero hd).2 ht
    have hnext : (if n.label.isSung then Role.sung else Role.stop).next? d.due = some d.due := by
      rw [hdue]
      split_ifs <;> rfl
    rw [hnext]
    exact follows_same hd ht.symm
  | some t =>
    have hlt := hd t ht
    have hdue : d.due = t.size.count - t.members.length := by rw [due, ht]; rfl
    dsimp only
    split_ifs with hsung hcount
    · -- The last member completes the tuplet.
      rw [List.length_append, List.length_singleton] at hcount
      have hone : d.due = 1 := by omega
      exact .inl ⟨_, 0, rfl, by rw [hone]; rfl, nofun, rfl⟩
    · rw [List.length_append, List.length_singleton] at hcount
      obtain ⟨m, hm⟩ : ∃ m, d.due = m + 1 := ⟨d.due - 1, by omega⟩
      refine .inl ⟨_, m, rfl, by rw [hm]; rfl, ?_, ?_⟩
      · rintro _ ⟨⟩
        change (t.members ++ [n]).length < t.size.count
        rw [List.length_append, List.length_singleton]
        omega
      · change t.size.count - (t.members ++ [n]).length = m
        rw [List.length_append, List.length_singleton]
        omega
    · refine .inr ⟨_, rfl, ?_⟩
      rw [next?_stop hd, if_neg (by rw [ht]; exact nofun)]

/-- The check of the tuplet is that it is not open. -/
theorem checkTuplet_eq (d : Draft) : (d.tuplet = none ∧ d.checkTuplet = .ok ()) ∨
    (d.tuplet ≠ none ∧ ∃ e, d.checkTuplet = .error e) := by
  unfold checkTuplet
  cases d.tuplet with
  | none => exact .inl ⟨rfl, rfl⟩
  | some t => exact .inr ⟨nofun, _, rfl⟩

/-- A body without an incomplete tuplet has no tuplet open. -/
theorem checkTuplet_ok {d : Draft} {u : Unit} (h : d.checkTuplet = .ok u) : d.tuplet = none := by
  obtain ⟨ht, -⟩ | ⟨-, e, he⟩ := d.checkTuplet_eq
  · exact ht
  · cases he.symm.trans h

/-- A token that ends a tuplet can come when none is open. -/
theorem checked_follows (hd : d.Incomplete) {d' : Draft} (h : d'.tuplet = d.tuplet) :
    Follows (Role.stop.next? d.due) (do d.checkTuplet; return d') := by
  rw [next?_stop hd]
  obtain ⟨ht, hcheck⟩ | ⟨ht, e, hcheck⟩ := d.checkTuplet_eq
  · rw [if_pos ht, hcheck]
    exact follows_same hd h
  · rw [if_neg ht, hcheck]
    exact .inr ⟨e, rfl, rfl⟩

/-- The end of a line leaves the tuplet. -/
theorem tuplet_endLine (d : Draft) (ending : Node) : (d.endLine ending).tuplet = d.tuplet := by
  unfold endLine
  split_ifs <;> rfl

/-- A token that is not part of a note follows its role. -/
theorem addToken_follows (hd : d.Incomplete) {t : Token} (ht : t.lexeme.isMusic = false) :
    ∃ r, t.lexeme.role? = some r ∧ Follows (r.next? d.due) (d.addToken t) := by
  have haside : Role.aside.next? d.due = some d.due := by cases d.due <;> rfl
  have hunknown : Role.unknown.next? d.due = none := by cases d.due <;> rfl
  unfold addToken
  cases hl : t.lexeme with
  | newline => exact ⟨_, rfl, checked_follows hd (tuplet_endLine d _)⟩
  | bar b => exact ⟨_, rfl, checked_follows hd rfl⟩
  | tuplet size =>
    refine ⟨_, rfl, ?_⟩
    dsimp only
    cases htuplet : d.tuplet with
    | none =>
      have hcount := size.count_pos
      rw [(due_eq_zero hd).2 htuplet]
      refine .inl ⟨_, size.count, rfl, rfl, ?_, rfl⟩
      rintro _ ⟨⟩
      exact hcount
    | some u =>
      obtain ⟨n, hn⟩ := Nat.exists_eq_succ_of_ne_zero fun h => by
        rw [(due_eq_zero hd).1 h] at htuplet
        cases htuplet
      rw [hn]
      exact .inr ⟨_, rfl, rfl⟩
  | voiceField text => exact ⟨_, rfl, haside ▸ follows_same hd rfl⟩
  | comment text =>
    refine ⟨_, rfl, ?_⟩
    rw [haside]
    dsimp only
    split_ifs
    · exact follows_same hd rfl
    · exact follows_same hd rfl
  | accidental | note | octave | rest | length =>
    rw [hl] at ht
    cases ht
  | _ => exact ⟨_, rfl, .inr ⟨_, rfl, hunknown⟩⟩

/-- A piece follows its role; a line of lyrics has none and can always come. -/
theorem addPiece_follows {L : Text → Prop} (hd : d.Incomplete) {piece : Piece}
    (hp : piece.Genuine L) (hi : ∀ i, piece = .item i → i.isMusic = false) :
    Follows (piece.role?.elim (some d.due) (Role.next? d.due)) (d.addPiece piece) := by
  match piece with
  | .durable start n => exact add_follows hd start n
  | .item (.lyrics n) => exact follows_same hd rfl
  | .item (.chord start n) =>
    obtain ⟨c, hc⟩ := hp
    have hsung : n.label.isSung := by
      rw [← n.label_unplaced, hc]
      rfl
    have hadd := add_follows hd start n
    rw [if_pos hsung] at hadd
    exact hadd
  | .item (.token t) =>
    obtain ⟨r, hr, hadd⟩ := addToken_follows hd (hi (.token t) rfl)
    change Follows (t.lexeme.role?.elim _ _) _
    rw [hr]
    exact hadd

/-- Pieces can be added one after the other, so that no tuplet is open in the end, when their roles
can come one after the other. -/
theorem foldlM_addPiece {L : Text → Prop} (hd : d.Incomplete) {pieces : List Piece}
    (hp : ∀ piece ∈ pieces, piece.Genuine L)
    (hi : ∀ i, .item i ∈ pieces → i.isMusic = false) :
    (∃ d', pieces.foldlM Draft.addPiece d = .ok d' ∧ d'.tuplet = none) ↔
      Completes d.due (Piece.roles pieces) := by
  induction pieces generalizing d with
  | nil =>
    refine Iff.trans ?_ (due_eq_zero hd).symm
    constructor
    · rintro ⟨d', h, hnone⟩
      cases h
      exact hnone
    · intro hnone
      exact ⟨d, rfl, hnone⟩
  | cons piece pieces ih =>
    have hstep := addPiece_follows hd (hp piece List.mem_cons_self)
      fun i h => hi i (h ▸ List.mem_cons_self)
    have hrest {d' : Draft} (hd' : d'.Incomplete) := ih hd'
      (fun q hq => hp q (List.mem_cons_of_mem piece hq))
      fun i h => hi i (List.mem_cons_of_mem piece h)
    rw [List.foldlM_cons]
    obtain ⟨d₁, n, hadd, hnext, hd₁, rfl⟩ | ⟨e, hadd, hnext⟩ := hstep
    · -- The piece is added: what is due after it decides about the others.
      rw [hadd]
      refine (hrest hd₁).trans ?_
      unfold Piece.roles
      cases hr : piece.role? with
      | none =>
        rw [hr] at hnext
        rw [List.filterMap_cons_none hr, ← Option.some.inj hnext]
      | some r =>
        rw [hr] at hnext
        rw [List.filterMap_cons_some hr]
        constructor
        · intro h
          exact ⟨_, hnext, h⟩
        · rintro ⟨n, hn, h⟩
          obtain rfl := Option.some.inj (hn.symm.trans hnext)
          exact h
    · -- The piece is refused: its role can not come next.
      rw [hadd]
      refine iff_of_false (fun ⟨d', h, _⟩ => nomatch h) ?_
      unfold Piece.roles
      cases hr : piece.role? with
      | none =>
        rw [hr] at hnext
        cases hnext
      | some r =>
        rw [hr] at hnext
        rw [List.filterMap_cons_some hr]
        rintro ⟨n, hn, -⟩
        exact nomatch hn.symm.trans hnext

end Draft

/-- A body is read when the parts of its notes can come one after the other, and the roles of its
items can, with no tuplet left open. -/
theorem readBody_iff {L : Text → Prop} {items : List Item} (hi : ∀ i ∈ items, i.Genuine L) :
    (∃ n, readBody items = .ok n) ↔
      (Due.parts false false).Runs (items.map Item.part?) ∧
        Completes 0 (items.filterMap Item.role?) := by
  obtain ⟨hfault, hroles⟩ := readDurables_fault .nothing items
  have hfold := Draft.foldlM_addPiece (d := .empty) nofun
    (readDurables_genuine (p := .nothing) trivial hi) fun i hmem => by
      rcases readDurables_piece _ hmem with ⟨start, n, h⟩ | ⟨j, -, hj, h⟩
      · cases h
      · cases h
        exact hj
  change _ ↔ _ ∧ Completes Draft.empty.due _
  rw [← show Pending.nothing.due = Due.parts false false from rfl, ← hfault]
  unfold readBody
  dsimp only
  constructor
  · rintro ⟨n, h⟩
    obtain ⟨d, hd, h⟩ := bind_eq_ok.1 h
    split at h
    next => cases h
    next hnone =>
      obtain ⟨_, hcheck, -⟩ := bind_eq_ok.1 h
      have hcompletes := hfold.1 ⟨d, hd, Draft.checkTuplet_ok hcheck⟩
      rw [hroles hnone] at hcompletes
      exact ⟨hnone, hcompletes⟩
  · rintro ⟨hnone, hcompletes⟩
    have hpieces : Piece.roles (readDurables .nothing items).pieces =
        items.filterMap Item.role? := hroles hnone
    rw [← hpieces] at hcompletes
    obtain ⟨d, hd, htuplet⟩ := hfold.2 hcompletes
    have hcheck : d.checkTuplet = .ok () := by
      unfold Draft.checkTuplet
      rw [htuplet]
    refine ⟨.unread .body (d.endLine (.unread (.endOfLine ['\n']) [])).nodes,
      bind_eq_ok.2 ⟨d, hd, ?_⟩⟩
    rw [hnone]
    dsimp only
    rw [hcheck]
    rfl

/-! ## The tune -/

/-- The tokens of a body, as they are in every source. -/
structure IsBody (ts : List Token) : Prop where
  taken : ∀ k ∈ ts, k.Taken
  region : ∀ k ∈ ts, k.region ≠ .header
  nested : ts.IsChain Token.Nested
  first : ∀ k ∈ ts.head?, ¬k.Inner
  asides : ts.IsChain Token.EndsAside
  genuine : ∀ g ∈ (groupFrom ts).2, g.Genuine fun _ => True

section

variable {ts : List Token}

/-- Only comments and ends of lines come after voice fields and comments, also among the roles. -/
theorem endsAsides_roles (h : ts.IsChain Token.EndsAside) :
    EndsAsides (ts.filterMap Token.role?) := by
  induction ts with
  | nil => exact .nil
  | cons k rest ih =>
    obtain ⟨hhead, htail⟩ := List.isChain_cons.1 h
    cases hr : k.role? with
    | none =>
      rw [List.filterMap_cons_none hr]
      exact ih htail
    | some r =>
      rw [List.filterMap_cons_some hr]
      refine List.isChain_cons.2 ⟨?_, ih htail⟩
      rintro r' hr' rfl
      -- The next token has a role, so it gives the next role.
      cases rest with
      | nil => cases hr'
      | cons k' rest =>
        rcases hhead k' rfl hr with h' | h'
        · rw [List.filterMap_cons_some h'] at hr'
          cases hr'
          exact .inl rfl
        · rw [List.filterMap_cons_some h'] at hr'
          cases hr'
          exact .inr rfl

/-- The lexemes of a closed chord are known. -/
theorem ClosesChord.known {ls : List Lexeme} (h : ClosesChord ls) (text : Text) :
    .unknown text ∉ ls := by
  obtain ⟨inside, rfl, hdurables, -⟩ := h
  intro hmem
  rcases List.mem_append.1 hmem with hmem | hmem
  · exact nomatch hdurables.isMusic _ hmem
  · cases List.mem_singleton.1 hmem

/-- The tokens of a body are known when their roles are and the chords are closed. -/
theorem IsBody.known (hts : IsBody ts) (hroles : .unknown ∉ ts.filterMap Token.role?)
    (hchords : ∀ opening rest, (opening :: rest) <:+ ts → opening.lexeme = .chordStart →
      ClosesChord ((rest.takeWhile Token.inChord).map Token.lexeme)) :
    ∀ t ∈ ts, ∀ text, t.lexeme ≠ .unknown text := by
  intro k hk text hl
  have htaken := hts.taken k hk
  cases hr : k.region with
  | header => exact hts.region k hk hr
  | body =>
    refine hroles (List.mem_filterMap.2 ⟨k, hk, ?_⟩)
    rw [Token.role?, hl, hr]
    rfl
  | lyric =>
    obtain ⟨r, hhas, hm⟩ := htaken
    rw [hl] at hhas hm
    rw [hr] at hm
    obtain rfl : r = .lyric := by cases r <;> first | rfl | cases hm
    cases hhas
  | chord =>
    have hin : k.inChord := by
      rw [Token.inChord, hr, hl]
      rfl
    have hstart : ts.takeWhile Token.inChord = [] := by
      cases ts with
      | nil => rfl
      | cons k' rest =>
        refine List.takeWhile_cons_of_neg fun hin' => hts.first k' rfl ?_
        obtain ⟨hr', hne⟩ := Bool.and_eq_true_iff.1 hin'
        have hr' := of_decide_eq_true hr'
        exact ⟨.inl hr', bne_iff_ne.1 hne, fun hl' =>
          nomatch hr'.symm.trans ((hts.taken k' List.mem_cons_self).lyrics hl')⟩
    rcases exists_chord_of_mem hts.nested hts.taken hk hin with hmem | ⟨opening, rest, hs, ho, hmem⟩
    · rw [hstart] at hmem
      cases hmem
    · exact (hchords opening rest hs ho).known text (hl ▸ List.mem_map_of_mem hmem)

/-- A body is read when its tokens satisfy the grammar. -/
theorem IsBody.read_iff (hts : IsBody ts) :
    (∃ items, (groupFrom ts).2.mapM Group.read = .ok items ∧ ∃ n, readBody items = .ok n) ↔
      Grammatical ts := by
  have hgroups : (∃ items, (groupFrom ts).2.mapM Group.read = .ok items) ↔
      ∀ opening rest, (opening :: rest) <:+ ts → opening.lexeme = .chordStart →
        ClosesChord ((rest.takeWhile Token.inChord).map Token.lexeme) := by
    rw [exists_mapM, ← groupFrom_closes hts.nested hts.taken]
    exact forall₂_congr fun g hg => Group.exists_read (hts.genuine g hg)
  have hread {items : List Item} (h : (groupFrom ts).2.mapM Group.read = .ok items) :
      (∃ n, readBody items = .ok n) ↔
        (∀ run ∈ ts.splitOnP (fun t => !t.isPart), AreDurables (run.map Token.lexeme)) ∧
          .unknown ∉ ts.filterMap Token.role? ∧ TupletsComplete (ts.filterMap Token.role?) := by
    obtain ⟨hgenuine, hparts, hroles⟩ := outline_mapM hts.genuine h
    rw [readBody_iff hgenuine, hparts, hroles,
      groupFrom_runs hts.nested hts.region (.inr rfl),
      groupFrom_roles fun k hk => ⟨hts.taken k hk, hts.region k hk⟩,
      completes_iff (endsAsides_roles hts.asides)]
    refine and_congr_left fun _ => ?_
    rw [show Token.part? = fun t => if t.isPart then some t.lexeme else none from rfl,
      Due.runs_split]
    constructor
    · rintro ⟨run, runs, hsplit, hrun, hruns⟩
      rw [hsplit]
      exact List.forall_mem_cons.2 ⟨Due.accepts_iff.1 hrun, hruns⟩
    · intro hall
      obtain ⟨run, runs, hsplit⟩ := List.exists_cons_of_ne_nil
        (List.splitOnP_ne_nil (fun t : Token => !t.isPart) ts)
      rw [hsplit, List.forall_mem_cons] at hall
      exact ⟨run, runs, hsplit, Due.accepts_iff.2 hall.1, hall.2⟩
  constructor
  · rintro ⟨items, hitems, hbody⟩
    obtain ⟨hdurables, hroles, htuplets⟩ := (hread hitems).1 hbody
    have hchords := hgroups.1 ⟨items, hitems⟩
    exact ⟨hts.known hroles hchords, hchords, hdurables, htuplets⟩
  · intro h
    obtain ⟨items, hitems⟩ := hgroups.2 h.chords
    refine ⟨items, hitems, (hread hitems).2 ⟨h.durables, fun hmem => ?_, h.tuplets⟩⟩
    obtain ⟨k, hk, hr⟩ := List.mem_filterMap.1 hmem
    -- A token of this role stands in the body and is unknown text.
    unfold Token.role? at hr
    split at hr
    next => cases hr
    next hregion _ =>
      obtain ⟨text, hl⟩ := (hts.taken k hk).unknown hregion hr
      exact h.known k hk text hl
    next => cases hr

/-- A token of the header only has to be known. -/
theorem grammatical_cons {k : Token} (hk : k.Taken) (hh : k.region = .header) :
    Grammatical (k :: ts) ↔ (∀ text, k.lexeme ≠ .unknown text) ∧ Grammatical ts := by
  have hchord : k.lexeme ≠ .chordStart := fun hl => nomatch hh.symm.trans (hk.chord hl)
  have hrole : k.role? = none := by
    unfold Token.role?
    rw [hh]
    cases hl : k.lexeme <;> first | rfl | exact absurd hl hchord
  have hpart : (!k.isPart) = true := by
    unfold Token.isPart
    rw [hh]
    rfl
  have hsplit : (k :: ts).splitOnP (fun t => !t.isPart) =
      [] :: ts.splitOnP (fun t => !t.isPart) :=
    splitOnP_cons_of_pos (p := fun t : Token => !t.isPart) hpart ts
  have hroles : (k :: ts).filterMap Token.role? = ts.filterMap Token.role? :=
    List.filterMap_cons_none hrole
  constructor
  · rintro ⟨hknown, hchords, hdurables, htuplets⟩
    obtain ⟨hfirst, hothers⟩ := List.forall_mem_cons.1 hknown
    rw [hsplit] at hdurables
    rw [hroles] at htuplets
    refine ⟨hfirst, hothers, fun opening rest hsuffix => ?_, (List.forall_mem_cons.1 hdurables).2,
      htuplets⟩
    exact hchords opening rest (hsuffix.trans (List.suffix_cons k ts))
  · rintro ⟨hfirst, hknown, hchords, hdurables, htuplets⟩
    refine ⟨List.forall_mem_cons.2 ⟨hfirst, hknown⟩, fun opening rest hsuffix hl => ?_, ?_, ?_⟩
    · rcases List.suffix_cons_iff.1 hsuffix with heq | hsuffix
      · obtain ⟨rfl, -⟩ := List.cons.inj heq
        exact absurd hl hchord
      · exact hchords opening rest hsuffix hl
    · rw [hsplit]
      exact List.forall_mem_cons.2 ⟨AreDurables.nil, hdurables⟩
    · rwa [hroles]

/-- The tokens of the header are read as elements, and the others satisfy the grammar. -/
theorem grammatical_append (body : List Token) {header : List Token}
    (hh : ∀ k ∈ header, k.Taken ∧ k.region = .header) :
    Grammatical (header ++ body) ↔
      (∀ k ∈ header, ∃ n, headerNode k = .ok n) ∧ Grammatical body := by
  induction header with
  | nil => exact (and_iff_right nofun).symm
  | cons k header ih =>
    obtain ⟨⟨hk, hregion⟩, hrest⟩ := List.forall_mem_cons.1 hh
    have hall := ih hrest
    rw [List.cons_append, grammatical_cons hk hregion, hall, List.forall_mem_cons,
      hk.header hregion, and_assoc]

end

/-- The tokens of a source are those of its header and those of a body. -/
theorem exists_isBody (source : Text) : ∃ header body, tokens source = header ++ body ∧
    (∀ k ∈ header, k.Taken ∧ k.region = .header) ∧ IsBody body := by
  obtain ⟨fields, key, body, ht, hfields, hkey, hbody, -⟩ := tokensFrom_header 0 source
  have htaken := tokensFrom_taken .header 0 source
  obtain ⟨hnested, hfirst⟩ := tokensFrom_nested .header 0 source
  have hasides := tokensFrom_asides .header 0 source
  have hgroups := groupFrom_genuine (L := fun _ => True) source .header 0 fun _ _ _ => trivial
  rw [List.drop_zero] at hgroups
  have hheader : ∀ k ∈ fields ++ key.toList, k.region = .header := by
    intro k hk
    rcases List.mem_append.1 hk with hk | hk
    · exact (hfields k hk).1
    · exact (hkey k (Option.mem_toList.1 hk)).1
  have htokens : tokens source = fields ++ key.toList ++ body := ht
  rw [ht] at htaken hnested hfirst hasides hgroups
  generalize fields ++ key.toList = header at *
  -- No token of the body stands inside a group that is opened before the body.
  have hbodyFirst : ∀ k ∈ body.head?, ¬k.Inner := by
    intro k hk hinner
    have hregion : k.region = .header := by
      rcases List.eq_nil_or_concat header with rfl | ⟨front, last, rfl⟩
      · exact hfirst k hk hinner
      · rw [List.concat_eq_append] at hnested hheader
        have hlast := (List.isChain_append.1 hnested).2.2 last (by simp) k hk hinner
        rw [hlast]
        exact hheader last (List.mem_append_right _ List.mem_cons_self)
    rcases hinner.1 with hr | hr <;> rw [hregion] at hr <;> cases hr
  refine ⟨header, body, htokens,
    fun k hk => ⟨htaken k (List.mem_append_left _ hk), hheader k hk⟩, ?_⟩
  exact
    { taken := fun k hk => htaken k (List.mem_append_right _ hk)
      region := hbody
      nested := hnested.suffix (List.suffix_append _ _)
      first := hbodyFirst
      asides := hasides.suffix (List.suffix_append _ _)
      genuine := fun g hg => hgroups g ((groupFrom_suffix header body).subset hg) }

/-- A source is read as a tune exactly when its tokens satisfy the grammar. -/
theorem exists_readTune (source : Text) :
    (∃ document, readTune source = .ok document) ↔ Grammatical (tokens source) := by
  obtain ⟨header, body, htokens, hheader, hbody⟩ := exists_isBody source
  have hfront (n : Node) := readTune_eq_ok (n := n) htokens (fun k hk => (hheader k hk).2)
    hbody.region
  rw [htokens, grammatical_append body hheader, ← hbody.read_iff, ← exists_mapM]
  constructor
  · rintro ⟨document, h⟩
    obtain ⟨items, bodies, nodes, hitems, hbodies, hnodes, -⟩ := (hfront document).1 h
    refine ⟨⟨nodes, hnodes⟩, items, hitems, ?_⟩
    split_ifs at hbodies with hempty
    · -- Without tokens the body has no items.
      obtain rfl := List.isEmpty_iff.1 hempty
      cases hitems
      exact ⟨_, rfl⟩
    · cases hread : readBody items with
      | ok n => exact ⟨n, rfl⟩
      | error e =>
        rw [hread] at hbodies
        cases hbodies
  · rintro ⟨⟨nodes, hnodes⟩, items, hitems, n, hn⟩
    have hbodies : ∃ bodies, (if body.isEmpty then .ok [] else (readBody items).map ([·])) =
        (.ok bodies : Except SourceError (List Node)) := by
      split_ifs
      · exact ⟨[], rfl⟩
      · rw [hn]
        exact ⟨[n], rfl⟩
    obtain ⟨bodies, hbodies⟩ := hbodies
    exact ⟨_, (hfront _).2 ⟨items, bodies, nodes, hitems, hbodies, hnodes, rfl⟩⟩

/-- The grammar says exactly which sources are read as tunes, and every other source is rejected
with an error at a position in it. -/
theorem readTune_iff_grammatical (source : Text) :
    ((∃ document, readTune source = .ok document) ↔ Grammatical (tokens source)) ∧
      (¬Grammatical (tokens source) →
        ∃ e, readTune source = .error e ∧ e.pos < source.length) := by
  have haccepts := exists_readTune source
  refine ⟨haccepts, fun hno => ?_⟩
  have hlocated := readTune_located source
  cases hread : readTune source with
  | ok document => exact absurd (haccepts.1 ⟨document, hread⟩) hno
  | error e =>
    rw [hread] at hlocated
    exact ⟨e, rfl, hlocated⟩

end SingAlong
