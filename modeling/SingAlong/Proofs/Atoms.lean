import SingAlong.Proofs.Reading

/-!
# Tokens of a score are read as its atoms

Tokens with the lexemes of a body of a score are read as pieces, one for each atom
(`groupFrom_atoms`). Nothing goes on with a note or rest of a score but its own tokens, because no
atom begins with octave marks or a length (`Fresh`), so what is read from the tokens of an atom does
not depend on those after them (`Score.Atom.isReadFrom`).
-/

namespace SingAlong

open Score (Note Suffix Chord Lyrics Atom octaveLexemes)

/-! ## Notes and rests -/

/-- Can the lexeme only go on with a note or rest before it? -/
def Lexeme.goesOn : Lexeme → Bool
  | octave _ | length _ => true
  | _ => false

/-- Only parts of notes and rests go on with them. -/
theorem Lexeme.goesOn_of_not_isMusic {l : Lexeme} (h : l.isMusic = false) : l.goesOn = false := by
  cases l <;> first | rfl | cases h

/-- Can the item only go on with a note or rest before it? -/
def Item.goesOn : Item → Bool
  | .token t => t.lexeme.goesOn
  | _ => false

/-- Only parts of notes and rests go on with them. -/
theorem Item.goesOn_of_not_isMusic {i : Item} (h : i.isMusic = false) : i.goesOn = false := by
  cases i with
  | token t => exact Lexeme.goesOn_of_not_isMusic h
  | _ => rfl

/-- The items do not go on with a note or rest before them. -/
def Fresh (items : List Item) : Prop :=
  ∀ i ∈ items.head?, i.goesOn = false

/-- What is read with one more piece in front. -/
def Reading.cons (piece : Piece) (reading : Reading) : Reading :=
  ⟨piece :: reading.pieces, reading.fault⟩

/-- A token that does not go on with a note or rest completes it. -/
theorem Pending.take_fresh {p : Pending} {t : Token} (hp : p.fault? = none) (hm : t.lexeme.isMusic)
    (ht : t.lexeme.goesOn = false) :
    p.take t = (p.complete ++ (Pending.nothing.take t).1, (Pending.nothing.take t).2) := by
  unfold take
  cases p with
  | accidental u a => cases hp
  | nothing => rfl
  | durable start n octaveDue lengthDue =>
    cases hl : t.lexeme <;> rw [hl] at hm ht <;> first | contradiction | exact rfl

/-- Items that do not go on with a note or rest complete it. -/
theorem readDurables_fresh {p : Pending} {items : List Item} (hp : p.fault? = none)
    (hi : Fresh items) :
    readDurables p items = ⟨p.complete ++ (readDurables .nothing items).pieces,
      (readDurables .nothing items).fault⟩ := by
  cases items with
  | nil =>
    rw [readDurables, readDurables, hp]
    exact congrArg (Reading.mk · none) (List.append_nil _).symm
  | cons i rest =>
    -- A token that begins another note completes what is pending as any other item does.
    by_cases hm : i.isMusic
    · obtain ⟨t, rfl⟩ := Item.exists_token hm
      have htake := Pending.take_fresh hp hm (hi _ rfl)
      cases hnothing : Pending.nothing.take t with
      | mk done result =>
        rw [hnothing] at htake
        cases result with
        | ok p' =>
          rw [readDurables_music hm htake, readDurables_music hm hnothing, List.append_assoc]
        | error e => rw [readDurables_unexpected hm htake, readDurables_unexpected hm hnothing]
    · rw [Bool.not_eq_true] at hm
      rw [readDurables_item hm hp, readDurables_item hm rfl]
      rfl

section Notes

variable {node : Node} {l : Label} {ns : List Node} {ks : List Token} {rest : List Item}

/-- The token of a suffix goes on with a note or rest. -/
theorem readDurables_suffix (start : Nat) (hnode : node.unplaced = .unread l ns) (octaveDue : Bool)
    {s : Suffix} (hks : ks.map Token.lexeme = s.lexemes) (hrest : Fresh rest) :
    ∃ n, n.unplaced = .unread l (ns ++ s.nodes) ∧
      readDurables (.durable start node octaveDue true) (ks.map .token ++ rest) =
        .cons (.durable start n) (readDurables .nothing rest) := by
  unfold Suffix.lexemes at hks
  unfold Suffix.nodes
  split_ifs at hks with hempty
  · obtain rfl := List.map_eq_nil_iff.1 hks
    rw [if_pos hempty, List.append_nil]
    exact ⟨node, hnode, readDurables_fresh rfl hrest⟩
  · obtain ⟨k, rfl, hk⟩ := List.map_eq_singleton_iff.1 hks
    have htake : (Pending.durable start node octaveDue true).take k =
        ([], .ok (.durable start (node.append (k.node (.length s.text))) false false)) := by
      unfold Pending.take
      rw [hk]
    have hmusic : k.lexeme.isMusic := by rw [hk]; rfl
    rw [if_neg hempty]
    refine ⟨node.append (k.node (.length s.text)), ?_, ?_⟩
    · rw [Node.unplaced_append, hnode]
      rfl
    · rw [List.map_singleton, List.singleton_append, readDurables_music hmusic htake,
        readDurables_fresh rfl hrest]
      rfl

/-- The tokens of octave marks and of a suffix go on with a note. -/
theorem readDurables_marks (start : Nat) (hnode : node.unplaced = .unread l ns) {note : Note}
    (hks : ks.map Token.lexeme = octaveLexemes note.octaves ++ note.suffix.lexemes)
    (hrest : Fresh rest) :
    ∃ n, n.unplaced = .unread l (ns ++ note.marks) ∧
      readDurables (.durable start node true true) (ks.map .token ++ rest) =
        .cons (.durable start n) (readDurables .nothing rest) := by
  obtain ⟨os, ss, rfl, hos, hss⟩ := List.map_eq_append_iff.1 hks
  unfold octaveLexemes at hos
  unfold Note.marks
  split_ifs at hos with hempty
  · obtain rfl := List.map_eq_nil_iff.1 hos
    rw [if_pos hempty]
    exact readDurables_suffix start hnode true hss hrest
  · obtain ⟨k, rfl, hk⟩ := List.map_eq_singleton_iff.1 hos
    have htake : (Pending.durable start node true true).take k =
        ([], .ok (.durable start (node.append (k.node (.octave note.octaves))) false true)) := by
      unfold Pending.take
      rw [hk]
    have hmusic : k.lexeme.isMusic := by rw [hk]; rfl
    have hoctave : (node.append (k.node (.octave note.octaves))).unplaced =
        .unread l (ns ++ [Node.leaf (.octave note.octaves)]) := by
      rw [Node.unplaced_append, hnode]
      rfl
    obtain ⟨n, hn, hread⟩ := readDurables_suffix start hoctave false hss hrest
    rw [if_neg hempty]
    refine ⟨n, by rw [hn, List.append_assoc], ?_⟩
    rw [List.map_append, List.map_singleton, List.singleton_append, List.cons_append,
      readDurables_music hmusic htake, hread]
    rfl

/-- The tokens of a note are put together to it. -/
theorem readDurables_note {note : Note} (hks : ks.map Token.lexeme = note.lexemes)
    (hrest : Fresh rest) :
    ∃ start n, n.unplaced = note.node ∧ readDurables .nothing (ks.map .token ++ rest) =
      .cons (.durable start n) (readDurables .nothing rest) := by
  unfold Note.lexemes at hks
  obtain ⟨as, cs, rfl, has, hcs⟩ := List.map_eq_append_iff.1 hks
  obtain ⟨k, ms, rfl, hk, hms⟩ := List.map_eq_cons_iff.1 hcs
  have hmusic : k.lexeme.isMusic := by rw [hk]; rfl
  unfold Note.node
  cases ha : note.accidental with
  | none =>
    rw [ha] at has
    obtain rfl := List.map_eq_nil_iff.1 has
    have htake : Pending.nothing.take k =
        ([], .ok (.durable k.pos (k.node (.note note.name)) true true)) := by
      unfold Pending.take
      rw [hk]
      rfl
    obtain ⟨n, hn, hread⟩ := readDurables_marks k.pos
      (k.unplaced_node (.note note.name)) hms hrest
    refine ⟨k.pos, n, hn, ?_⟩
    rw [List.nil_append, List.map_cons, List.cons_append, readDurables_music hmusic htake, hread]
    rfl
  | some a =>
    rw [ha] at has
    obtain ⟨u, rfl, hu⟩ := List.map_eq_singleton_iff.1 has
    -- The accidental waits for its note, which takes it as a child.
    have hmusic' : u.lexeme.isMusic := by rw [hu]; rfl
    have htake' : Pending.nothing.take u = ([], .ok (.accidental u a)) := by
      unfold Pending.take
      rw [hu]
      rfl
    have htake : (Pending.accidental u a).take k =
        ([], .ok (.durable u.pos (.mk (.note note.name) (some k.span) none [u.node (.accidental a)])
          true true)) := by
      unfold Pending.take
      rw [hk]
    have hnode : (Node.mk (.note note.name) (some k.span) none [u.node (.accidental a)]).unplaced =
        .unread (.note note.name) [Node.leaf (.accidental a)] := rfl
    obtain ⟨n, hn, hread⟩ := readDurables_marks u.pos hnode hms hrest
    refine ⟨u.pos, n, hn, ?_⟩
    rw [List.map_append, List.map_singleton, List.singleton_append, List.cons_append,
      readDurables_music hmusic' htake', List.map_cons, List.cons_append,
      readDurables_music hmusic htake, hread]
    rfl

/-- The tokens of a rest are put together to it. -/
theorem readDurables_rest {s : Suffix} (hks : ks.map Token.lexeme = .rest :: s.lexemes)
    (hrest : Fresh rest) :
    ∃ start n, n.unplaced = s.rest ∧ readDurables .nothing (ks.map .token ++ rest) =
      .cons (.durable start n) (readDurables .nothing rest) := by
  obtain ⟨k, ks, rfl, hk, hks⟩ := List.map_eq_cons_iff.1 hks
  have hmusic : k.lexeme.isMusic := by rw [hk]; rfl
  have htake : Pending.nothing.take k =
      ([], .ok (.durable k.pos (k.node (.rest ['z'])) false true)) := by
    unfold Pending.take Token.text
    rw [hk]
    rfl
  obtain ⟨n, hn, hread⟩ := readDurables_suffix k.pos
    (k.unplaced_node (.rest ['z'])) false hks hrest
  refine ⟨k.pos, n, hn, ?_⟩
  rw [List.map_cons, List.cons_append, readDurables_music hmusic htake, hread]
  rfl

end Notes

/-! ## From lexemes to pieces -/

/-- The lexeme of an atom that is a single token. -/
def Score.Atom.token? : Atom → Option Lexeme
  | bar b => some (.bar b)
  | tuplet size => some (.tuplet size)
  | newline => some .newline
  | comment c => some (.comment c.text)
  | voice v => some (.voiceField (Field.written 'V' v.text))
  | _ => none

/-- The piece that an atom is read as. -/
def Piece.Is : Piece → Atom → Prop
  | .durable _ n, .note note => n.unplaced = note.node
  | .durable _ n, .rest s => n.unplaced = s.rest
  | .item (.chord _ n), .chord c => n.unplaced = c.node
  | .item (.lyrics n), .lyrics l => n.unplaced = l.node
  | .item (.token t), a => a.token? = some t.lexeme
  | _, _ => False

/-- The piece of an atom that is a single token. -/
theorem Piece.Is.token {piece : Piece} {a : Atom} {l : Lexeme} (h : piece.Is a)
    (ha : a.token? = some l) : ∃ t, piece = .item (.token t) ∧ t.lexeme = l := by
  match piece with
  | .item (.token t) => exact ⟨t, rfl, Option.some.inj (h.symm.trans ha)⟩
  | .durable start n => cases a <;> first | cases h | cases ha
  | .item (.chord start n) => cases a <;> first | cases h | cases ha
  | .item (.lyrics n) => cases a <;> first | cases h | cases ha

/-- The lexemes of tokens, all of one region. -/
theorem map_lexeme_of_bare {ks : List Token} {ls : List Lexeme} {r : Region}
    (h : ks.map Token.bare = ls.map (·, r)) :
    ks.map Token.lexeme = ls ∧ ∀ k ∈ ks, k.region = r := by
  have hl := congrArg (List.map Prod.fst) h
  have hr := congrArg (List.map Prod.snd) h
  rw [List.map_map, List.map_map] at hl hr
  refine ⟨hl.trans (List.map_id'' (fun _ => rfl) ls), fun k hk => ?_⟩
  have hmem : k.region ∈ ks.map (Prod.snd ∘ Token.bare) := List.mem_map_of_mem hk
  rw [hr] at hmem
  obtain ⟨l, -, hregion⟩ := List.mem_map.1 hmem
  exact hregion.symm

/-- A note begins with its accidental or its letter. -/
theorem Score.Note.lexemes_eq_cons (n : Note) :
    ∃ l ls, n.lexemes = l :: ls ∧ l.goesOn = false := by
  unfold Note.lexemes
  cases n.accidental with
  | none => exact ⟨_, _, rfl, rfl⟩
  | some a => exact ⟨_, _, rfl, rfl⟩

/-- The lexemes of a suffix are parts of notes and rests. -/
theorem Score.Suffix.isMusic_lexemes (s : Suffix) : ∀ l ∈ s.lexemes, l.isMusic := by
  unfold Suffix.lexemes
  split_ifs
  · exact nofun
  · exact List.forall_mem_singleton.2 rfl

/-- The lexemes of a note are parts of notes. -/
theorem Score.Note.isMusic_lexemes (n : Note) : ∀ l ∈ n.lexemes, l.isMusic := by
  unfold Note.lexemes octaveLexemes
  rw [List.forall_mem_append, List.forall_mem_cons, List.forall_mem_append]
  refine ⟨?_, rfl, ?_, n.suffix.isMusic_lexemes⟩
  · cases n.accidental with
    | none => exact nofun
    | some a => exact List.forall_mem_singleton.2 rfl
  · split_ifs
    · exact nofun
    · exact List.forall_mem_singleton.2 rfl

/-- Tokens that begin with a lexeme that does not go on with a note. -/
theorem fresh_tokens {ks : List Token} {l : Lexeme} {ls : List Lexeme}
    (hks : ks.map Token.lexeme = l :: ls) (hl : l.goesOn = false) (rest : List Item) :
    Fresh (ks.map .token ++ rest) := by
  obtain ⟨k, ks, rfl, rfl, -⟩ := List.map_eq_cons_iff.1 hks
  rintro i ⟨⟩
  exact hl

/-! ### Chords -/

/-- The tokens inside a chord are put together to its notes. -/
theorem readDurables_notes {notes : List Note} {ks : List Token}
    (hks : ks.map Token.lexeme = notes.flatMap Note.lexemes) :
    Fresh (ks.map .token) ∧ ∃ pieces, readDurables .nothing (ks.map .token) = ⟨pieces, none⟩ ∧
      pieces.Forall₂ Piece.Is (notes.map .note) := by
  -- The induction carries that what comes next does not go on with the note before it.
  induction notes generalizing ks with
  | nil =>
    obtain rfl := List.map_eq_nil_iff.1 hks
    exact ⟨nofun, [], rfl, .nil⟩
  | cons note notes ih =>
    obtain ⟨as, bs, rfl, has, hbs⟩ := List.map_eq_append_iff.1 hks
    obtain ⟨hfresh, pieces, hread, hpieces⟩ := ih hbs
    obtain ⟨start, n, hn, hnote⟩ := readDurables_note has hfresh
    obtain ⟨l, ls, hl, hgoesOn⟩ := note.lexemes_eq_cons
    rw [List.map_append]
    refine ⟨fresh_tokens (has.trans hl) hgoesOn _, .durable start n :: pieces, ?_, .cons hn hpieces⟩
    rw [hnote, hread]
    rfl

/-- The pieces of a chord are taken as its notes. -/
theorem chordNotes_notes (opening : Token) {pieces : List Piece} {notes : List Note}
    (h : pieces.Forall₂ Piece.Is (notes.map .note)) :
    ∃ ns, chordNotes opening pieces = .ok ns ∧ ns.map Node.unplaced = notes.map Note.node := by
  induction notes generalizing pieces with
  | nil =>
    cases h
    exact ⟨[], rfl, rfl⟩
  | cons note notes ih =>
    obtain ⟨piece, pieces, hpiece, hpieces, rfl⟩ := List.forall₂_cons_right_iff.1 h
    obtain ⟨ns, hns, hnodes⟩ := ih hpieces
    obtain ⟨start, n, rfl⟩ : ∃ start n, piece = .durable start n := by
      match piece with
      | .durable start n => exact ⟨start, n, rfl⟩
      | .item (.token t) => cases hpiece
      | .item (.chord start n) => cases hpiece
      | .item (.lyrics n) => cases hpiece
    have hn : n.unplaced = note.node := hpiece
    have hlabel : n.label = .note note.name := by
      rw [← n.label_unplaced, hn]
      rfl
    refine ⟨n :: ns, ?_, by rw [List.map_cons, List.map_cons, hn, hnodes]⟩
    unfold chordNotes
    rw [hlabel]
    exact bind_eq_ok.2 ⟨ns, hns, rfl⟩

/-- The tokens of a chord are read as it. -/
theorem readChord_chord (opening : Token) (c : Chord) {inside : List Token}
    (h : inside.map Token.lexeme = c.notes.flatMap Note.lexemes ++ [.chordEnd]) :
    ∃ n, readChord opening inside = .ok n ∧ n.unplaced = c.node := by
  obtain ⟨ks, es, rfl, hks, hes⟩ := List.map_eq_append_iff.1 h
  obtain ⟨closing, rfl, hclosing⟩ := List.map_eq_singleton_iff.1 hes
  obtain ⟨-, pieces, hread, hpieces⟩ := readDurables_notes hks
  obtain ⟨ns, hns, hnodes⟩ := chordNotes_notes opening hpieces
  have hnonempty : ns.isEmpty = false := by
    rw [List.isEmpty_eq_false_iff]
    rintro rfl
    exact c.nonempty (List.map_eq_nil_iff.1 hnodes.symm)
  refine ⟨.mk .chord (some opening.span) (some closing.span) ns, ?_, ?_⟩
  · unfold readChord
    rw [List.getLast?_concat, List.dropLast_concat]
    dsimp only
    rw [if_pos hclosing, hread]
    refine bind_eq_ok.2 ⟨ns, hns, ?_⟩
    dsimp only
    rw [hnonempty, if_neg Bool.false_ne_true]
  · rw [Node.unplaced_mk, hnodes]
    rfl

/-! ### Groups -/

/-- Does the lexeme open a chord or a line of lyrics? -/
def Lexeme.isOpening : Lexeme → Bool
  | chordStart | lyricStart => true
  | _ => false

/-- No part of a note or rest opens a group. -/
theorem Lexeme.isOpening_of_isMusic {l : Lexeme} (h : l.isMusic) : l.isOpening = false := by
  cases l <;> first | rfl | cases h

variable {ks rest : List Token}

/-- A token of the body that opens nothing is single. -/
theorem groupFrom_single {k : Token} (hk : k.region = .body) (hl : k.lexeme.isOpening = false) :
    groupFrom (k :: rest) = ([], .single k :: (groupFrom rest).2) := by
  rcases groupFrom_cons k rest with ⟨h, -⟩ | ⟨h, -⟩ | ⟨⟨h | h, -⟩, -⟩ | ⟨-, -, h⟩
  · rw [h] at hl
    cases hl
  · rw [h] at hl
    cases hl
  · rw [h] at hk
    cases hk
  · rw [h] at hk
    cases hk
  · exact h

/-- Tokens of the body that open nothing are single. -/
theorem groupFrom_singles (hk : ∀ k ∈ ks, k.region = .body ∧ k.lexeme.isOpening = false)
    (hrest : (groupFrom rest).1 = []) :
    groupFrom (ks ++ rest) = ([], ks.map .single ++ (groupFrom rest).2) := by
  induction ks with
  | nil => exact Prod.ext hrest rfl
  | cons k ks ih =>
    obtain ⟨hregion, hl⟩ := hk k List.mem_cons_self
    rw [List.cons_append, groupFrom_single hregion hl,
      ih fun k' hk' => hk k' (List.mem_cons_of_mem k hk')]
    rfl

/-- Single tokens are read as themselves. -/
theorem mapM_read_single (ks : List Token) :
    (ks.map Group.single).mapM Group.read = .ok (ks.map .token) := by
  rw [mapM_eq_ok, List.forall₂_map_left_iff, List.forall₂_map_right_iff, List.forall₂_same]
  exact fun _ _ => rfl

/-! ### Atoms -/

/-- The tokens are read as a piece that is the atom, whatever is read after them. -/
def Score.Atom.IsReadFrom (a : Atom) (ks : List Token) : Prop :=
  ∃ groups items,
    (∀ rest, (groupFrom rest).1 = [] →
      groupFrom (ks ++ rest) = ([], groups ++ (groupFrom rest).2)) ∧
    groups.mapM Group.read = .ok items ∧
    ∀ rest, Fresh rest → Fresh (items ++ rest) ∧ ∃ piece : Piece, piece.Is a ∧
      readDurables .nothing (items ++ rest) = .cons piece (readDurables .nothing rest)

namespace Score.Atom

/-- A note or rest is read from its tokens, which are put together to it. -/
theorem isReadFrom_durable {a : Atom} {l : Lexeme} {ls : List Lexeme}
    (hks : ks.map Token.bare = (l :: ls).map (·, .body)) (hmusic : ∀ l' ∈ l :: ls, l'.isMusic)
    (hl : l.goesOn = false)
    (hread : ∀ rest, Fresh rest → ∃ start n, Piece.Is (.durable start n) a ∧
      readDurables .nothing (ks.map .token ++ rest) =
        .cons (.durable start n) (readDurables .nothing rest)) :
    a.IsReadFrom ks := by
  obtain ⟨hlexemes, hregion⟩ := map_lexeme_of_bare hks
  have hsingle : ∀ k ∈ ks, k.region = .body ∧ k.lexeme.isOpening = false := by
    intro k hk
    have hk' : k.lexeme.isMusic := hmusic _ (hlexemes ▸ List.mem_map_of_mem hk)
    exact ⟨hregion k hk, Lexeme.isOpening_of_isMusic hk'⟩
  refine ⟨ks.map .single, ks.map .token, fun rest => groupFrom_singles hsingle,
    mapM_read_single ks, fun rest hrest => ⟨fresh_tokens hlexemes hl rest, ?_⟩⟩
  obtain ⟨start, n, hn, h⟩ := hread rest hrest
  exact ⟨.durable start n, hn, h⟩

/-- An atom that is a single token is read from it. -/
theorem isReadFrom_token {a : Atom} {l : Lexeme} (hks : ks.map Token.bare = [(l, .body)])
    (hmusic : l.isMusic = false) (hl : l.isOpening = false)
    (ha : a.token? = some l) : a.IsReadFrom ks := by
  obtain ⟨k, rfl, hk⟩ := List.map_eq_singleton_iff.1 hks
  obtain ⟨rfl, hregion⟩ := Prod.mk.inj hk
  have hsingle : ∀ k' ∈ [k], k'.region = .body ∧ k'.lexeme.isOpening = false := by
    intro k' hk'
    obtain rfl := List.mem_singleton.1 hk'
    exact ⟨hregion, hl⟩
  refine ⟨[.single k], [.token k], fun rest => groupFrom_singles hsingle, rfl,
    fun rest hrest => ⟨?_, .item (.token k), ha, ?_⟩⟩
  · rintro i ⟨⟩
    exact Lexeme.goesOn_of_not_isMusic hmusic
  · exact readDurables_item hmusic rfl

/-- A chord is read from its tokens, which form a group. -/
theorem isReadFrom_chord (c : Chord) (hks : ks.map Token.bare = (Atom.chord c).lexemes) :
    (Atom.chord c).IsReadFrom ks := by
  obtain ⟨opening, inside, rfl, hopening, hinside⟩ := List.map_eq_cons_iff.1 hks
  have hmap : inside.map Token.bare =
      (c.notes.flatMap Note.lexemes ++ [Lexeme.chordEnd]).map (·, .chord) := by
    rw [hinside, List.map_append]
    rfl
  obtain ⟨hlexemes, hregion⟩ := map_lexeme_of_bare hmap
  obtain ⟨n, hn, hnode⟩ := readChord_chord opening c hlexemes
  -- No token inside the chord opens another group.
  have hinner : ∀ k ∈ inside, k.Inner := by
    intro k hk
    have hmem : k.lexeme ∈ c.notes.flatMap Note.lexemes ++ [.chordEnd] :=
      hlexemes ▸ List.mem_map_of_mem hk
    refine ⟨.inl (hregion k hk), ?_, ?_⟩
    all_goals
      intro hl
      rw [hl] at hmem
      rcases List.mem_append.1 hmem with hmem | hmem
      · obtain ⟨note, -, hmem⟩ := List.mem_flatMap.1 hmem
        cases note.isMusic_lexemes _ hmem
      · cases List.mem_singleton.1 hmem
  refine ⟨[.chord opening inside], [.chord opening.pos n], fun rest hrest => ?_, ?_,
    fun rest hrest => ⟨?_, .item (.chord opening.pos n), hnode, readDurables_item rfl rfl⟩⟩
  · rw [List.cons_append, groupFrom, groupFrom_inner hinner, hrest, (Prod.mk.inj hopening).1,
      List.append_nil]
    rfl
  · exact mapM_eq_ok.2 (.cons (bind_eq_ok.2 ⟨n, hn, rfl⟩) .nil)
  · rintro i ⟨⟩
    rfl

/-- A line of lyrics is read from its tokens, which form a group. -/
theorem isReadFrom_lyrics (l : Lyrics) (hks : ks.map Token.bare = (Atom.lyrics l).lexemes) :
    (Atom.lyrics l).IsReadFrom ks := by
  obtain ⟨opening, inside, rfl, hopening, hinside⟩ := List.map_eq_cons_iff.1 hks
  obtain ⟨ts, es, rfl, hts, hes⟩ := List.map_eq_append_iff.1 hinside
  obtain ⟨newline, rfl, hnewline⟩ := List.map_eq_singleton_iff.1 hes
  obtain ⟨hlexeme, hregion⟩ := Prod.mk.inj hnewline
  have hends : EndsLyrics [newline] := ⟨none, some newline, rfl, nofun, by
    rintro k ⟨⟩
    exact ⟨hregion, hlexeme⟩⟩
  -- The tokens of the text and the newline belong to the lyrics.
  have hinner : ∀ k ∈ ts ++ [newline], k.Inner := by
    intro k hk
    rcases List.mem_append.1 hk with hk | hk
    · obtain ⟨kind, text, hl, -, hr⟩ := lyric_of_bare l.inField hts k hk
      exact ⟨.inr hr, by rw [hl]; exact nofun, by rw [hl]; exact nofun⟩
    · obtain rfl := List.mem_singleton.1 hk
      exact ⟨.inr hregion, by rw [hlexeme]; exact nofun, by rw [hlexeme]; exact nofun⟩
  refine ⟨[.lyrics opening (ts ++ [newline])], [.lyrics (readLyrics opening (ts ++ [newline]))],
    fun rest hrest => ?_, rfl, fun rest hrest => ⟨?_, .item (.lyrics _),
      readLyrics_genuine opening l hts hends, readDurables_item rfl rfl⟩⟩
  · rw [List.cons_append, groupFrom, groupFrom_inner hinner, hrest, (Prod.mk.inj hopening).1,
      List.append_nil]
    rfl
  · rintro i ⟨⟩
    rfl

/-- Each atom is read from its lexemes. -/
theorem isReadFrom (a : Atom) (hks : ks.map Token.bare = a.lexemes) : a.IsReadFrom ks := by
  cases a with
  | note n =>
    obtain ⟨l, ls, hl, hgoesOn⟩ := n.lexemes_eq_cons
    refine isReadFrom_durable (hl ▸ hks) (hl ▸ n.isMusic_lexemes) hgoesOn fun rest hrest => ?_
    exact readDurables_note (map_lexeme_of_bare hks).1 hrest
  | rest s =>
    have hmap : ks.map Token.bare = (.rest :: s.lexemes).map (·, .body) := hks
    refine isReadFrom_durable hmap ?_ rfl fun rest hrest => ?_
    · exact List.forall_mem_cons.2 ⟨rfl, s.isMusic_lexemes⟩
    · exact readDurables_rest (map_lexeme_of_bare hmap).1 hrest
  | chord c => exact isReadFrom_chord c hks
  | bar b => exact isReadFrom_token hks rfl rfl rfl
  | tuplet size => exact isReadFrom_token hks rfl rfl rfl
  | newline => exact isReadFrom_token hks rfl rfl rfl
  | comment c => exact isReadFrom_token hks rfl rfl rfl
  | voice v => exact isReadFrom_token hks rfl rfl rfl
  | lyrics l => exact isReadFrom_lyrics l hks

end Score.Atom

/-- The tokens of a body are read as pieces, one for each atom. -/
theorem groupFrom_atoms {atoms : List Atom} (hks : ks.map Token.bare = atoms.flatMap Atom.lexemes) :
    (groupFrom ks).1 = [] ∧ ∃ items pieces, (groupFrom ks).2.mapM Group.read = .ok items ∧
      Fresh items ∧ readDurables .nothing items = ⟨pieces, none⟩ ∧
      pieces.Forall₂ Piece.Is atoms := by
  induction atoms generalizing ks with
  | nil =>
    obtain rfl := List.map_eq_nil_iff.1 hks
    exact ⟨rfl, [], [], rfl, nofun, rfl, .nil⟩
  | cons a atoms ih =>
    obtain ⟨as, bs, rfl, has, hbs⟩ := List.map_eq_append_iff.1 hks
    obtain ⟨hinside, items, pieces, hitems, hfresh, hread, hpieces⟩ := ih hbs
    obtain ⟨groups, front, hgroups, hfront, hrest⟩ := a.isReadFrom has
    obtain ⟨hfresh', piece, hpiece, hread'⟩ := hrest items hfresh
    rw [hgroups bs hinside]
    refine ⟨rfl, front ++ items, piece :: pieces, ?_, hfresh', ?_, .cons hpiece hpieces⟩
    · rw [List.mapM_append]
      exact bind_eq_ok.2 ⟨front, hfront, bind_eq_ok.2 ⟨items, hitems, rfl⟩⟩
    · rw [hread', hread]
      rfl

end SingAlong
