import SingAlong.Proofs.Score
import SingAlong.Tune.Reader
import Mathlib.Data.List.Forall2

/-!
# Groups, items and pieces of a source

The tokens of a source are put together in stages: to groups, to items and to pieces. Each stage
keeps that what it has put together is what a score is made of: `groupFrom_genuine` for the groups,
`mapM_read` for the items, which are chords, lines of lyrics and single tokens, and
`readDurables_genuine` for the pieces, which are notes and rests as well.

Two more facts go through all stages. A predicate on the texts of the lines of lyrics of the source
is known of the lines that are read, and a newline follows each comment (`EndsComment`).
-/

namespace SingAlong

/-! ## Results and lists -/

/-- A stage that succeeds after another goes on with the result of the first. -/
theorem bind_eq_ok {α β ε : Type} {x : Except ε α} {f : α → Except ε β} {b : β} :
    (x >>= f) = .ok b ↔ ∃ a, x = .ok a ∧ f a = .ok b := by
  cases x with
  | error e => exact ⟨nofun, fun ⟨a, ha, _⟩ => nomatch ha⟩
  | ok a => exact ⟨fun h => ⟨a, rfl, h⟩, fun ⟨_, ha, h⟩ => by cases ha; exact h⟩

/-- A stage succeeds whatever its errors are called. -/
theorem mapError_eq_ok {ε ε' α : Type} {f : ε → ε'} {x : Except ε α} {a : α} :
    x.mapError f = .ok a ↔ x = .ok a := by
  cases x with
  | error e => exact ⟨nofun, nofun⟩
  | ok b => exact ⟨fun h => by cases h; rfl, fun h => by cases h; rfl⟩

/-- The result of a stage, if there is one. -/
theorem toOption_eq_some {ε α : Type} {x : Except ε α} {a : α} :
    x.toOption = some a ↔ x = .ok a := by
  cases x with
  | error e => exact ⟨nofun, nofun⟩
  | ok b => exact ⟨fun h => by cases h; rfl, fun h => by cases h; rfl⟩

/-- A list of results is there when each of them is. -/
theorem mapM_eq_ok {α β ε : Type} {f : α → Except ε β} {xs : List α} {ys : List β} :
    xs.mapM f = .ok ys ↔ List.Forall₂ (fun x y => f x = .ok y) xs ys := by
  induction xs generalizing ys with
  | nil =>
    rw [List.mapM_nil, List.forall₂_nil_left_iff]
    exact ⟨fun h => by cases h; rfl, fun h => by rw [h]; rfl⟩
  | cons x xs ih =>
    rw [List.mapM_cons, bind_eq_ok]
    constructor
    · rintro ⟨y, hy, h⟩
      obtain ⟨zs, hzs, h⟩ := bind_eq_ok.1 h
      cases h
      exact .cons hy (ih.1 hzs)
    · rintro (_ | ⟨hy, hys⟩)
      exact ⟨_, hy, bind_eq_ok.2 ⟨_, ih.2 hys, rfl⟩⟩

/-- All results of a list are there when each of them is. -/
theorem exists_mapM {α β ε : Type} {f : α → Except ε β} {xs : List α} :
    (∃ ys, xs.mapM f = .ok ys) ↔ ∀ x ∈ xs, ∃ y, f x = .ok y := by
  simp only [mapM_eq_ok]
  induction xs with
  | nil => exact iff_of_true ⟨[], .nil⟩ nofun
  | cons x xs ih =>
    rw [List.forall_mem_cons, ← ih]
    constructor
    · rintro ⟨_, _ | ⟨hy, hys⟩⟩
      exact ⟨⟨_, hy⟩, _, hys⟩
    · rintro ⟨⟨y, hy⟩, ys, hys⟩
      exact ⟨y :: ys, .cons hy hys⟩

/-- Each of a list of results is that of an entry. -/
theorem exists_of_mem_mapM {α β ε : Type} {f : α → Except ε β} {xs : List α} {ys : List β}
    (h : xs.mapM f = .ok ys) : ∀ y ∈ ys, ∃ x ∈ xs, f x = .ok y := by
  have hall := mapM_eq_ok.1 h
  clear h
  induction hall with
  | nil => exact nofun
  | @cons x y xs ys hxy _ ih =>
    refine List.forall_mem_cons.2 ⟨⟨x, List.mem_cons_self, hxy⟩, fun y' hy' => ?_⟩
    obtain ⟨x', hx', hxy'⟩ := ih y' hy'
    exact ⟨x', List.mem_cons_of_mem x hx', hxy'⟩

/-- An entry that a list is not split at belongs to the first part. -/
theorem splitOnP_cons_of_neg {α : Type} {p : α → Bool} {x : α} (hx : ¬p x) (xs : List α) :
    ∃ part parts, xs.splitOnP p = part :: parts ∧ (x :: xs).splitOnP p = (x :: part) :: parts := by
  obtain ⟨part, parts, hparts⟩ := List.exists_cons_of_ne_nil (List.splitOnP_ne_nil p xs)
  refine ⟨part, parts, hparts, ?_⟩
  rw [List.splitOnP_cons_eq_if_modifyHead, if_neg hx, hparts]
  rfl

/-- Before an entry that a list is split at the first part is empty. -/
theorem splitOnP_cons_of_pos {α : Type} {p : α → Bool} {x : α} (hx : p x) (xs : List α) :
    (x :: xs).splitOnP p = [] :: xs.splitOnP p := by
  rw [List.splitOnP_cons_eq_if_modifyHead, if_pos hx]

/-! ## Notes and rests -/

open Score (Note Suffix Chord Lyrics)

/-- The element that a token is read as is a leaf. -/
theorem Token.unplaced_node (k : Token) (l : Label) : (k.node l).unplaced = Node.leaf l :=
  rfl

/-- A child that is added is added without its places. -/
theorem Node.unplaced_append (n m : Node) :
    (n.append m).unplaced = n.unplaced.append m.unplaced := by
  obtain ⟨l, s, t, ns⟩ := n
  rw [Node.append, Node.unplaced_mk, Node.unplaced_mk, List.map_append]
  rfl

/-- A note or a rest of a score. -/
def IsDurable (n : Node) : Prop :=
  (∃ note : Note, n.unplaced = note.node) ∨ ∃ s : Suffix, n.unplaced = s.rest

/-- What is pending is a note or rest of a score, and what can still be added to it is not there
yet. -/
def Pending.Genuine : Pending → Prop
  | .durable _ n octaveDue lengthDue =>
    (∃ note : Note, n.unplaced = note.node ∧ (octaveDue → note.octaves = []) ∧
      (octaveDue ∨ lengthDue → note.suffix.text = [])) ∨
    ∃ s : Suffix, n.unplaced = s.rest ∧ octaveDue = false ∧ (lengthDue → s.text = [])
  | _ => True

/-- A note or rest that is complete is one of a score. -/
theorem Pending.complete_genuine {p : Pending} (hp : p.Genuine) :
    ∀ piece ∈ p.complete, ∃ start n, piece = .durable start n ∧ IsDurable n := by
  cases p with
  | nothing => exact nofun
  | accidental => exact nofun
  | durable start n octaveDue lengthDue =>
    intro piece hpiece
    obtain rfl := List.mem_singleton.1 hpiece
    refine ⟨start, n, rfl, ?_⟩
    rcases hp with ⟨note, hn, -⟩ | ⟨s, hs, -⟩
    · exact .inl ⟨note, hn⟩
    · exact .inr ⟨s, hs⟩

/-- No suffix. -/
def Score.Suffix.none : Suffix :=
  ⟨[], .inl rfl⟩

/-- Octave marks are added to a note that has none and no suffix. -/
theorem Score.Note.append_octave {n : Note} (ho : n.octaves = []) (hs : n.suffix.text = [])
    {octaves : List OctaveMark} (hne : octaves ≠ []) :
    n.node.append (Node.leaf (.octave octaves)) = { n with octaves }.node := by
  simp [Note.node, Note.marks, Suffix.nodes, Node.unread, Node.append, ho, hs, hne]

/-- A length is added to a note that has none. -/
theorem Score.Note.append_length {n : Note} (hs : n.suffix.text = []) {t : Text} (ht : IsLength t) :
    n.node.append (Node.leaf (.length t)) = { n with suffix := ⟨t, .inr ht⟩ }.node := by
  simp [Note.node, Note.marks, Suffix.nodes, Node.unread, Node.append, hs, ht.1]

/-- A length is added to a rest that has none. -/
theorem Score.Suffix.append_length {s : Suffix} (hs : s.text = []) {t : Text} (ht : IsLength t) :
    s.rest.append (Node.leaf (.length t)) = Suffix.rest ⟨t, .inr ht⟩ := by
  simp [Suffix.rest, Suffix.nodes, Node.unread, Node.append, hs, ht.1]

/-- A token completes what is pending, or it goes on with it or fails. -/
theorem Pending.take_done (p : Pending) (t : Token) :
    (p.take t).1 = p.complete ∨ (p.take t).1 = [] := by
  unfold take
  split
  all_goals first
    | exact .inr rfl
    | exact .inl rfl

/-- What a token makes of a pending note or rest is one of a score again. -/
theorem Pending.take_genuine {p p' : Pending} {t : Token} {done : List Piece}
    (hp : p.Genuine) (ht : t.lexeme.Genuine) (h : p.take t = (done, .ok p')) : p'.Genuine := by
  unfold take at h
  split at h
  all_goals cases h
  -- An accidental waits for its note; a note begins with it or alone, and a rest begins.
  case h_2 => exact trivial
  case h_3 name u a hl =>
    exact .inl ⟨⟨some a, name, [], .none⟩, rfl, fun _ => rfl, fun _ => rfl⟩
  case h_4 name hl _ =>
    exact .inl ⟨⟨none, name, [], .none⟩, rfl, fun _ => rfl, fun _ => rfl⟩
  case h_6 hl _ =>
    refine .inr ⟨.none, ?_, rfl, fun _ => rfl⟩
    unfold Token.text
    rw [hl]
    rfl
  -- Octave marks go on with a note only, and a length with a note or a rest.
  case h_7 marks start n lengthDue hl =>
    rw [hl] at ht
    rcases hp with ⟨note, hn, ho, hs⟩ | ⟨s, -, hfalse, -⟩
    · refine .inl ⟨{ note with octaves := marks }, ?_, nofun, fun _ => hs (.inl rfl)⟩
      rw [Node.unplaced_append, hn, Token.unplaced_node,
        note.append_octave (ho rfl) (hs (.inl rfl)) ht]
    · cases hfalse
  case h_8 text start n octaveDue hl =>
    rw [hl] at ht
    rcases hp with ⟨note, hn, ho, hs⟩ | ⟨s, hn, -, hs⟩
    · refine .inl ⟨{ note with suffix := ⟨text, .inr ht⟩ }, ?_, nofun, nofun⟩
      rw [Node.unplaced_append, hn, Token.unplaced_node, note.append_length (hs (.inr rfl)) ht]
    · refine .inr ⟨⟨text, .inr ht⟩, ?_, rfl, nofun⟩
      rw [Node.unplaced_append, hn, Token.unplaced_node, Score.Suffix.append_length (hs rfl) ht]

/-- An item that is read from a source: a token, or a chord or line of lyrics of a score. -/
def Item.Genuine (L : Text → Prop) : Item → Prop
  | .token t => t.lexeme.Genuine
  | .chord _ n => ∃ c : Chord, n.unplaced = c.node
  | .lyrics n => ∃ l : Lyrics, n.unplaced = l.node ∧ L l.text

/-- A piece that is read from a source: a note or rest of a score, or an item. -/
def Piece.Genuine (L : Text → Prop) : Piece → Prop
  | .durable _ n => IsDurable n
  | .item i => i.Genuine L

variable {L : Text → Prop}

section Equations

variable {p p' : Pending} {t : Token} {done : List Piece} {e : SourceError} {i : Item}
  {rest : List Item}

/-- Is the item part of a note or rest? -/
def Item.isMusic : Item → Bool
  | .token t => t.lexeme.isMusic
  | _ => false

/-- A token that goes on with what is pending, or begins a note or rest. -/
theorem readDurables_music (hm : t.lexeme.isMusic) (h : p.take t = (done, .ok p')) :
    readDurables p (.token t :: rest) =
      ⟨done ++ (readDurables p' rest).pieces, (readDurables p' rest).fault⟩ := by
  rw [readDurables, if_pos hm, h]

/-- A token that neither goes on with what is pending nor can follow it. -/
theorem readDurables_unexpected (hm : t.lexeme.isMusic) (h : p.take t = (done, .error e)) :
    readDurables p (.token t :: rest) = ⟨done, some e⟩ := by
  rw [readDurables, if_pos hm, h]

/-- Another item completes what is pending. -/
theorem readDurables_item (hi : i.isMusic = false) (hp : p.fault? = none) :
    readDurables p (i :: rest) =
      ⟨p.complete ++ .item i :: (readDurables .nothing rest).pieces,
        (readDurables .nothing rest).fault⟩ := by
  cases i with
  | token t =>
    have hm : ¬t.lexeme.isMusic := Bool.eq_false_iff.1 hi
    rw [readDurables, if_neg hm, hp]
  | chord start n => rw [readDurables, hp]; exact nofun
  | lyrics n => rw [readDurables, hp]; exact nofun

/-- Another item leaves an accidental without its note. -/
theorem readDurables_lone (hi : i.isMusic = false) (hp : p.fault? = some e) :
    readDurables p (i :: rest) = ⟨[], some e⟩ := by
  cases i with
  | token t =>
    have hm : ¬t.lexeme.isMusic := Bool.eq_false_iff.1 hi
    rw [readDurables, if_neg hm, hp]
  | chord start n => rw [readDurables, hp]; exact nofun
  | lyrics n => rw [readDurables, hp]; exact nofun

end Equations

/-- Only tokens are parts of notes and rests. -/
theorem Item.exists_token {i : Item} (hm : i.isMusic) : ∃ t, i = .token t := by
  cases i with
  | token t => exact ⟨t, rfl⟩
  | _ => cases hm

/-- The pieces that an item gives: what it completes comes first, and then what the items after it
give, unless it is a fault. An item that is part of no note or rest is a piece of its own. -/
theorem readDurables_cons (p : Pending) (i : Item) (rest : List Item) :
    ∃ done, (done = p.complete ∨ done = []) ∧
      ((readDurables p (i :: rest)).pieces = done ∨
        (∃ t p', i = .token t ∧ p.take t = (done, .ok p') ∧
          (readDurables p (i :: rest)).pieces = done ++ (readDurables p' rest).pieces) ∨
        (readDurables p (i :: rest)).pieces =
          done ++ .item i :: (readDurables .nothing rest).pieces) := by
  by_cases hm : i.isMusic
  · obtain ⟨t, rfl⟩ := Item.exists_token hm
    refine ⟨(p.take t).1, p.take_done t, ?_⟩
    cases htake : p.take t with
    | mk done result =>
      cases result with
      | ok p' => exact .inr (.inl ⟨t, p', rfl, htake, by rw [readDurables_music hm htake]⟩)
      | error e => exact .inl (by rw [readDurables_unexpected hm htake])
  · rw [Bool.not_eq_true] at hm
    cases hfault : p.fault? with
    | some e => exact ⟨[], .inr rfl, .inl (by rw [readDurables_lone hm hfault])⟩
    | none => exact ⟨p.complete, .inl rfl, .inr (.inr (by rw [readDurables_item hm hfault]))⟩

/-- The pieces that are put together are those of a score. -/
theorem readDurables_genuine {p : Pending} {items : List Item} (hp : p.Genuine)
    (hi : ∀ i ∈ items, i.Genuine L) : ∀ piece ∈ (readDurables p items).pieces, piece.Genuine L := by
  induction items generalizing p with
  | nil =>
    intro piece hpiece
    obtain ⟨start, n, rfl, hn⟩ := Pending.complete_genuine hp piece hpiece
    exact hn
  | cons i rest ih =>
    have hrest := fun j hmem => hi j (List.mem_cons_of_mem i hmem)
    have hitem := hi i List.mem_cons_self
    -- What is completed comes first, and is one of a score since it was when it was pending.
    obtain ⟨done, hdone, hcases⟩ := readDurables_cons p i rest
    have hcomplete : ∀ piece ∈ done, piece.Genuine L := by
      intro piece hpiece
      rcases hdone with rfl | rfl
      · obtain ⟨start, n, rfl, hn⟩ := Pending.complete_genuine hp piece hpiece
        exact hn
      · cases hpiece
    rcases hcases with h | ⟨t, p', rfl, htake, h⟩ | h
    · rwa [h]
    · rw [h, List.forall_mem_append]
      exact ⟨hcomplete, ih (Pending.take_genuine hp hitem htake) hrest⟩
    · rw [h, List.forall_mem_append, List.forall_mem_cons]
      exact ⟨hcomplete, hitem, ih (p := .nothing) trivial hrest⟩

/-! ## Comments -/

/-- The token of an item, if it is one. -/
def Item.token? : Item → Option Token
  | .token t => some t
  | _ => none

/-- The token of a piece that is part of no note, if it is one. -/
def Piece.token? : Piece → Option Token
  | .item i => i.token?
  | _ => none

/-- After a comment comes a newline. -/
def EndsComment (a b : Option Token) : Prop :=
  ∀ t ∈ a, ∀ text, t.lexeme = .comment text → ∃ t' ∈ b, t'.lexeme = .newline

/-- Notes and rests, which are no comments, can stand in front. -/
theorem isChain_append_durables {done pieces : List Piece}
    (hd : ∀ piece ∈ done, piece.token? = none)
    (h : pieces.IsChain fun a b => EndsComment a.token? b.token?) :
    (done ++ pieces).IsChain fun a b => EndsComment a.token? b.token? := by
  induction done with
  | nil => exact h
  | cons piece done ih =>
    refine List.isChain_cons.2 ⟨fun b _ t ht => ?_, ih fun q hq => hd q (List.mem_cons_of_mem _ hq)⟩
    rw [hd piece List.mem_cons_self] at ht
    cases ht

/-- A newline still follows each comment among the pieces. -/
theorem readDurables_comments {p : Pending} {items : List Item}
    (h : items.IsChain fun a b => EndsComment a.token? b.token?) :
    (readDurables p items).pieces.IsChain fun a b => EndsComment a.token? b.token? := by
  have hcomplete : ∀ p : Pending, ∀ piece ∈ p.complete, piece.token? = none := by
    rintro (_ | _ | _) piece hpiece
    · cases hpiece
    · cases hpiece
    · obtain rfl := List.mem_singleton.1 hpiece
      rfl
  induction items generalizing p with
  | nil =>
    have hc := isChain_append_durables (hcomplete p) .nil
    rwa [List.append_nil] at hc
  | cons i rest ih =>
    obtain ⟨hhead, hrest⟩ := List.isChain_cons.1 h
    obtain ⟨done, hdone, hcases⟩ := readDurables_cons p i rest
    have hd : ∀ piece ∈ done, piece.token? = none := by
      rcases hdone with rfl | rfl
      · exact hcomplete p
      · exact nofun
    rcases hcases with h | ⟨t, p', rfl, htake, h⟩ | h
    · rw [h, ← List.append_nil done]
      exact isChain_append_durables hd .nil
    · rw [h]
      exact isChain_append_durables hd (ih hrest)
    · rw [h]
      refine isChain_append_durables hd (List.isChain_cons.2 ⟨?_, ih hrest⟩)
      -- The newline after a comment is a piece as well, the next one.
      intro b hb t ht text hl
      cases rest with
      | nil => cases hb
      | cons j rest =>
        obtain ⟨t', ht', hnewline⟩ := hhead j rfl t ht text hl
        obtain rfl : j = .token t' := by cases j <;> cases ht'; rfl
        have hother : (Item.token t').isMusic = false := by rw [Item.isMusic, hnewline]; rfl
        rw [readDurables_item hother rfl] at hb
        cases hb
        exact ⟨t', rfl, hnewline⟩

/-! ## Chords and lines of lyrics -/

/-- The pieces of a chord that are taken are its notes. -/
theorem forall₂_chordNotes {opening : Token} {pieces : List Piece} {ns : List Node}
    (h : chordNotes opening pieces = .ok ns) :
    List.Forall₂ (fun piece n => ∃ start name, piece = .durable start n ∧ n.label = .note name)
      pieces ns := by
  induction pieces generalizing ns with
  | nil =>
    cases h
    exact .nil
  | cons piece pieces ih =>
    cases piece with
    | item i => cases h
    | durable start n =>
      unfold chordNotes at h
      split at h
      next name hl =>
        obtain ⟨ms, hms, h⟩ := bind_eq_ok.1 h
        cases h
        exact .cons ⟨start, name, rfl, hl⟩ (ih hms)
      next => cases h

/-- The notes of a chord are notes of a score. -/
theorem chordNotes_genuine {opening : Token} {pieces : List Piece} {ns : List Node}
    (hp : ∀ piece ∈ pieces, piece.Genuine L) (h : chordNotes opening pieces = .ok ns) :
    ∃ notes : List Note, ns.map Node.unplaced = notes.map Note.node := by
  have hnotes := forall₂_chordNotes h
  clear h
  induction hnotes with
  | nil => exact ⟨[], rfl⟩
  | cons hpiece _ ih =>
    obtain ⟨hfirst, hrest⟩ := List.forall_mem_cons.1 hp
    obtain ⟨start, name, rfl, hl⟩ := hpiece
    obtain ⟨notes, hnotes⟩ := ih hrest
    rcases hfirst with ⟨note, hn⟩ | ⟨s, hs⟩
    · exact ⟨note :: notes, by rw [List.map_cons, List.map_cons, hn, hnotes]⟩
    · -- The label is that of a note, so the piece is no rest.
      rw [← Node.label_unplaced, hs] at hl
      cases hl

/-- A chord that is read has the notes that its tokens are put together to, between brackets. -/
theorem exists_of_readChord {opening : Token} {inside : List Token} {n : Node}
    (h : readChord opening inside = .ok n) : ∃ ts closing notes, inside = ts ++ [closing] ∧
      closing.lexeme = .chordEnd ∧ (readDurables .nothing (ts.map Item.token)).fault = none ∧
      chordNotes opening (readDurables .nothing (ts.map Item.token)).pieces = .ok notes ∧
      notes ≠ [] ∧ n = .mk .chord (some opening.span) (some closing.span) notes := by
  unfold readChord at h
  split at h
  next closing hclosing =>
    split_ifs at h with hend
    obtain ⟨notes, hnotes, h⟩ := bind_eq_ok.1 h
    split at h
    · cases h
    · next hfault =>
      split_ifs at h with hempty
      cases h
      refine ⟨inside.dropLast, closing, notes, ?_, hend, hfault, hnotes, ?_, rfl⟩
      · exact (List.dropLast_append_getLast? closing hclosing).symm
      · rwa [List.isEmpty_iff] at hempty
  next => cases h

/-- A chord that is read is a chord of a score. -/
theorem readChord_genuine {opening : Token} {inside : List Token} {n : Node}
    (hi : ∀ k ∈ inside, k.lexeme.Genuine) (h : readChord opening inside = .ok n) :
    ∃ c : Chord, n.unplaced = c.node := by
  obtain ⟨ts, closing, ns, rfl, -, -, hns, hne, rfl⟩ := exists_of_readChord h
  have hitems : ∀ i ∈ ts.map Item.token, i.Genuine fun _ => True :=
    List.forall_mem_map.2 fun k hk => hi k (List.mem_append_left _ hk)
  obtain ⟨notes, hnotes⟩ :=
    chordNotes_genuine (readDurables_genuine (p := .nothing) trivial hitems) hns
  refine ⟨⟨notes, ?_⟩, by rw [Node.unplaced_mk, hnotes]; rfl⟩
  rintro rfl
  rw [List.map_nil, List.map_eq_nil_iff] at hnotes
  exact hne hnotes

section LyricLine

variable {ks : List Token} {x : Text}

/-- The tokens of the text of a line of lyrics. -/
theorem lyric_of_bare (hx : x.all Rule.inField) (hks : ks.map Token.bare = lex .lyric x) :
    ∀ k ∈ ks, ∃ kind text, k.lexeme = .lyric kind text ∧ kind ≠ .newline ∧ k.region = .lyric := by
  intro k hk
  have hbare : k.bare ∈ lex .lyric x := hks ▸ List.mem_map_of_mem hk
  obtain ⟨k', hk', hkk'⟩ := List.mem_map.1 hbare
  obtain ⟨hlexeme, hregion⟩ := Prod.mk.inj hkk'
  rw [← hlexeme, ← hregion]
  exact tokensFrom_lyric_kinds 0 hx k' hk'

/-- The elements that a line of lyrics has read, without their places: those of its text. -/
theorem filterMap_lyricNode (hx : x.all Rule.inField) (hks : ks.map Token.bare = lex .lyric x) :
    (ks.filterMap lyricNode?).map Node.unplaced = (lex .lyric x).filterMap Score.lyricNode? := by
  rw [← hks, List.filterMap_map, List.map_filterMap]
  refine List.filterMap_congr fun k hk => ?_
  obtain ⟨kind, text, hl, -, -⟩ := lyric_of_bare hx hks k hk
  rw [Function.comp_apply, Token.bare, lyricNode?, Score.lyricNode?, hl]
  rfl

/-- A line of lyrics that is read is that of its text, whether or not a comment or a newline ends
it. -/
theorem readLyrics_genuine (opening : Token) (l : Lyrics)
    (hks : ks.map Token.bare = lex .lyric l.text) {ending : List Token} (he : EndsLyrics ending) :
    (readLyrics opening (ks ++ ending)).unplaced = l.node := by
  obtain ⟨comment, newline, rfl, hcomment, hnewline⟩ := he
  -- A comment gives no element, and no element of the text is a newline.
  have hc : comment.toList.filterMap lyricNode? = [] := by
    refine List.filterMap_eq_nil_iff.2 fun k hk => ?_
    obtain ⟨-, text, hl⟩ := hcomment k (Option.mem_toList.1 hk)
    rw [lyricNode?, hl]
  have hnodes := filterMap_lyricNode l.inField hks
  have hplain : ∀ n ∈ ks.filterMap lyricNode?,
      n.label.isLyricNewline = false := by
    intro n hn
    obtain ⟨k, hk, hkn⟩ := List.mem_filterMap.1 hn
    obtain ⟨kind, text, hl, hkind, -⟩ := lyric_of_bare l.inField hks k hk
    rw [lyricNode?, hl] at hkn
    cases hkn
    cases kind <;> first | rfl | exact absurd rfl hkind
  unfold readLyrics
  rw [List.filterMap_append, List.filterMap_append, hc, List.nil_append]
  generalize ks.filterMap lyricNode? = read at *
  unfold Lyrics.node
  cases newline with
  | none =>
    -- The source ends with the line, which gets a newline all the same.
    have hended : ((read.getLast?.map fun n => n.label.isLyricNewline).getD false) = false := by
      cases hlast : read.getLast? with
      | none => rfl
      | some n => exact hplain n (List.mem_of_getLast? hlast)
    rw [Option.toList_none, List.filterMap_nil, List.append_nil]
    dsimp only
    rw [hended, if_neg Bool.false_ne_true, Node.unplaced_mk, List.map_append, hnodes]
    rfl
  | some k =>
    obtain ⟨-, hl⟩ := hnewline k rfl
    have hk : [k].filterMap lyricNode? = [k.node (.lyric .newline Text.lineEnd)] := by
      rw [List.filterMap_cons, lyricNode?, hl]
      dsimp only
      rw [Token.text, hl]
      rfl
    rw [Option.toList_some, hk]
    dsimp only
    rw [List.getLast?_concat, Node.unplaced_mk]
    simp only [Option.map_some, Option.getD_some]
    rw [if_pos (show (k.node (.lyric .newline Text.lineEnd)).label.isLyricNewline = true from rfl),
      List.map_append, hnodes]
    rfl

end LyricLine

/-- A group that is read from a source; the text of a line of lyrics satisfies the predicate. -/
def Group.Genuine (L : Text → Prop) : Group → Prop
  | .single t => t.lexeme.Genuine
  | .chord _ inside => ∀ k ∈ inside, k.lexeme.Genuine
  | .lyrics _ inside => ∃ (l : Lyrics) (ks ending : List Token), L l.text ∧
      inside = ks ++ ending ∧ ks.map Token.bare = lex .lyric l.text ∧ EndsLyrics ending

/-- The item of a group is what a score is made of. -/
theorem Group.read_genuine {g : Group} {i : Item} (hg : g.Genuine L) (h : g.read = .ok i) :
    i.Genuine L := by
  cases g with
  | single t =>
    cases h
    exact hg
  | chord opening inside =>
    obtain ⟨n, hn, h⟩ := bind_eq_ok.1 h
    cases h
    exact readChord_genuine hg hn
  | lyrics opening inside =>
    cases h
    obtain ⟨l, ks, ending, hl, rfl, hks, he⟩ := hg
    exact ⟨l, readLyrics_genuine opening l hks he, hl⟩

/-- The token of a group, if it is one. -/
def Group.token? : Group → Option Token
  | .single t => some t
  | _ => none

/-- A single token stays one. -/
theorem Group.token?_read {g : Group} {i : Item} (h : g.read = .ok i) : i.token? = g.token? := by
  cases g with
  | single t =>
    cases h
    rfl
  | chord opening inside =>
    obtain ⟨n, hn, h⟩ := bind_eq_ok.1 h
    cases h
    rfl
  | lyrics opening inside =>
    cases h
    rfl

/-! ## Groups of tokens -/

/-- Is it a token inside a chord or a line of lyrics, after the one that opens it? -/
def Token.Inner (k : Token) : Prop :=
  (k.region = .chord ∨ k.region = .lyric) ∧ k.lexeme ≠ .chordStart ∧ k.lexeme ≠ .lyricStart

/-- A token inside a group belongs to the group that is opened before it. -/
theorem groupFrom_cons_inner {k : Token} (hk : k.Inner) (rest : List Token) :
    groupFrom (k :: rest) = (k :: (groupFrom rest).1, (groupFrom rest).2) := by
  obtain ⟨hregion, hchord, hlyric⟩ := hk
  rw [groupFrom]
  rcases hregion with hr | hr
  all_goals
    rw [hr]
    cases hl : k.lexeme with
    | chordStart => exact absurd hl hchord
    | lyricStart => exact absurd hl hlyric
    | _ => rfl

/-- Tokens inside a group belong to the group that is opened before them. -/
theorem groupFrom_inner {inside : List Token} (h : ∀ k ∈ inside, k.Inner) (rest : List Token) :
    groupFrom (inside ++ rest) = (inside ++ (groupFrom rest).1, (groupFrom rest).2) := by
  induction inside with
  | nil => rfl
  | cons k inside ih =>
    obtain ⟨hk, hinside⟩ := List.forall_mem_cons.1 h
    rw [List.cons_append, groupFrom_cons_inner hk, ih hinside, List.cons_append]

/-- What a token does to the groups after it: it is inside a group, or it opens a group, or it is
single. -/
theorem groupFrom_cons (k : Token) (rest : List Token) :
    (k.lexeme = .chordStart ∧
      groupFrom (k :: rest) = ([], .chord k (groupFrom rest).1 :: (groupFrom rest).2)) ∨
    (k.lexeme = .lyricStart ∧
      groupFrom (k :: rest) = ([], .lyrics k (groupFrom rest).1 :: (groupFrom rest).2)) ∨
    (k.Inner ∧ groupFrom (k :: rest) = (k :: (groupFrom rest).1, (groupFrom rest).2)) ∨
    (k.region ≠ .chord ∧ k.region ≠ .lyric ∧
      groupFrom (k :: rest) = ([], .single k :: (groupFrom rest).2)) := by
  by_cases hc : k.lexeme = .chordStart
  · exact .inl ⟨hc, by rw [groupFrom, hc]⟩
  · by_cases hs : k.lexeme = .lyricStart
    · exact .inr (.inl ⟨hs, by rw [groupFrom, hs]⟩)
    · by_cases hr : k.region = .chord ∨ k.region = .lyric
      · have hk : k.Inner := ⟨hr, hc, hs⟩
        exact .inr (.inr (.inl ⟨hk, groupFrom_cons_inner hk rest⟩))
      · obtain ⟨hr₁, hr₂⟩ := not_or.1 hr
        refine .inr (.inr (.inr ⟨hr₁, hr₂, ?_⟩))
        rw [groupFrom]
        cases hl : k.lexeme with
        | chordStart => exact absurd hl hc
        | lyricStart => exact absurd hl hs
        | _ =>
          cases hr : k.region with
          | chord => exact absurd hr hr₁
          | lyric => exact absurd hr hr₂
          | _ => rfl

/-- A token that opens no group and belongs to none is single. -/
theorem groupFrom_cons_single {k : Token} (hchord : k.lexeme ≠ .chordStart)
    (hlyrics : k.lexeme ≠ .lyricStart) (hc : k.region ≠ .chord) (hl : k.region ≠ .lyric)
    (rest : List Token) : groupFrom (k :: rest) = ([], .single k :: (groupFrom rest).2) := by
  rcases groupFrom_cons k rest with ⟨hstart, -⟩ | ⟨hstart, -⟩ | ⟨hinner, -⟩ | ⟨-, -, heq⟩
  · exact absurd hstart hchord
  · exact absurd hstart hlyrics
  · exact absurd hinner.1 (not_or.2 ⟨hc, hl⟩)
  · exact heq

/-- No tokens belong to a group opened before unless the first one does. -/
theorem groupFrom_eq_nil {ts : List Token} (h : ∀ k ∈ ts.head?, ¬k.Inner) :
    (groupFrom ts).1 = [] := by
  cases ts with
  | nil => rfl
  | cons k rest =>
    rcases groupFrom_cons k rest with ⟨-, heq⟩ | ⟨-, heq⟩ | ⟨hinner, -⟩ | ⟨-, -, heq⟩
    · rw [heq]
    · rw [heq]
    · exact absurd hinner (h k rfl)
    · rw [heq]

/-- The tokens inside the group that is opened before are tokens of the source. -/
theorem groupFrom_subset (ts : List Token) : ∀ k ∈ (groupFrom ts).1, k ∈ ts := by
  induction ts with
  | nil => exact nofun
  | cons k rest ih =>
    intro k' hk'
    rcases groupFrom_cons k rest with ⟨-, h⟩ | ⟨-, h⟩ | ⟨-, h⟩ | ⟨-, -, h⟩
    · rw [h] at hk'
      cases hk'
    · rw [h] at hk'
      cases hk'
    · rw [h] at hk'
      rcases List.mem_cons.1 hk' with rfl | hk'
      · exact List.mem_cons_self
      · exact List.mem_cons_of_mem k (ih k' hk')
    · rw [h] at hk'
      cases hk'

/-- The body begins with no group opened before it. -/
theorem groupFrom_body (pos : Nat) (t : Text) : (groupFrom (tokensFrom .body pos 0 t)).1 = [] := by
  refine tokensFrom_induction (motive := fun r _ _ ts => r = .body → (groupFrom ts).1 = [])
    ?nil ?lexeme ?blanks .body pos t rfl
  case nil =>
    intro r pos hr
    rfl
  case lexeme =>
    rintro r pos l own next rest hnext ⟨-, -, -, ⟨hl, hm⟩, -⟩ ih rfl
    rcases groupFrom_cons ⟨pos, l, own⟩ (tokensFrom next (pos + l.text.length) 0 rest) with
      ⟨-, h⟩ | ⟨-, h⟩ | ⟨⟨hown, hchord, hlyric⟩, h⟩ | ⟨-, -, h⟩
    · rw [h]
    · rw [h]
    · -- A token that the body begins with belongs to it, unless it opens a group.
      change Region.body.has l at hl
      change (own, next) = Region.body.move l at hm
      have hbody : own = .body := by
        cases l <;> first | exact (Prod.mk.inj hm).1 | contradiction
      rcases hown with hown | hown
      · exact absurd (hbody.symm.trans hown) nofun
      · exact absurd (hbody.symm.trans hown) nofun
    · rw [h]
  case blanks =>
    rintro r pos b rest hnext hb r' rfl ih rfl
    exact ih rfl

/-- Tokens at the front of a source leave the groups after them. -/
theorem groupFrom_suffix (xs ts : List Token) : (groupFrom ts).2 <:+ (groupFrom (xs ++ ts)).2 := by
  induction xs with
  | nil => exact List.suffix_rfl
  | cons k xs ih =>
    rw [List.cons_append]
    rcases groupFrom_cons k (xs ++ ts) with ⟨-, h⟩ | ⟨-, h⟩ | ⟨-, h⟩ | ⟨-, -, h⟩
    · rw [h]
      exact ih.trans (List.suffix_cons ..)
    · rw [h]
      exact ih.trans (List.suffix_cons ..)
    · rwa [h]
    · rw [h]
      exact ih.trans (List.suffix_cons ..)

/-- The texts of the lines of lyrics of a source satisfy a predicate, each up to the end of the line
or a comment. -/
def LyricTexts (L : Text → Prop) (source : Text) (ts : List Token) : Prop :=
  ∀ k ∈ ts, k.lexeme = .lyricStart → L ((source.drop k.stop).takeWhile Rule.inField)

/-- The tokens after the one that opens a line of lyrics: the line with its end, and the body. -/
theorem groupFrom_lyrics (pos : Nat) (t : Text) :
    ∃ ending, EndsLyrics ending ∧ (groupFrom (tokensFrom .lyric pos 0 t)).1 =
      tokensFrom .lyric pos 0 (t.takeWhile Rule.inField) ++ ending := by
  obtain ⟨ending, pos', rest, ht, he⟩ := tokensFrom_lyric pos t
  have hfield : (t.takeWhile Rule.inField).all Rule.inField := List.all_takeWhile
  have hinner : ∀ k ∈ tokensFrom .lyric pos 0 (t.takeWhile Rule.inField) ++ ending, k.Inner := by
    intro k hk
    rcases List.mem_append.1 hk with hk | hk
    · obtain ⟨kind, text, hl, -, hr⟩ := tokensFrom_lyric_kinds pos hfield k hk
      exact ⟨.inr hr, by rw [hl]; exact nofun, by rw [hl]; exact nofun⟩
    · obtain ⟨comment, newline, rfl, hcomment, hnewline⟩ := he
      rcases List.mem_append.1 hk with hk | hk
      · obtain ⟨hr, text, hl⟩ := hcomment k (Option.mem_toList.1 hk)
        exact ⟨.inr hr, by rw [hl]; exact nofun, by rw [hl]; exact nofun⟩
      · obtain ⟨hr, hl⟩ := hnewline k (Option.mem_toList.1 hk)
        exact ⟨.inr hr, by rw [hl]; exact nofun, by rw [hl]; exact nofun⟩
  exact ⟨ending, he, by rw [ht, groupFrom_inner hinner, groupFrom_body, List.append_nil]⟩

/-- The groups of a source are what a score is made of. -/
theorem groupFrom_genuine (source : Text) (r : Region) (pos : Nat)
    (h : LyricTexts L source (tokensFrom r pos 0 (source.drop pos))) :
    ∀ g ∈ (groupFrom (tokensFrom r pos 0 (source.drop pos))).2, g.Genuine L := by
  refine tokensFrom_induction (motive := fun _ pos t ts => source.drop pos = t →
    LyricTexts L source ts → ∀ g ∈ (groupFrom ts).2, g.Genuine L) ?nil ?lexeme ?blanks r pos _ rfl h
  case nil =>
    intro r pos hsource hlyrics g hg
    cases hg
  case lexeme =>
    rintro r pos l own next rest hnext ⟨hgenuine, -, -, ⟨hl, hm⟩, -⟩ ih hsource hlyrics
    have hrest : source.drop (pos + l.text.length) = rest := by
      rw [← List.drop_drop, hsource, List.drop_left]
    have hgroups := ih hrest fun k hk => hlyrics k (List.mem_cons_of_mem _ hk)
    rcases groupFrom_cons ⟨pos, l, own⟩ (tokensFrom next (pos + l.text.length) 0 rest) with
      ⟨-, h⟩ | ⟨hstart, h⟩ | ⟨-, h⟩ | ⟨-, -, h⟩
    · rw [h, List.forall_mem_cons]
      exact ⟨fun k hk => tokensFrom_genuine _ _ _ k (groupFrom_subset _ k hk), hgroups⟩
    · -- The text of the line of lyrics is that of the source after the opening token.
      rw [h, List.forall_mem_cons]
      refine ⟨?_, hgroups⟩
      change l = .lyricStart at hstart
      subst hstart
      have htext := hlyrics _ List.mem_cons_self rfl
      change L ((source.drop (pos + Lexeme.lyricStart.text.length)).takeWhile Rule.inField) at htext
      rw [hrest] at htext
      have hnextlyric : next = .lyric := by
        generalize r.current _ = r' at hl hm
        cases r' <;> first | contradiction | exact (Prod.mk.inj hm).2
      subst hnextlyric
      obtain ⟨ending, he, hinside⟩ := groupFrom_lyrics (pos + Lexeme.lyricStart.text.length) rest
      exact ⟨⟨rest.takeWhile Rule.inField, List.all_takeWhile⟩, _, ending, htext, hinside,
        map_bare_eq_lex _ _ _, he⟩
    · rwa [h]
    · rw [h, List.forall_mem_cons]
      exact ⟨hgenuine, hgroups⟩
  case blanks =>
    rintro r pos b rest hnext hb r' rfl ih hsource hlyrics
    exact ih (by rw [← List.drop_drop, hsource, List.drop_left]) hlyrics

/-- A newline still follows each comment among the groups. -/
theorem groupFrom_comments {ts : List Token} (h : ts.IsChain Token.EndsLine)
    (hr : ∀ k ∈ ts, k.region ≠ .header) :
    (groupFrom ts).2.IsChain fun a b => EndsComment a.token? b.token? := by
  induction ts with
  | nil => exact .nil
  | cons k rest ih =>
    obtain ⟨hhead, hrest⟩ := List.isChain_cons.1 h
    have hchain := ih hrest fun k' hk' => hr k' (List.mem_cons_of_mem k hk')
    rcases groupFrom_cons k rest with ⟨-, h⟩ | ⟨-, h⟩ | ⟨-, h⟩ | ⟨hr₁, hr₂, h⟩
    · rw [h]
      exact List.isChain_cons.2 ⟨fun b hb t ht => (nomatch ht), hchain⟩
    · rw [h]
      exact List.isChain_cons.2 ⟨fun b hb t ht => (nomatch ht), hchain⟩
    · rwa [h]
    · rw [h]
      refine List.isChain_cons.2 ⟨?_, hchain⟩
      rintro b hb _ ⟨⟩ text hl
      have hbody : k.region = .body := by
        have hheader := hr k List.mem_cons_self
        cases hk : k.region <;> first | rfl | contradiction
      -- The token after the comment is a newline of the body, which is single.
      cases rest with
      | nil => cases hb
      | cons k' rest =>
        obtain ⟨hnewline, hr'⟩ := hhead k' rfl text hl hbody
        have hsingle : (groupFrom (k' :: rest)).2 = .single k' :: (groupFrom rest).2 := by
          rw [groupFrom, hnewline, hr']
        rw [hsingle] at hb
        cases hb
        exact ⟨k', rfl, hnewline⟩

/-- The items that groups are read as are what a score is made of, and a newline still follows each
comment. -/
theorem mapM_read {groups : List Group} {items : List Item}
    (hg : ∀ g ∈ groups, g.Genuine L)
    (hc : groups.IsChain fun a b => EndsComment a.token? b.token?)
    (h : groups.mapM Group.read = .ok items) :
    (∀ i ∈ items, i.Genuine L) ∧ items.IsChain fun a b => EndsComment a.token? b.token? := by
  have hread := mapM_eq_ok.1 h
  clear h
  induction hread with
  | nil => exact ⟨nofun, .nil⟩
  | @cons g i groups items hi hread ih =>
    obtain ⟨hhead, hrest⟩ := List.isChain_cons.1 hc
    obtain ⟨hitems, hchain⟩ := ih (fun g' hg' => hg g' (List.mem_cons_of_mem g hg')) hrest
    rw [List.forall_mem_cons]
    refine ⟨⟨Group.read_genuine (hg g List.mem_cons_self) hi, hitems⟩,
      List.isChain_cons.2 ⟨?_, hchain⟩⟩
    intro j hj
    rw [Group.token?_read hi]
    cases hread with
    | nil => cases hj
    | @cons g' _ _ _ hj' _ =>
      cases hj
      rw [Group.token?_read hj']
      exact hhead g' rfl

end SingAlong
