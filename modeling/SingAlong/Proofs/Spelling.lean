import SingAlong.Proofs.Score

/-!
# The text of a score is made of its lexemes

The text of a score is read as the lexemes of the score (`Score.lexemes_text`). Each lexeme is
recognised in front of what can follow it there: a sharp in front of a note letter, a bar in front
of a space or a newline, an octave mark or a length in front of anything that does not go on with
it (`Apart`). One lemma for each part of a score says so with an arbitrary rest behind it, and the
lemmas are put together in the order of the text.
-/

namespace SingAlong

/-! ## One lexeme at the front -/

/-- A lexeme that is recognised comes first. -/
theorem lex_recognised {r own next : Region} {l : Lexeme} {t rest : Text} (ht : l.text = t)
    (hl : t ≠ []) (h : r.recognise (t ++ rest) = some (.lexeme l own next)) :
    lex r (t ++ rest) = (l, own) :: lex next rest := by
  subst ht
  unfold lex
  rw [tokensFrom_recognised hl h, List.map_cons, map_bare_eq_lex]
  rfl

/-- Blanks that are recognised are passed over. -/
theorem lex_blanks {r : Region} {b rest : Text} (hb : b ≠ [])
    (h : r.recognise (b ++ rest) = some (.blanks b)) : lex r (b ++ rest) = lex r rest := by
  unfold lex
  rw [tokensFrom_blanks (by rw [Region.current_of_recognise h, Region.next_of_recognise h]) hb,
    Region.current_of_recognise h, map_bare_eq_lex]
  rfl

/-- A region that skips blanks of a class passes over all of them at the front. -/
theorem lex_dropWhile {r : Region} {p : CodePoint → Bool}
    (h : ∀ c t, p c → r.recognise (c :: t) = some (.blanks ((c :: t).takeWhile p))) (t : Text) :
    lex r t = lex r (t.dropWhile p) := by
  cases t with
  | nil => rfl
  | cons c t =>
    by_cases hc : p c
    · have hrun := h c t hc
      have hne : (c :: t).takeWhile p ≠ [] := by
        rw [List.takeWhile_cons_of_pos hc]
        exact List.cons_ne_nil _ _
      have ht := List.takeWhile_append_dropWhile (p := p) (l := c :: t)
      generalize (c :: t).takeWhile p = b at *
      generalize (c :: t).dropWhile p = rest at *
      rw [← ht] at hrun ⊢
      exact lex_blanks hne hrun
    · rw [List.dropWhile_cons_of_neg hc]

/-- A blank between lexemes is passed over. -/
theorem lex_cons_blank {r : Region} {p : CodePoint → Bool}
    (h : ∀ c t, p c → r.recognise (c :: t) = some (.blanks ((c :: t).takeWhile p)))
    {c : CodePoint} (hc : p c) (t : Text) : lex r (c :: t) = lex r t := by
  rw [lex_dropWhile h, lex_dropWhile h t, List.dropWhile_cons_of_pos hc]

/-- No letter is blank. -/
theorem isPlainLetter_of_isBlank {c : CodePoint} (h : isBlank c) : isPlainLetter c = false := by
  unfold isBlank at h
  unfold isPlainLetter
  simp only [Bool.or_eq_true, Bool.and_eq_true, decide_eq_true_eq, beq_iff_eq] at h
  simp only [Bool.or_eq_false_iff, Bool.and_eq_false_iff, decide_eq_false_iff_not]
  omega

/-- The header passes over blanks. -/
theorem Region.recognise_header_blank (c : CodePoint) (t : Text) (hc : isBlank c) :
    Region.header.recognise (c :: t) = some (.blanks ((c :: t).takeWhile isBlank)) := by
  have hne : ∀ d : CodePoint, isBlank d = false → c ≠ d := by
    rintro d hd rfl
    rw [hc] at hd
    cases hd
  unfold Region.recognise Region.rules Rule.skipping Rule.many
  simp only [List.findSome?_cons, Rule.keyField_cons (hne 'K' (by decide)),
    Rule.field_cons (isPlainLetter_of_isBlank hc), Rule.comment_cons (hne '%' (by decide)),
    List.takeWhile_cons_of_pos hc]
  rfl

/-- A newline in the header is passed over. -/
theorem lex_header_lineEnd (t : Text) :
    lex .header (Text.lineEnd ++ t) = lex .header t :=
  lex_cons_blank Region.recognise_header_blank (by decide) t

/-- The body passes over spaces, tabs and carriage returns. -/
theorem Region.recognise_body_blank (c : CodePoint) (t : Text)
    (hc : c == ' ' || c == '\t' || c == '\r') : Region.body.recognise (c :: t) =
      some (.blanks ((c :: t).takeWhile fun c => c == ' ' || c == '\t' || c == '\r')) := by
  have hcases : c = ' ' ∨ c = '\t' ∨ c = '\r' := by
    simpa [or_assoc] using hc
  unfold Region.recognise Region.rules Rule.skipping
  rcases hcases with rfl | rfl | rfl
  all_goals
    simp (disch := decide) only [List.cons_append, List.findSome?_cons, Rule.spelled_cons,
      Rule.field_cons, Rule.comment_cons]
    rfl

/-- A space in the body is passed over. -/
theorem lex_space (t : Text) : lex .body (Score.space ++ t) = lex .body t :=
  lex_cons_blank Region.recognise_body_blank (by decide) t

/-! ## The parts of notes and rests -/

namespace Region

/-- The characters that begin something else than a part of a note or rest. -/
def signChars : Text :=
  "wV%\n \t\r|[:(]".text

variable {m : Region} {c : CodePoint} {t : Text}

/-- A spelling that begins with a character of a class does not apply where another begins. -/
theorem spelled_head {l : Lexeme} {own next : Region} (p : CodePoint → Bool) (hc : p c = false)
    (hl : l.text.head?.any p = true) : Rule.spelled l own next (c :: t) = none := by
  refine Rule.spelled_cons (fun h => ?_) (fun h => ?_)
  · rw [h] at hl
    cases hl
  · rw [h, Option.any_some, hc] at hl
    cases hl

/-- Only the rules for notes and rests apply where no other sign begins. -/
theorem recognise_music (hm : m = .body ∨ m = .chord) (hc : c ∉ signChars) :
    m.recognise (c :: t) = (Rule.music m).findSome? fun rule => rule (c :: t) := by
  have hne {s : CodePoint} (hs : s ∈ signChars) : c ≠ s := by
    rintro rfl
    exact hc hs
  have hsign : signChars.contains c = false := by simpa using hc
  have hblank : (c == ' ' || c == '\t' || c == '\r') = false := by
    rw [beq_eq_false_iff_ne.2 (hne (s := ' ') (by decide)),
      beq_eq_false_iff_ne.2 (hne (s := '\t') (by decide)),
      beq_eq_false_iff_ne.2 (hne (s := '\r') (by decide))]
    rfl
  have hspace : (c == ' ' || c == '\t') = false := (Bool.or_eq_false_iff.1 hblank).1
  have hvoice : (c == 'V') = false := beq_eq_false_iff_ne.2 (hne (by decide))
  have hcomment : Rule.comment .body (c :: t) = none := Rule.comment_cons (hne (by decide))
  have hfield : Rule.field (· == 'V') .voiceField .body (c :: t) = none := Rule.field_cons hvoice
  have hskip : Rule.many (fun c => c == ' ' || c == '\t' || c == '\r') .blanks (c :: t) = none :=
    Rule.many_cons hblank
  have hskip' : Rule.many (fun c => c == ' ' || c == '\t') .blanks (c :: t) = none :=
    Rule.many_cons hspace
  unfold recognise
  rcases hm with rfl | rfl
  · unfold rules Rule.skipping
    simp (disch := decide) only [Bar.all, TupletSize.all, List.map_cons, List.map_nil,
      List.cons_append, List.nil_append, List.findSome?_cons,
      spelled_head signChars.contains hsign, hcomment, hfield, hskip]
  · unfold rules Rule.skipping
    simp (disch := decide) only [List.cons_append, List.nil_append, List.findSome?_cons,
      spelled_head signChars.contains hsign, hskip']

/-- An accidental is recognised in front of a note letter. -/
theorem recognise_accidental (hm : m = .body ∨ m = .chord) (a : Accidental) (n : NoteName) :
    m.recognise (a.text ++ (n.text ++ t)) = some (.lexeme (.accidental a) m m) := by
  -- A double accidental would need its sign again where the letter is.
  have hn : n.char ≠ '^' ∧ n.char ≠ '_' := by
    obtain ⟨letter, high⟩ := n
    cases letter <;> cases high <;> decide
  cases a
  all_goals
    rw [show Accidental.text _ ++ (n.text ++ t) = _ :: _ from rfl, recognise_music hm (by decide)]
    simp [Rule.music, Accidental.all, Rule.spelled, Lexeme.text, Accidental.text, NoteName.text,
      hn.1.symm, hn.2.symm]

/-- A note letter is recognised. -/
theorem recognise_note (hm : m = .body ∨ m = .chord) (n : NoteName) :
    m.recognise (n.char :: t) = some (.lexeme (.note n) m m) := by
  obtain ⟨letter, high⟩ := n
  cases letter <;> cases high
  all_goals
    rw [recognise_music hm (by decide)]
    rfl

/-- A rest is recognised. -/
theorem recognise_rest (hm : m = .body ∨ m = .chord) :
    m.recognise (Lexeme.rest.text ++ t) = some (.lexeme .rest m m) := by
  rw [show Lexeme.rest.text ++ t = ('z' : CodePoint) :: t from rfl,
    recognise_music hm (by decide)]
  rfl

/-- Marks are read off the front up to the first other character. -/
theorem front_map (marks : List OctaveMark) (ht : ∀ d ∈ t.head?, OctaveMark.ofChar? d = none) :
    OctaveMark.front (marks.map OctaveMark.char ++ t) = marks := by
  induction marks with
  | nil =>
    cases t with
    | nil => rfl
    | cons d t =>
      rw [List.map_nil, List.nil_append, OctaveMark.front, ht d rfl]
  | cons mark marks ih =>
    have hmark : OctaveMark.ofChar? mark.char = some mark := by cases mark <;> rfl
    rw [List.map_cons, List.cons_append, OctaveMark.front, hmark]
    exact congrArg _ ih

/-- Octave marks are recognised up to the first other character. -/
theorem recognise_octave (hm : m = .body ∨ m = .chord) {marks : List OctaveMark}
    (hmarks : marks ≠ []) (ht : ∀ d ∈ t.head?, OctaveMark.ofChar? d = none) :
    m.recognise (marks.map OctaveMark.char ++ t) = some (.lexeme (.octave marks) m m) := by
  obtain ⟨mark, others, rfl⟩ := List.exists_cons_of_ne_nil hmarks
  have hfront := front_map (mark :: others) ht
  have hoctave : Rule.octave m ((mark :: others).map OctaveMark.char ++ t) =
      some (.lexeme (.octave (mark :: others)) m m) := by
    unfold Rule.octave
    rw [hfront]
    rfl
  rw [List.map_cons, List.cons_append] at hoctave ⊢
  cases mark
  all_goals
    rw [recognise_music hm (by decide)]
    unfold Rule.music
    simp (disch := decide) only [Accidental.all, List.map_cons, List.map_nil, List.cons_append,
      List.nil_append, List.findSome?_cons, Rule.spelled_cons, Rule.note_cons, hoctave]

/-- What begins a length suffix. -/
def startsLength (c : CodePoint) : Bool :=
  isDigit c || c == '/'

/-- A length suffix begins with a digit or a slash. -/
theorem head_of_isLength {t : Text} (h : IsLength t) :
    ∃ c rest, t = c :: rest ∧ startsLength c := by
  obtain ⟨hne, num, den, hnum, -, ht⟩ := h
  cases num with
  | nil =>
    rcases ht with rfl | rfl
    · exact absurd rfl hne
    · exact ⟨_, _, rfl, by decide⟩
  | cons c num =>
    have hc : startsLength c := by
      rw [List.all_cons, Bool.and_eq_true] at hnum
      rw [startsLength, hnum.1]
      rfl
    rcases ht with rfl | rfl
    · exact ⟨c, num, rfl, hc⟩
    · exact ⟨c, _, rfl, hc⟩

/-- The length rule takes a length suffix up to what does not go on with it. -/
theorem length_eq_some {l : Text} (hl : IsLength l)
    (ht : ∀ d ∈ t.head?, startsLength d = false) :
    Rule.length m (l ++ t) = some (.lexeme (.length l) m m) := by
  obtain ⟨hne, num, den, hnum, hden, hcases⟩ := hl
  have hstop : t.takeWhile isDigit = [] := by
    cases t with
    | nil => rfl
    | cons d t =>
      have hd := Bool.or_eq_false_iff.1 (ht d rfl)
      exact List.takeWhile_cons_of_neg (by rw [hd.1]; exact Bool.false_ne_true)
  have htake {u : Text} (hu : u.takeWhile isDigit = []) {ds : Text} (hds : ds.all isDigit) :
      (ds ++ u).takeWhile isDigit = ds := by
    rw [List.takeWhile_append_of_pos (List.all_eq_true.1 hds), hu, List.append_nil]
  unfold Rule.length
  -- Digits alone, and digits with a slash and more digits.
  rcases hcases with rfl | rfl
  · rw [htake hstop hnum]
    dsimp only
    rw [List.drop_left]
    split
    next rest => cases ht _ rfl
    next => rw [if_neg (by simpa using hne)]
  · have hslash : ((('/' : CodePoint) :: den) ++ t).takeWhile isDigit = [] := rfl
    rw [List.append_assoc, htake hslash hnum]
    dsimp only
    rw [List.drop_left, List.cons_append]
    have hrun : num ++ "/".text ++ (den ++ t).takeWhile isDigit =
        num ++ ('/' : CodePoint) :: den := by
      rw [htake hstop hden, List.append_assoc]
      rfl
    split
    next heq =>
      cases heq
      rw [hrun, if_neg (by simp)]
    next hno => exact absurd rfl (hno _)

/-- A length suffix is recognised up to what does not go on with it. -/
theorem recognise_length (hm : m = .body ∨ m = .chord) {l : Text} (hl : IsLength l)
    (ht : ∀ d ∈ t.head?, startsLength d = false) :
    m.recognise (l ++ t) = some (.lexeme (.length l) m m) := by
  obtain ⟨c, rest, hcons, hc⟩ := head_of_isLength hl
  have hother : ∀ s : CodePoint, startsLength s = false → c ≠ s := by
    rintro s hs rfl
    rw [hc] at hs
    cases hs
  -- No sign, note letter or octave mark is a digit or a slash, so only the length rule applies.
  have hsign : c ∉ signChars := fun hmem =>
    hother c ((by decide : ∀ s ∈ signChars, startsLength s = false) c hmem) rfl
  have hnote : NoteName.ofChar? c = none := by
    refine List.find?_eq_none.2 fun n hn h => ?_
    have hs := (by decide : ∀ n ∈ NoteName.all, startsLength n.char = false) n hn
    exact hother _ hs (beq_iff_eq.1 h).symm
  have hoctave : OctaveMark.ofChar? c = none := by
    unfold OctaveMark.ofChar?
    rw [if_neg (hother _ (by decide)), if_neg (hother _ (by decide))]
  have hstart : (!startsLength c) = false := by
    rw [hc]
    rfl
  have hlength := length_eq_some (m := m) hl ht
  rw [hcons, List.cons_append] at hlength ⊢
  rw [recognise_music hm hsign]
  unfold Rule.music
  simp (disch := decide) only [Accidental.all, List.map_cons, List.map_nil, List.cons_append,
    List.nil_append, List.findSome?_cons, spelled_head (!startsLength ·) hstart,
    Rule.note_cons hnote, Rule.octave_cons hoctave, hlength]

end Region

/-! ## The parts of a score -/

namespace Score

variable {m : Region} {rest : Text}

/-- Nothing at the front goes on with a note. -/
def Apart (t : Text) : Prop :=
  ∀ c ∈ t.head?, Region.startsLength c = false ∧ OctaveMark.ofChar? c = none

/-- A suffix is read in front of anything that does not go on with it. -/
theorem lex_suffix (hm : m = .body ∨ m = .chord) (s : Suffix)
    (h : ∀ c ∈ rest.head?, Region.startsLength c = false) :
    lex m (s.text ++ rest) = s.lexemes.map (·, m) ++ lex m rest := by
  unfold Suffix.lexemes
  rcases s.isLength with hs | hs
  · rw [hs]
    rfl
  · have hne := hs.1
    rw [lex_recognised (l := .length s.text) (t := s.text) rfl hne
        (Region.recognise_length hm hs h),
      if_neg (by simpa using hne)]
    rfl

/-- Octave marks are read in front of a suffix or anything that does not go on with them. -/
theorem lex_octaves (hm : m = .body ∨ m = .chord) (octaves : List OctaveMark)
    (h : ∀ c ∈ rest.head?, OctaveMark.ofChar? c = none) :
    lex m (octaves.map OctaveMark.char ++ rest) =
      (octaveLexemes octaves).map (·, m) ++ lex m rest := by
  cases octaves with
  | nil => rfl
  | cons mark octaves =>
    rw [lex_recognised (l := .octave (mark :: octaves)) (t := (mark :: octaves).map OctaveMark.char)
      rfl (List.cons_ne_nil _ _)
      (Region.recognise_octave hm (List.cons_ne_nil _ _) h)]
    rfl

/-- A suffix does not go on with octave marks. -/
theorem Suffix.head_text (s : Suffix) (h : Apart rest) :
    ∀ c ∈ (s.text ++ rest).head?, OctaveMark.ofChar? c = none := by
  rcases s.isLength with hs | hs
  · rw [hs]
    exact fun c hc => (h c hc).2
  · obtain ⟨c, t, ht, hc⟩ := Region.head_of_isLength hs
    rw [ht]
    rintro d ⟨⟩
    unfold OctaveMark.ofChar?
    split_ifs with h1 h2
    · rw [h1] at hc
      cases hc
    · rw [h2] at hc
      cases hc
    · rfl

/-- A note is read in front of anything that does not go on with it. -/
theorem lex_note (hm : m = .body ∨ m = .chord) (n : Note) (h : Apart rest) :
    lex m (n.text ++ rest) = n.lexemes.map (·, m) ++ lex m rest := by
  have hsuffix := lex_suffix hm n.suffix fun c hc => (h c hc).1
  have hoctaves := lex_octaves hm n.octaves (n.suffix.head_text h)
  have hname (t : Text) : lex m (n.name.text ++ t) = (.note n.name, m) :: lex m t :=
    lex_recognised (l := .note n.name) (t := n.name.text) rfl (List.cons_ne_nil _ _)
      (Region.recognise_note hm n.name)
  have hletter : lex m (n.name.text ++ (n.octaves.map OctaveMark.char ++ (n.suffix.text ++ rest))) =
      (.note n.name, m) :: (octaveLexemes n.octaves ++ n.suffix.lexemes).map (·, m) ++
        lex m rest := by
    rw [hname, hoctaves, hsuffix, List.map_append, List.cons_append, List.append_assoc]
  unfold Note.text Note.lexemes
  rw [List.append_assoc, List.append_assoc, List.append_assoc]
  cases n.accidental with
  | none => exact hletter
  | some a =>
    have hne : a.text ≠ [] := by cases a <;> exact List.cons_ne_nil _ _
    rw [Option.map_some, Option.getD_some,
      lex_recognised (l := .accidental a) (t := a.text) rfl hne
        (Region.recognise_accidental hm a n.name)]
    exact congrArg _ hletter

/-- The characters that a note begins with. -/
def noteChars : Text :=
  "^_=ABCDEFGabcdefg".text

/-- A note begins with an accidental or its letter. -/
theorem Note.head_text (n : Note) : ∃ c t, n.text = c :: t ∧ c ∈ noteChars := by
  unfold Note.text
  cases n.accidental with
  | none =>
    obtain ⟨letter, high⟩ := n.name
    cases letter <;> cases high <;> exact ⟨_, _, rfl, by decide⟩
  | some a => cases a <;> exact ⟨_, _, rfl, by decide⟩

/-- A note does not go on with the note before it. -/
theorem Note.text_apart (n : Note) : Apart (n.text ++ rest) := by
  obtain ⟨c, t, ht, hc⟩ := n.head_text
  rw [ht]
  rintro d ⟨⟩
  exact (by decide : ∀ c ∈ noteChars, Region.startsLength c = false ∧
    OctaveMark.ofChar? c = none) c hc

/-- What is read in front of anything that does not go on with it, and does not go on with what
comes before it, is read one after the other. -/
theorem lex_flatMap {α : Type} {text : α → Text} {lexemes : α → List (Lexeme × Region)}
    (hread : ∀ (a : α) (rest : Text), Apart rest →
      lex m (text a ++ rest) = lexemes a ++ lex m rest)
    (hapart : ∀ (a : α) (rest : Text), Apart (text a ++ rest)) (as : List α) (h : Apart rest) :
    lex m (as.flatMap text ++ rest) = as.flatMap lexemes ++ lex m rest := by
  induction as with
  | nil => rfl
  | cons a as ih =>
    have hnext : Apart (as.flatMap text ++ rest) := by
      cases as with
      | nil => exact h
      | cons a' as =>
        rw [List.flatMap_cons, List.append_assoc]
        exact hapart a' _
    rw [List.flatMap_cons, List.append_assoc, hread a _ hnext, ih, List.flatMap_cons,
      List.append_assoc]

/-- The notes of a chord are read one after the other. -/
theorem lex_notes (notes : List Note) (h : Apart rest) :
    lex .chord (notes.flatMap Note.text ++ rest) =
      (notes.flatMap Note.lexemes).map (·, .chord) ++ lex .chord rest := by
  rw [List.map_flatMap]
  exact lex_flatMap (fun n _ h => lex_note (.inr rfl) n h) (fun n _ => n.text_apart) notes h

/-- A spelling that goes on with no note does not apply in front of one. -/
theorem spelled_before_note {l : Lexeme} {own next : Region} {c d : CodePoint} {t : Text}
    (hc : c ∈ noteChars) (hl : (l.text.drop 1).head?.any (fun s => !noteChars.contains s) = true) :
    Rule.spelled l own next (d :: c :: t) = none := by
  unfold Rule.spelled
  rw [if_neg]
  rw [List.isPrefixOf_iff_prefix]
  generalize l.text = u at *
  intro h
  -- The second character of the spelling would be the first one of the note.
  match u with
  | [] | [_] => cases hl
  | _ :: s :: _ =>
    obtain ⟨rfl, -⟩ := List.cons_prefix_cons.1 (List.cons_prefix_cons.1 h).2
    simp [hc] at hl

/-- The opening of a chord is recognised in front of a note. -/
theorem recognise_chordStart (n : Note) (rest : Text) :
    Region.body.recognise (Lexeme.chordStart.text ++ (n.text ++ rest)) =
      some (.lexeme .chordStart .chord .chord) := by
  obtain ⟨c, t, ht, hc⟩ := n.head_text
  rw [ht, show Lexeme.chordStart.text ++ (c :: t ++ rest) =
    ('[' : CodePoint) :: c :: (t ++ rest) from rfl]
  unfold Region.recognise Region.rules Rule.skipping
  simp (disch := decide) only [Bar.all, List.map_cons, List.map_nil, List.cons_append,
    List.nil_append, List.findSome?_cons, Rule.spelled_cons, Rule.field_cons, Rule.comment_cons,
    Rule.many_cons, spelled_before_note hc]
  rfl

/-- A bar is recognised in front of a note. -/
theorem recognise_barline (n : Note) (rest : Text) :
    Region.body.recognise (Bar.single.text ++ (n.text ++ rest)) =
      some (.lexeme (.bar .single) .body .body) := by
  obtain ⟨c, t, ht, hc⟩ := n.head_text
  rw [ht, show Bar.single.text ++ (c :: t ++ rest) =
    ('|' : CodePoint) :: c :: (t ++ rest) from rfl]
  unfold Region.recognise Region.rules Rule.skipping
  simp (disch := decide) only [Bar.all, List.map_cons, List.map_nil, List.cons_append,
    List.nil_append, List.findSome?_cons, Rule.spelled_cons, Rule.field_cons, Rule.comment_cons,
    Rule.many_cons, spelled_before_note hc]
  rfl

/-- A chord is read in front of anything. -/
theorem lex_chord (c : Chord) :
    lex .body (c.text ++ rest) = (Atom.chord c).lexemes ++ lex .body rest := by
  have hend : lex .chord (Lexeme.chordEnd.text ++ rest) = (.chordEnd, .chord) :: lex .body rest :=
    lex_recognised rfl (List.cons_ne_nil _ _) rfl
  have happart : Apart (Lexeme.chordEnd.text ++ rest) := by
    rintro d ⟨⟩
    exact ⟨by decide, rfl⟩
  have hnotes := lex_notes c.notes happart
  rw [hend] at hnotes
  obtain ⟨n, notes, hcons⟩ := List.exists_cons_of_ne_nil c.nonempty
  have hstart := recognise_chordStart
    n (notes.flatMap Note.text ++ (Lexeme.chordEnd.text ++ rest))
  rw [← List.append_assoc n.text, ← List.flatMap_cons, ← hcons] at hstart
  unfold Chord.text Atom.lexemes
  rw [List.append_assoc, List.append_assoc,
    lex_recognised (l := .chordStart) rfl (List.cons_ne_nil _ _) hstart, hnotes]
  simp

/-- A member of a tuplet does not go on with what comes before it. -/
theorem Member.text_apart (m : Member) : Apart (m.text ++ rest) := by
  cases m with
  | note n => exact n.text_apart
  | chord c =>
    rintro d ⟨⟩
    exact ⟨by decide, rfl⟩

/-- A member of a tuplet is read in front of anything that does not go on with it. -/
theorem lex_member (m : Member) (h : Apart rest) :
    lex .body (m.text ++ rest) = m.atom.lexemes ++ lex .body rest := by
  cases m with
  | note n => exact lex_note (.inl rfl) n h
  | chord c => exact lex_chord c

/-- The members of a tuplet are read one after the other. -/
theorem lex_members (ms : List Member) (h : Apart rest) :
    lex .body (ms.flatMap Member.text ++ rest) =
      (ms.map Member.atom).flatMap Atom.lexemes ++ lex .body rest := by
  rw [List.flatMap_map]
  exact lex_flatMap (fun m _ h => lex_member m h) (fun m _ => m.text_apart) ms h

/-- The mark of a tuplet is recognised. -/
theorem recognise_tuplet (size : TupletSize) (t : Text) :
    Region.body.recognise (size.text ++ t) = some (.lexeme (.tuplet size) .body .body) := by
  unfold Region.recognise Region.rules Rule.skipping
  cases size
  all_goals
    unfold TupletSize.text
    simp (disch := decide) only [Bar.all, List.map_cons, List.map_nil, List.cons_append,
      List.nil_append, List.findSome?_cons, Rule.spelled_cons, Rule.field_cons, Rule.comment_cons,
      Rule.many_cons]
    rfl

/-- A space or the end of the line comes next. -/
def Spaced (t : Text) : Prop :=
  ∃ u, t = space ++ u ∨ t = Text.lineEnd ++ u

/-- A blank does not go on with a note. -/
theorem Spaced.apart (h : Spaced rest) : Apart rest := by
  obtain ⟨u, rfl | rfl⟩ := h
  all_goals
    rintro c ⟨⟩
    exact ⟨by decide, rfl⟩

/-- A bar is recognised in front of a blank. -/
theorem recognise_bar (b : Bar) (h : Spaced rest) :
    Region.body.recognise (b.text ++ rest) = some (.lexeme (.bar b) .body .body) := by
  unfold Region.recognise Region.rules Rule.skipping
  obtain ⟨u, rfl | rfl⟩ := h
  all_goals
    cases b
    all_goals
      unfold Bar.text
      simp (disch := decide) only [Bar.all, List.map_cons, List.map_nil, List.cons_append,
        List.nil_append, List.findSome?_cons, Rule.spelled_cons, Rule.field_cons,
        Rule.comment_cons, Rule.many_cons]
      rfl

/-- An element of a line is read in front of a blank. -/
theorem lex_element (e : Element) (h : Spaced rest) :
    lex .body (e.text ++ rest) = e.atoms.flatMap Atom.lexemes ++ lex .body rest := by
  cases e with
  | member m =>
    rw [Element.atoms, List.flatMap_singleton]
    exact lex_member m h.apart
  | rest s =>
    have hsuffix := lex_suffix (.inl rfl) s fun c hc => (h.apart c hc).1
    rw [Element.text, List.append_assoc,
      lex_recognised (l := .rest) rfl (List.cons_ne_nil _ _) (Region.recognise_rest (.inl rfl)),
      hsuffix, Element.atoms, List.flatMap_singleton]
    rfl
  | tuplet t =>
    have hne : t.size.text ≠ [] := by cases t.size <;> exact List.cons_ne_nil _ _
    rw [Element.text, List.append_assoc,
      lex_recognised (l := .tuplet t.size) (t := t.size.text) rfl hne (recognise_tuplet t.size _),
      lex_members t.members h.apart]
    rfl
  | bar b =>
    have hne : b.text ≠ [] := by cases b <;> exact List.cons_ne_nil _ _
    exact lex_recognised (l := .bar b) (t := b.text) rfl hne (recognise_bar b h)

/-! ## The body -/

/-- The line ends here, or the text does. -/
def LineEnds (t : Text) : Prop :=
  ∀ c ∈ t.head?, c = '\n'

/-- A newline ends the line. -/
theorem lineEnds_lineEnd (t : Text) : LineEnds (Text.lineEnd ++ t) := by
  rintro c ⟨⟩
  rfl

/-- No field goes on at the end of a line. -/
theorem LineEnds.inField (h : LineEnds rest) : ∀ c ∈ rest.head?, Rule.inField c = false := by
  intro c hc
  rw [h c hc]
  rfl

/-- A newline of the body is a lexeme. -/
theorem lex_newline (t : Text) :
    lex .body (Text.lineEnd ++ t) = (.newline, .body) :: lex .body t :=
  lex_recognised (l := .newline) rfl (List.cons_ne_nil _ _) (Region.recognise_newline_body t)

/-- A comment is read up to the end of the line. -/
theorem lex_comment {r : Region} (hr : r ≠ .chord) (c : Comment) (h : LineEnds rest) :
    lex r (c.text ++ rest) = (.comment c.text, r) :: lex r rest := by
  unfold lex Comment.text
  rw [tokensFrom_comment hr 0 c.inLine h, List.map_cons, map_bare_eq_lex]
  rfl

/-- The value of a field is read up to the end of the line. -/
theorem Value.takeWhile_text (v : Value) (h : LineEnds rest) :
    (v.text ++ rest).takeWhile Rule.inField = v.text := by
  rw [takeWhile_append_text h.inField fun _ hc => hc]
  exact List.takeWhile_eq_self_iff.2 (List.all_eq_true.1 v.inField)

/-- A field is found up to the end of the line. -/
theorem Value.field_written (v : Value) (p : CodePoint → Bool) (label : Text → Lexeme) (r : Region)
    {letter : CodePoint} (hp : p letter) (h : LineEnds rest) :
    Rule.field p label r (Field.written letter v.text ++ rest) =
      some (.lexeme (label (Field.written letter v.text)) r r) := by
  have hv := v.takeWhile_text h
  unfold Rule.field Field.written
  simp only [List.cons_append, hp, if_true, hv]

/-- A voice field is read up to the end of the line. -/
theorem lex_voice (v : Value) (h : LineEnds rest) :
    lex .body (Field.written 'V' v.text ++ rest) =
      (.voiceField (Field.written 'V' v.text), .body) :: lex .body rest := by
  refine lex_recognised (l := .voiceField (Field.written 'V' v.text)) rfl (List.cons_ne_nil _ _) ?_
  have hfield := v.field_written (· == 'V') .voiceField .body (beq_self_eq_true _) h
  unfold Region.recognise Region.rules
  rw [List.append_assoc, List.append_assoc, List.append_assoc]
  rw [List.cons_append, List.findSome?_cons, List.cons_append, List.findSome?_cons, hfield]
  rfl

/-- What follows an element of a line begins with a space or ends the line. -/
theorem spaced_flatMap (ts : List Text) (t : Text) :
    Spaced (ts.flatMap (fun u => space ++ u) ++ (Text.lineEnd ++ t)) := by
  cases ts with
  | nil => exact ⟨t, .inr rfl⟩
  | cons u ts => exact ⟨_, .inl (by rw [List.flatMap_cons, List.append_assoc, List.append_assoc])⟩

/-- The elements of a line and the comment at its end are read one after the other. -/
theorem lex_elements (es : List Element) (c : Option Comment) (t : Text) :
    lex .body ((es.map Element.text ++ (c.map Comment.text).toList).flatMap (fun u => space ++ u) ++
        (Text.lineEnd ++ t)) =
      (es.flatMap Element.atoms ++ (c.map Atom.comment).toList).flatMap Atom.lexemes ++
        lex .body (Text.lineEnd ++ t) := by
  induction es with
  | nil =>
    cases c with
    | none => rfl
    | some c =>
      have hc := lex_comment (r := .body) nofun c (lineEnds_lineEnd t)
      have hs := lex_space (c.text ++ (Text.lineEnd ++ t))
      rw [hc] at hs
      simpa [Atom.lexemes] using hs
  | cons e es ih =>
    have he := lex_element e (spaced_flatMap (es.map Element.text ++ (c.map Comment.text).toList) t)
    rw [List.map_cons, List.cons_append, List.flatMap_cons, List.append_assoc, List.append_assoc,
      lex_space, he, ih, List.flatMap_cons, List.append_assoc, @List.flatMap_append _ _ e.atoms,
      List.append_assoc]

/-- A line of music is read in front of anything. -/
theorem lex_line (l : Line) (t : Text) :
    lex .body (l.text ++ t) = (Part.line l).atoms.flatMap Atom.lexemes ++ lex .body t := by
  obtain ⟨e, es, he⟩ := List.exists_cons_of_ne_nil l.nonempty
  have helements := lex_elements l.elements l.comment t
  rw [he, List.map_cons, List.cons_append, List.flatMap_cons, List.append_assoc, List.append_assoc,
    lex_space, lex_newline, ← he] at helements
  unfold Line.text Part.atoms
  rw [he, List.map_cons, List.cons_append, List.append_assoc, joined, List.append_assoc,
    helements]
  simp [Atom.lexemes, he]

/-- A line of lyrics is read in front of anything. -/
theorem lex_lyrics (l : Lyrics) (t : Text) :
    lex .body (Lexeme.lyricStart.text ++ l.text ++ Text.lineEnd ++ t) =
      (Atom.lyrics l).lexemes ++ lex .body t := by
  have hstart : lex .body (Lexeme.lyricStart.text ++ (l.text ++ (Text.lineEnd ++ t))) =
      (.lyricStart, .lyric) :: lex .lyric (l.text ++ (Text.lineEnd ++ t)) :=
    lex_recognised (l := .lyricStart) rfl (List.cons_ne_nil _ _) rfl
  have hend : lex .lyric (Text.lineEnd ++ t) = (.newline, .lyric) :: lex .body t :=
    lex_recognised (l := .newline) rfl (List.cons_ne_nil _ _) (Region.recognise_newline_lyric t)
  have htext : lex .lyric (l.text ++ (Text.lineEnd ++ t)) =
      lex .lyric l.text ++ lex .lyric (Text.lineEnd ++ t) := by
    unfold lex
    rw [tokensFrom_lyric_append l.inField (lineEnds_lineEnd t).inField, List.map_append,
      map_bare_eq_lex .lyric (0 + _)]
    rfl
  calc lex .body (Lexeme.lyricStart.text ++ l.text ++ Text.lineEnd ++ t)
      = (.lyricStart, .lyric) :: lex .lyric (l.text ++ (Text.lineEnd ++ t)) := by
        rw [List.append_assoc, List.append_assoc, hstart]
    _ = (.lyricStart, .lyric) :: (lex .lyric l.text ++ (.newline, .lyric) :: lex .body t) := by
        rw [htext, hend]
    _ = (Atom.lyrics l).lexemes ++ lex .body t := by simp [Atom.lexemes]

/-- A part of the body is read in front of anything, or where it has no newline of its own in front
of the end of the line. -/
theorem lex_part (p : Part) (h : p.gap ≠ [] → LineEnds rest) :
    lex .body (p.text ++ rest) = p.atoms.flatMap Atom.lexemes ++ lex .body rest := by
  cases p with
  | comment c => exact lex_comment (r := .body) nofun c (h (List.cons_ne_nil _ _))
  | voice v => exact lex_voice v (h (List.cons_ne_nil _ _))
  | line l => exact lex_line l rest
  | lyrics l =>
    rw [Part.atoms, List.flatMap_singleton]
    exact lex_lyrics l rest

/-- A part of the body that has no newline of its own is followed by one. -/
theorem Part.lineEnds_gap (p : Part) (t : Text) (h : p.gap ≠ []) : LineEnds (p.gap ++ t) := by
  cases p with
  | comment _ | voice _ => exact lineEnds_lineEnd t
  | line _ | lyrics _ => exact absurd rfl h

/-- The gap after a part of the body is read as its atoms. -/
theorem lex_gap (p : Part) (t : Text) :
    lex .body (p.gap ++ t) = p.gapAtoms.flatMap Atom.lexemes ++ lex .body t := by
  cases p with
  | comment _ | voice _ => exact lex_newline t
  | line _ | lyrics _ => rfl

/-- The body is read as its atoms. -/
theorem lex_bodyText (parts : List Part) :
    lex .body (bodyText parts) = (bodyAtoms parts).flatMap Atom.lexemes := by
  cases parts with
  | nil => rfl
  | cons p parts =>
    induction parts generalizing p with
    | nil =>
      have hp := @lex_part [] p fun _ c hc => nomatch hc
      rw [List.append_nil] at hp
      rw [bodyText, bodyAtoms, hp]
      exact List.append_nil _
    | cons q parts ih =>
      rw [bodyText, bodyAtoms, List.append_assoc, lex_part p (p.lineEnds_gap _), lex_gap, ih q,
        List.flatMap_append, List.flatMap_append, List.append_assoc]

/-! ## The header -/

/-- An entry of the header is read up to the end of the line. -/
theorem lex_entry (e : Entry) (h : LineEnds rest) :
    lex .header (e.text ++ rest) = (e.lexeme, .header) :: lex .header rest := by
  cases e with
  | field f =>
    refine lex_recognised (l := .field f.text) rfl (List.cons_ne_nil _ _) ?_
    have hfield := f.value.field_written isPlainLetter .field .header f.isPlain h
    have hkey : Rule.keyField (Field.written f.letter f.value.text ++ rest) = none :=
      Rule.keyField_cons f.notKey
    unfold Region.recognise Region.rules Entry.text HeaderField.text
    rw [List.findSome?_cons, List.findSome?_cons, hkey, hfield]
  | comment c => exact lex_comment (r := .header) nofun c h

/-- The key field is found up to the end of the line, with the newline if there is one. -/
theorem Value.recognise_key (v : Value) (h : LineEnds rest) :
    Region.header.recognise (v.keyText ++ rest) =
      some (.lexeme (.keyField (v.keyText ++ rest.take 1)) .header .body) := by
  have hend : (if rest.take 1 = "\n".text then rest.take 1 else []) = rest.take 1 := by
    cases rest with
    | nil => rfl
    | cons c rest =>
      obtain rfl := h c rfl
      rfl
  have hkey : Rule.keyField (v.keyText ++ rest) =
      some (.lexeme (.keyField (v.keyText ++ rest.take 1)) .header .body) := by
    have hv := v.takeWhile_text h
    unfold Rule.keyField Value.keyText Field.written
    simp only [List.cons_append, hv, List.drop_left, hend]
    rfl
  unfold Region.recognise Region.rules
  rw [List.findSome?_cons, hkey]

/-- The key field takes the newline after it. -/
theorem lex_key (v : Value) (t : Text) :
    lex .header (v.keyText ++ (Text.lineEnd ++ t)) =
      (.keyField (v.keyText ++ Text.lineEnd), .header) :: lex .body t := by
  have hrecognised := v.recognise_key (lineEnds_lineEnd t)
  rw [← List.append_assoc] at hrecognised ⊢
  exact lex_recognised rfl (List.cons_ne_nil _ _) hrecognised

/-- The key field ends the text of a score without a body. -/
theorem lex_key_end (v : Value) : lex .header v.keyText = [(.keyField v.keyText, .header)] := by
  have hrecognised := @Value.recognise_key [] v fun c hc => nomatch hc
  have hlex := lex_recognised (l := .keyField v.keyText) (t := v.keyText) rfl
    (List.cons_ne_nil _ _) (by rw [hrecognised, List.take_nil, List.append_nil])
  rw [List.append_nil] at hlex
  exact hlex

/-- Separators in the header are passed over. -/
theorem lex_joined (ts : List Text) (t : Text) :
    lex .header (joined Text.lineEnd ts ++ t) =
      lex .header (ts.flatMap (fun u => Text.lineEnd ++ u) ++ t) := by
  cases ts with
  | nil => rfl
  | cons u ts =>
    rw [joined, List.flatMap_cons, List.append_assoc, List.append_assoc, List.append_assoc,
      lex_header_lineEnd]

/-- The entries of the header are read one after the other. -/
theorem lex_entries (entries : List Entry) (ts : List Text) (t : Text) (ht : LineEnds t) :
    lex .header ((entries.map Entry.text ++ ts).flatMap (fun u => Text.lineEnd ++ u) ++ t) =
      entries.map (fun e => (e.lexeme, .header)) ++
        lex .header (ts.flatMap (fun u => Text.lineEnd ++ u) ++ t) := by
  induction entries with
  | nil => rfl
  | cons e entries ih =>
    have hends :
        LineEnds ((entries.map Entry.text ++ ts).flatMap (fun u => Text.lineEnd ++ u) ++ t) := by
      cases entries.map Entry.text ++ ts with
      | nil => exact ht
      | cons u us =>
        rw [List.flatMap_cons, List.append_assoc, List.append_assoc]
        exact lineEnds_lineEnd _
    rw [List.map_cons, List.cons_append, List.flatMap_cons, List.append_assoc, List.append_assoc,
      lex_header_lineEnd, lex_entry e hends, ih]
    rfl

/-- The text of a score is read as its lexemes. -/
theorem lex_text (s : Score) : lex .header s.text = s.lexemes := by
  unfold text lexemes
  rw [lex_joined, lex_entries]
  · -- Without a key there is no body; the newline in front of a body belongs to the key field.
    cases hkey : s.key with
    | none =>
      rw [s.keyed hkey, List.append_assoc]
      rfl
    | some v =>
      rw [Option.map_some, Option.toList_some, List.flatMap_singleton, List.append_assoc,
        lex_header_lineEnd]
      cases s.body with
      | none =>
        rw [Option.elim_none, List.append_nil, lex_key_end, Option.map_some, Option.toList_some,
          Option.elim_none, Option.elim_none, List.append_nil, List.append_nil]
      | some parts =>
        rw [Option.elim_some, lex_key, lex_bodyText, List.append_assoc]
        rfl
  · cases s.body with
    | none => exact fun c hc => nomatch hc
    | some parts => exact lineEnds_lineEnd _

end Score

end SingAlong
