import SingAlong.Tune.Token
import Mathlib.Data.List.Chain
import Mathlib.Data.List.TakeWhile
import Mathlib.Tactic.SplitIfs

/-!
# How a source splits into tokens

Every rule recognises a nonempty front of the text, and only lexemes whose text the rule allows:
`Lexeme.Genuine` says which texts these are, and `Region.move` which region a lexeme belongs to and
which one follows it. `recognise_finds` collects this over the rules of a region.

`tokensFrom_induction` is the induction that all statements about the tokens of a text use: a step
takes what is recognised at the front and goes on with the rest. From it come the shape of the
header (`tokensFrom_header`) and the line end after a comment (`tokensFrom_comments`).
-/

namespace SingAlong

/-! ## What can be recognised -/

/-- The text that ends a line. -/
def Text.lineEnd : Text :=
  ['\n']

/-- The text of a comment with a mark in front. -/
def Text.commented (t : Text) : Text :=
  '%' :: t

/-- The texts of length suffixes: digits, and with a slash also digits after it. -/
def IsLength (t : Text) : Prop :=
  t ≠ [] ∧ ∃ num den : Text, num.all isDigit ∧ den.all isDigit ∧
    (t = num ∨ t = num ++ (('/' : CodePoint) :: den))

/-- The text of a field with a letter and a value, up to the end of the line. -/
def Field.written (letter : CodePoint) (value : Text) : Text :=
  letter :: ':' :: value

/-- The lexemes that can be read from a source, which the rules limit by their texts. -/
def Lexeme.Genuine : Lexeme → Prop
  | keyField t => ∃ value : Text, value.all Rule.inField ∧
      (t = Field.written 'K' value ∨ t = Field.written 'K' (value ++ Text.lineEnd))
  | field t => ∃ (letter : CodePoint) (value : Text), isPlainLetter letter ∧ letter ≠ 'K' ∧
      value.all Rule.inField ∧ t = Field.written letter value
  | voiceField t => ∃ value : Text, value.all Rule.inField ∧ t = Field.written 'V' value
  | comment t => ∃ rest : Text, rest.all Text.inLine ∧ t = Text.commented rest
  | octave marks => marks ≠ []
  | length t => IsLength t
  | _ => True

/-- The region that a lexeme read in a region belongs to, and the region after it. -/
def Region.move : Region → Lexeme → Region × Region
  | .header, .keyField _ => (.header, .body)
  | .body, .lyricStart => (.lyric, .lyric)
  | .body, .chordStart => (.chord, .chord)
  | .chord, .chordEnd => (.chord, .body)
  | .lyric, .newline => (.lyric, .body)
  | r, _ => (r, r)

/-- The lexemes of a region. Unknown text is none of the lyrics, which pass over it. -/
def Region.has : Region → Lexeme → Bool
  | .header, .keyField _ | .header, .field _ | .header, .comment _ | .header, .unknown _ => true
  | .body, .lyricStart | .body, .voiceField _ | .body, .comment _ | .body, .newline | .body, .bar _
  | .body, .chordStart | .body, .tuplet _ | .body, .unknown _ => true
  | .chord, .chordEnd | .chord, .unknown _ => true
  | .lyric, .newline | .lyric, .comment _ => true
  | .lyric, .lyric kind _ => kind != .newline
  | .body, l | .chord, l => l.isMusic
  | _, _ => false

/-- A lexeme of a region belongs to a region and is followed by one. -/
def Region.Takes (r : Region) (l : Lexeme) (own next : Region) : Prop :=
  r.has l ∧ (own, next) = r.move l

/-- What a region can find at the front of a text: a genuine lexeme or blanks. Only the end of the
line follows a comment. -/
def Region.Finds (r : Region) (t : Text) : Recognised → Prop
  | .lexeme l own next => l.Genuine ∧ l.text ≠ [] ∧ l.text <+: t ∧ r.Takes l own next ∧
      ∀ text, l = .comment text →
        ∀ (c : CodePoint) (rest : Text), t = text ++ c :: rest → c = '\n'
  | .blanks b => b ≠ [] ∧ b <+: t

namespace Rule

variable {r own next : Region} {l : Lexeme} {t : Text}

/-- A rule that finds only what the region can find. -/
def Sound (r : Region) (rule : Rule) : Prop :=
  ∀ t f, rule t = some f → r.Finds t f

/-- A lexeme that is found by its spelling. -/
theorem spelled_sound (hg : l.Genuine) (ht : l.text ≠ []) (hm : r.Takes l own next)
    (hc : ∀ text, l ≠ .comment text) : Sound r (spelled l own next) := by
  intro t f h
  unfold spelled at h
  split_ifs at h with hp
  cases h
  exact ⟨hg, ht, List.isPrefixOf_iff_prefix.1 hp, hm, fun text h => absurd h (hc text)⟩

/-- The run of characters that is found. -/
theorem many_eq_some {p : CodePoint → Bool} {found : Text → Recognised} {f : Recognised}
    (h : many p found t = some f) : t.takeWhile p ≠ [] ∧ f = found (t.takeWhile p) := by
  unfold many at h
  dsimp only at h
  split_ifs at h with hr
  cases h
  exact ⟨fun h0 => hr (by rw [h0]; rfl), rfl⟩

/-- Blanks that are passed over. -/
theorem skipping_sound (p : CodePoint → Bool) : Sound r (skipping p) := by
  intro t f h
  obtain ⟨hne, rfl⟩ := many_eq_some h
  exact ⟨hne, List.takeWhile_prefix p⟩

/-- A lexeme made of a run of characters. -/
theorem many_sound (p : CodePoint → Bool) (label : Text → Lexeme) (hg : ∀ t, (label t).Genuine)
    (ht : ∀ t, (label t).text = t) (hm : ∀ t, r.Takes (label t) own next)
    (hc : ∀ t text, label t ≠ .comment text) :
    Sound r (many p fun t => .lexeme (label t) own next) := by
  intro t f h
  obtain ⟨hne, rfl⟩ := many_eq_some h
  refine ⟨hg _, ?_, ?_, hm _, fun text h => absurd h (hc _ text)⟩
  · rwa [ht]
  · rw [ht]
    exact List.takeWhile_prefix p

/-- The field that is found. -/
theorem field_eq_some {p : CodePoint → Bool} {label : Text → Lexeme} {f : Recognised}
    (h : field p label r t = some f) :
    ∃ (letter : CodePoint) (rest : Text), t = Field.written letter rest ∧ p letter ∧
      f = .lexeme (label (Field.written letter (rest.takeWhile inField))) r r := by
  unfold field at h
  split at h
  next letter rest =>
    split_ifs at h with hp
    cases h
    exact ⟨letter, rest, rfl, hp, rfl⟩
  next => cases h

/-- Fields of a letter extend each other as their values do. -/
theorem written_prefix (letter : CodePoint) {value rest : Text} (h : value <+: rest) :
    Field.written letter value <+: Field.written letter rest :=
  List.cons_prefix_cons.2 ⟨rfl, List.cons_prefix_cons.2 ⟨rfl, h⟩⟩

/-- A field of the body. -/
theorem voiceField_sound : Sound .body (field (· == 'V') .voiceField .body) := by
  intro t f h
  obtain ⟨letter, rest, rfl, hp, rfl⟩ := field_eq_some h
  obtain rfl := eq_of_beq hp
  exact ⟨⟨_, List.all_takeWhile, rfl⟩, List.cons_ne_nil _ _,
    written_prefix _ (List.takeWhile_prefix _), ⟨rfl, rfl⟩, nofun⟩

/-- A field of the header, where the key field is not looked for. -/
theorem field_finds {f : Recognised} (h : field isPlainLetter .field .header t = some f)
    (hk : ∀ rest, t ≠ Field.written 'K' rest) : Region.header.Finds t f := by
  obtain ⟨letter, rest, rfl, hp, rfl⟩ := field_eq_some h
  have hletter : letter ≠ 'K' := by
    rintro rfl
    exact hk rest rfl
  exact ⟨⟨letter, _, hp, hletter, List.all_takeWhile, rfl⟩, List.cons_ne_nil _ _,
    written_prefix _ (List.takeWhile_prefix _), ⟨rfl, rfl⟩, nofun⟩

/-- The key field, with the end of its line if that comes next. -/
theorem keyField_sound : Sound .header keyField := by
  intro t f h
  unfold keyField at h
  split at h
  next rest =>
    cases h
    have hv : rest.takeWhile inField ++ rest.drop (rest.takeWhile inField).length = rest :=
      List.prefix_iff_eq_append.1 (List.takeWhile_prefix _)
    have hall : (rest.takeWhile inField).all inField := List.all_takeWhile
    generalize rest.takeWhile inField = value at *
    -- The end of the line belongs to the key field, unless the source ends before.
    split_ifs with hn
    · refine ⟨⟨value, hall, .inr (by rw [hn]; rfl)⟩, List.cons_ne_nil _ _, ?_, ⟨rfl, rfl⟩, nofun⟩
      refine written_prefix 'K' ?_
      rw [← hv]
      simpa using List.take_prefix 1 (rest.drop value.length)
    · refine ⟨⟨value, hall, .inl (by rw [List.append_nil]; rfl)⟩, List.cons_ne_nil _ _, ?_,
        ⟨rfl, rfl⟩, nofun⟩
      rw [List.append_nil]
      exact written_prefix 'K' ⟨_, hv⟩
  next => cases h

/-- What follows a run of characters of a class is not of the class. -/
theorem head_dropWhile {p : CodePoint → Bool} : ∀ c ∈ (t.dropWhile p).head?, p c = false := by
  induction t with
  | nil => exact nofun
  | cons d t ih =>
    rw [List.dropWhile_cons]
    split_ifs with hd
    · exact ih
    · rintro c ⟨⟩
      exact Bool.eq_false_iff.2 hd

/-- A comment reaches to the end of the line. -/
theorem comment_sound (hm : ∀ text, r.Takes (.comment text) r r) : Sound r (comment r) := by
  intro t f h
  unfold comment at h
  split at h
  next rest =>
    cases h
    refine ⟨⟨_, List.all_takeWhile, rfl⟩, List.cons_ne_nil _ _, ?_, hm _, ?_⟩
    · exact List.cons_prefix_cons.2 ⟨rfl, List.takeWhile_prefix _⟩
    · -- The comment takes all that is in the line, so the next character is not in it.
      rintro text ⟨⟩ c rest' h'
      have hd : rest.dropWhile Text.inLine = c :: rest' :=
        List.append_cancel_left (List.takeWhile_append_dropWhile.trans (List.cons.inj h').2)
      have hc := head_dropWhile (p := Text.inLine) (t := rest) c (by rw [hd]; rfl)
      simpa [Text.inLine] using hc
  next => cases h

/-- A note letter. -/
theorem note_sound (hm : ∀ n, r.Takes (.note n) r r) : Sound r (note r) := by
  intro t f h
  unfold note at h
  split at h
  next c rest =>
    obtain ⟨n, hn, rfl⟩ := Option.map_eq_some_iff.1 h
    have hc : n.char = c := by
      unfold NoteName.ofChar? at hn
      simpa using List.find?_some hn
    refine ⟨trivial, List.cons_ne_nil _ _, ?_, hm n, nofun⟩
    rw [← hc]
    exact List.cons_prefix_cons.2 ⟨rfl, List.nil_prefix⟩
  next => cases h

/-- The marks at the front of a text spell the front of the text. -/
theorem map_char_front (t : Text) : (OctaveMark.front t).map OctaveMark.char <+: t := by
  induction t with
  | nil => exact List.nil_prefix
  | cons c t ih =>
    unfold OctaveMark.front
    split
    next mark h =>
      have hc : mark.char = c := by
        unfold OctaveMark.ofChar? at h
        split_ifs at h with h1 h2
        all_goals
          cases h
          subst c
          rfl
      rw [List.map_cons, hc]
      exact List.cons_prefix_cons.2 ⟨rfl, ih⟩
    next => exact List.nil_prefix

/-- A nonempty sequence of octave marks. -/
theorem octave_sound (hm : ∀ marks, r.Takes (.octave marks) r r) : Sound r (octave r) := by
  intro t f h
  unfold octave at h
  dsimp only at h
  split_ifs at h with he
  cases h
  have hne : OctaveMark.front t ≠ [] := fun h0 => he (by rw [h0]; rfl)
  refine ⟨hne, ?_, map_char_front t, hm _, nofun⟩
  simpa [Lexeme.text] using hne

/-- A length suffix. -/
theorem length_sound (hm : ∀ t, r.Takes (.length t) r r) : Sound r (length r) := by
  intro t f h
  unfold length at h
  dsimp only at h
  have ht : t.takeWhile isDigit ++ t.drop (t.takeWhile isDigit).length = t :=
    List.prefix_iff_eq_append.1 (List.takeWhile_prefix _)
  have hnum : (t.takeWhile isDigit).all isDigit := List.all_takeWhile
  generalize t.takeWhile isDigit = num at *
  generalize t.drop num.length = rest at *
  subst ht
  split_ifs at h with he
  cases h
  -- With a slash after the digits, or without.
  split at he
  next den =>
    have hrun : num ++ "/".text ++ den.takeWhile isDigit =
        num ++ ('/' : CodePoint) :: den.takeWhile isDigit := by
      rw [List.append_assoc]
      rfl
    rw [hrun] at he ⊢
    have hne : num ++ ('/' : CodePoint) :: den.takeWhile isDigit ≠ [] :=
      fun h0 => he (by rw [h0]; rfl)
    refine ⟨⟨hne, num, _, hnum, List.all_takeWhile, .inr rfl⟩, hne, ?_, hm _, nofun⟩
    refine (List.prefix_append_right_inj num).2 (List.cons_prefix_cons.2 ⟨rfl, ?_⟩)
    exact List.takeWhile_prefix _
  next =>
    have hne : num ≠ [] := fun h0 => he (by rw [h0]; rfl)
    exact ⟨⟨hne, num, [], hnum, rfl, .inl rfl⟩, hne, List.prefix_append num rest, hm _, nofun⟩

/-- The rules for the parts of notes and rests. -/
theorem music_sound (hm : ∀ l : Lexeme, l.isMusic → r.Takes l r r) :
    ∀ rule ∈ music r, Sound r rule := by
  intro rule h
  unfold music at h
  rcases List.mem_append.1 h with h | h
  · obtain ⟨a, -, rfl⟩ := List.mem_map.1 h
    exact spelled_sound trivial (by cases a <;> exact List.cons_ne_nil _ _) (hm _ rfl) nofun
  · simp only [List.mem_cons, List.not_mem_nil, or_false] at h
    rcases h with rfl | rfl | rfl | rfl
    · exact note_sound fun n => hm _ rfl
    · exact octave_sound fun marks => hm _ rfl
    · exact spelled_sound trivial (List.cons_ne_nil _ _) (hm _ rfl) nofun
    · exact length_sound fun t => hm _ rfl

/-! A rule does not apply to a text that starts with another character. -/

section Cons

variable {c : CodePoint} {p : CodePoint → Bool}

/-- A spelling starts with its own first character. -/
theorem spelled_cons (hl : l.text ≠ []) (h : l.text.head? ≠ some c) :
    spelled l own next (c :: t) = none := by
  obtain ⟨d, ds, hd⟩ := List.exists_cons_of_ne_nil hl
  unfold spelled
  rw [if_neg]
  rw [hd, List.isPrefixOf_iff_prefix, List.cons_prefix_cons]
  rintro ⟨rfl, -⟩
  exact h (by rw [hd]; rfl)

/-- A run of characters starts with one of them. -/
theorem many_cons {found : Text → Recognised} (h : p c = false) : many p found (c :: t) = none := by
  unfold many
  rw [List.takeWhile_cons_of_neg (by rw [h]; exact Bool.false_ne_true)]
  rfl

/-- A field starts with its letter. -/
theorem field_cons {label : Text → Lexeme} (h : p c = false) : field p label r (c :: t) = none := by
  unfold field
  split
  next heq =>
    cases heq
    rw [h]
    rfl
  next => rfl

/-- The key field starts with its letter. -/
theorem keyField_cons (h : c ≠ 'K') : keyField (c :: t) = none := by
  unfold keyField
  split
  next heq =>
    cases heq
    exact absurd rfl h
  next => rfl

/-- A comment starts with its mark. -/
theorem comment_cons (h : c ≠ '%') : comment r (c :: t) = none := by
  unfold comment
  split
  next heq =>
    cases heq
    exact absurd rfl h
  next => rfl

/-- A note starts with its letter. -/
theorem note_cons (h : NoteName.ofChar? c = none) : note r (c :: t) = none := by
  unfold note
  simp only [h, Option.map_none]

/-- Octave marks start with one of them. -/
theorem octave_cons (h : OctaveMark.ofChar? c = none) : octave r (c :: t) = none := by
  unfold octave OctaveMark.front
  rw [h]
  rfl

end Cons

end Rule

namespace Region

variable {r : Region} {t : Text} {f : Recognised}

/-- Within music the parts of notes and rests stay in their region. -/
theorem music_move {l : Lexeme} (hr : r = .body ∨ r = .chord) (h : l.isMusic) :
    r.Takes l r r := by
  rcases hr with rfl | rfl <;> cases l <;> first | exact ⟨rfl, rfl⟩ | cases h

/-- The rules of the body. -/
theorem body_sound : ∀ rule ∈ Region.body.rules, Rule.Sound .body rule := by
  intro rule h
  simp only [rules, List.mem_append, List.mem_cons, List.not_mem_nil, or_false, List.mem_map] at h
  -- The fixed rules, the bars, the opening of a chord, the tuplets, and the parts of notes.
  rcases h with (((h | ⟨b, -, rfl⟩) | rfl) | ⟨size, -, rfl⟩) | h
  · rcases h with rfl | rfl | rfl | rfl | rfl
    · exact Rule.spelled_sound trivial (List.cons_ne_nil _ _) ⟨rfl, rfl⟩ nofun
    · exact Rule.voiceField_sound
    · exact Rule.comment_sound fun _ => ⟨rfl, rfl⟩
    · exact Rule.spelled_sound trivial (List.cons_ne_nil _ _) ⟨rfl, rfl⟩ nofun
    · exact Rule.skipping_sound _
  · exact Rule.spelled_sound trivial (by cases b <;> exact List.cons_ne_nil _ _) ⟨rfl, rfl⟩ nofun
  · exact Rule.spelled_sound trivial (List.cons_ne_nil _ _) ⟨rfl, rfl⟩ nofun
  · exact Rule.spelled_sound trivial (by cases size <;> exact List.cons_ne_nil _ _) ⟨rfl, rfl⟩ nofun
  · exact Rule.music_sound (fun _ => music_move (.inl rfl)) rule h

/-- The rules of a chord. -/
theorem chord_sound : ∀ rule ∈ Region.chord.rules, Rule.Sound .chord rule := by
  intro rule h
  simp only [rules, List.mem_append, List.mem_cons, List.not_mem_nil, or_false] at h
  rcases h with (rfl | rfl) | h
  · exact Rule.spelled_sound trivial (List.cons_ne_nil _ _) ⟨rfl, rfl⟩ nofun
  · exact Rule.skipping_sound _
  · exact Rule.music_sound (fun _ => music_move (.inr rfl)) rule h

/-- A token of the lyrics that is found by its spelling. -/
theorem lyric_spelled_sound {kind : LyricKind} {text : Text} (h : text ≠ [])
    (hk : kind ≠ .newline) : Rule.Sound .lyric (Rule.lyric kind text) :=
  Rule.spelled_sound trivial h ⟨bne_iff_ne.2 hk, rfl⟩ nofun

/-- The rules of a line of lyrics. -/
theorem lyric_sound : ∀ rule ∈ Region.lyric.rules, Rule.Sound .lyric rule := by
  intro rule h
  simp only [rules, List.mem_cons, List.not_mem_nil, or_false] at h
  rcases h with rfl | rfl | rfl | rfl | rfl | rfl | rfl | rfl | rfl | rfl | rfl
  · exact Rule.spelled_sound trivial (List.cons_ne_nil _ _) ⟨rfl, rfl⟩ nofun
  · exact Rule.comment_sound fun _ => ⟨rfl, rfl⟩
  · exact Rule.many_sound _ _ (fun _ => trivial) (fun _ => rfl) (fun _ => ⟨rfl, rfl⟩) nofun
  all_goals first
    | exact lyric_spelled_sound (List.cons_ne_nil _ _) nofun
    | exact Rule.many_sound _ _ (fun _ => trivial) (fun _ => rfl) (fun _ => ⟨rfl, rfl⟩) nofun

/-- What is recognised in the header, where the key field comes before the other fields. -/
theorem header_finds (h : Region.header.recognise t = some f) : Region.header.Finds t f := by
  unfold recognise at h
  simp only [rules, List.findSome?_cons] at h
  split at h
  next found hk =>
    cases h
    exact Rule.keyField_sound t _ hk
  next hk =>
    -- Only now a field can not be a key field, whose letter is a field letter as well.
    have hk' : ∀ rest, t ≠ Field.written 'K' rest := by
      rintro rest rfl
      cases hk
    split at h
    next found hf =>
      cases h
      exact Rule.field_finds hf hk'
    next =>
      split at h
      next found hc =>
        cases h
        exact Rule.comment_sound (fun _ => ⟨rfl, rfl⟩) t _ hc
      next =>
        split at h
        next found hs =>
          cases h
          exact Rule.skipping_sound _ t _ hs
        next => cases h

/-- What a region recognises is what it can find. -/
theorem recognise_finds (h : r.recognise t = some f) : r.Finds t f := by
  cases r with
  | header => exact header_finds h
  | body =>
    obtain ⟨rule, hmem, hrule⟩ := List.exists_of_findSome?_eq_some h
    exact body_sound rule hmem t f hrule
  | chord =>
    obtain ⟨rule, hmem, hrule⟩ := List.exists_of_findSome?_eq_some h
    exact chord_sound rule hmem t f hrule
  | lyric =>
    obtain ⟨rule, hmem, hrule⟩ := List.exists_of_findSome?_eq_some h
    exact lyric_sound rule hmem t f hrule

/-- The text up to the first position where a rule applies is a front of the text. -/
theorem unknown_prefix (r : Region) (t : Text) : r.unknown t <+: t := by
  induction t with
  | nil => exact List.nil_prefix
  | cons c t ih =>
    unfold unknown
    split_ifs with h
    · exact List.nil_prefix
    · exact List.cons_prefix_cons.2 ⟨rfl, ih⟩

/-- What is read at the front of a text is what the region can find. -/
theorem next_finds (ht : t ≠ []) : r.Finds t (r.next t) := by
  unfold next
  split
  next h => exact recognise_finds h
  next h =>
    -- Where nothing is recognised, a line of lyrics passes over one character, and the other
    -- regions take the text up to where something is.
    obtain ⟨c, rest, rfl⟩ := List.exists_cons_of_ne_nil ht
    split_ifs with hr
    · exact ⟨List.cons_ne_nil _ _, List.take_prefix 1 _⟩
    · refine ⟨trivial, ?_, unknown_prefix r _, ?_, nofun⟩
      · unfold Lexeme.text unknown
        rw [h]
        exact List.cons_ne_nil _ _
      · cases r <;> first | exact ⟨rfl, rfl⟩ | exact absurd rfl hr

/-- Only an unfinished chord is read on as another region, the body. -/
theorem current_eq (r : Region) (t : Text) :
    r.current t = r ∨ r = .chord ∧ r.current t = .body := by
  unfold current
  split_ifs with h
  · exact .inr ⟨h.1, rfl⟩
  · exact .inl rfl

/-- A chord where nothing is recognised is read on as the body. -/
theorem current_ne_chord (h : (r.current t).recognise t = none) : r.current t ≠ .chord := by
  unfold current at h ⊢
  split_ifs with hleft
  · nofun
  · rintro rfl
    rw [if_neg hleft] at h
    exact hleft ⟨rfl, by rw [h]; rfl⟩

end Region

/-! ## Reading a text step by step -/

/-- What belongs to a lexeme recognised before is passed over. -/
theorem tokensFrom_owed (r : Region) (pos owed : Nat) (t : Text) :
    tokensFrom r pos owed t = tokensFrom r (pos + owed) 0 (t.drop owed) := by
  induction t generalizing pos owed with
  | nil =>
    rw [List.drop_nil]
    cases owed <;> rfl
  | cons c t ih =>
    cases owed with
    | zero => rfl
    | succ owed =>
      rw [tokensFrom, ih, List.drop_succ_cons, Nat.add_assoc, Nat.add_comm 1]

/-- A lexeme at the front becomes a token, and the rest is read in the region after it. -/
theorem tokensFrom_lexeme {r own next : Region} {pos : Nat} {l : Lexeme} {rest : Text}
    (h : (r.current (l.text ++ rest)).next (l.text ++ rest) = .lexeme l own next)
    (hl : l.text ≠ []) :
    tokensFrom r pos 0 (l.text ++ rest) =
      ⟨pos, l, own⟩ :: tokensFrom next (pos + l.text.length) 0 rest := by
  obtain ⟨c, cs, hc⟩ := List.exists_cons_of_ne_nil hl
  rw [hc, List.cons_append] at h ⊢
  rw [tokensFrom]
  simp only [h]
  rw [tokensFrom_owed, hc, List.length_cons, Nat.add_sub_cancel, List.drop_left]
  congr 2
  omega

/-- Blanks at the front are passed over, and the rest is read in the same region. -/
theorem tokensFrom_blanks {r : Region} {pos : Nat} {b rest : Text}
    (h : (r.current (b ++ rest)).next (b ++ rest) = .blanks b) (hb : b ≠ []) :
    tokensFrom r pos 0 (b ++ rest) =
      tokensFrom (r.current (b ++ rest)) (pos + b.length) 0 rest := by
  obtain ⟨c, cs, rfl⟩ := List.exists_cons_of_ne_nil hb
  rw [List.cons_append] at h ⊢
  rw [tokensFrom]
  simp only [h]
  rw [tokensFrom_owed, List.length_cons, Nat.add_sub_cancel, List.drop_left]
  congr 1
  omega

/-- What holds of the empty text, and of a text when it holds of the rest after what is found at
its front, holds of every text and its tokens. -/
theorem tokensFrom_induction {motive : Region → Nat → Text → List Token → Prop}
    (nil : ∀ r pos, motive r pos [] [])
    (lexeme : ∀ r pos l own next rest,
      (r.current (l.text ++ rest)).next (l.text ++ rest) = .lexeme l own next →
      (r.current (l.text ++ rest)).Finds (l.text ++ rest) (.lexeme l own next) →
      motive next (pos + l.text.length) rest (tokensFrom next (pos + l.text.length) 0 rest) →
      motive r pos (l.text ++ rest)
        (⟨pos, l, own⟩ :: tokensFrom next (pos + l.text.length) 0 rest))
    (blanks : ∀ r pos b rest, (r.current (b ++ rest)).next (b ++ rest) = .blanks b → b ≠ [] →
      ∀ r', r' = r.current (b ++ rest) →
      motive r' (pos + b.length) rest (tokensFrom r' (pos + b.length) 0 rest) →
      motive r pos (b ++ rest) (tokensFrom r' (pos + b.length) 0 rest))
    (r : Region) (pos : Nat) (t : Text) : motive r pos t (tokensFrom r pos 0 t) := by
  -- The induction is on the length of the text: what is found is not empty.
  induction hn : t.length using Nat.strong_induction_on generalizing r pos t with
  | h n ih =>
    by_cases ht : t = []
    · subst ht
      exact nil r pos
    · have hfinds := Region.next_finds (r := r.current t) ht
      cases hnext : (r.current t).next t with
      | lexeme l own next =>
        rw [hnext] at hfinds
        obtain ⟨-, hl, ⟨rest, rfl⟩, -⟩ := id hfinds
        rw [tokensFrom_lexeme hnext hl]
        have hlt : rest.length < n := by
          have := List.length_pos_iff.2 hl
          rw [← hn, List.length_append]
          omega
        exact lexeme r pos l own next rest hnext hfinds (ih _ hlt next _ rest rfl)
      | blanks b =>
        rw [hnext] at hfinds
        obtain ⟨hb, rest, rfl⟩ := hfinds
        rw [tokensFrom_blanks hnext hb]
        have hlt : rest.length < n := by
          have := List.length_pos_iff.2 hb
          rw [← hn, List.length_append]
          omega
        exact blanks r pos b rest hnext hb _ rfl (ih _ hlt _ _ rest rfl)

/-! ## The tokens of a text -/

variable {r : Region} {pos : Nat} {t : Text}

/-- All tokens have texts that their rules allow. -/
theorem tokensFrom_genuine (r : Region) (pos : Nat) (t : Text) :
    ∀ k ∈ tokensFrom r pos 0 t, k.lexeme.Genuine := by
  refine tokensFrom_induction (motive := fun _ _ _ ts => ∀ k ∈ ts, k.lexeme.Genuine)
    ?nil ?lexeme ?blanks r pos t
  case nil =>
    intro r pos k hk
    cases hk
  case lexeme =>
    intro r pos l own next rest hnext hf ih k hk
    rcases List.mem_cons.1 hk with rfl | hk
    · exact hf.1
    · exact ih k hk
  case blanks =>
    intro r pos b rest hnext hb r' hr' ih
    exact ih

/-- A region after the header is followed by such regions only. -/
theorem Region.move_ne_header {l : Lexeme} (h : r ≠ .header) :
    (r.move l).1 ≠ .header ∧ (r.move l).2 ≠ .header := by
  cases r with
  | header => exact absurd rfl h
  | body => cases l <;> exact ⟨nofun, nofun⟩
  | chord => cases l <;> exact ⟨nofun, nofun⟩
  | lyric => cases l <;> exact ⟨nofun, nofun⟩

/-- A region after the header is not read on as the header. -/
theorem Region.current_ne_header (h : r ≠ .header) (t : Text) : r.current t ≠ .header := by
  rcases r.current_eq t with h' | ⟨-, h'⟩
  · rwa [h']
  · rw [h']
    nofun

/-- No token after the header belongs to it. -/
theorem tokensFrom_ne_header (hr : r ≠ .header) :
    ∀ k ∈ tokensFrom r pos 0 t, k.region ≠ .header := by
  refine tokensFrom_induction
    (motive := fun r _ _ ts => r ≠ .header → ∀ k ∈ ts, k.region ≠ .header) ?_ ?_ ?_ r pos t hr
  · intro r pos hr k hk
    cases hk
  · intro r pos l own next rest hnext hf ih hr k hk
    obtain ⟨-, -, -, ⟨-, hm⟩, -⟩ := hf
    have hmove := Region.move_ne_header (l := l) (Region.current_ne_header hr (l.text ++ rest))
    rw [← hm] at hmove
    rcases List.mem_cons.1 hk with rfl | hk
    · exact hmove.1
    · exact ih hmove.2 k hk
  · intro r pos b rest hnext hb r' hr' ih hr
    exact ih (hr' ▸ Region.current_ne_header hr _)

/-- The tokens of the header: fields and other lexemes up to the key field, after which the body
begins. -/
theorem tokensFrom_header (pos : Nat) (t : Text) :
    ∃ (fields : List Token) (key : Option Token) (body : List Token),
      tokensFrom .header pos 0 t = fields ++ key.toList ++ body ∧
      (∀ k ∈ fields, k.region = .header ∧ ∀ text, k.lexeme ≠ .keyField text) ∧
      (∀ k ∈ key, k.region = .header ∧ ∃ text, k.lexeme = .keyField text) ∧
      (∀ k ∈ body, k.region ≠ .header) ∧ (key = none → body = []) := by
  refine tokensFrom_induction (motive := fun r _ _ ts => r = .header →
    ∃ (fields : List Token) (key : Option Token) (body : List Token),
      ts = fields ++ key.toList ++ body ∧
      (∀ k ∈ fields, k.region = .header ∧ ∀ text, k.lexeme ≠ .keyField text) ∧
      (∀ k ∈ key, k.region = .header ∧ ∃ text, k.lexeme = .keyField text) ∧
      (∀ k ∈ body, k.region ≠ .header) ∧ (key = none → body = []))
    ?nil ?lexeme ?blanks .header pos t rfl
  case nil =>
    intro r pos hr
    exact ⟨[], none, [], rfl, nofun, nofun, nofun, fun _ => rfl⟩
  case lexeme =>
    rintro r pos l own next rest hnext hf ih rfl
    obtain ⟨-, -, -, ⟨-, hm⟩, -⟩ := hf
    have hcur : Region.header.current (l.text ++ rest) = .header := if_neg (fun h => nomatch h.1)
    rw [hcur] at hm
    by_cases hkey : ∃ text, l = .keyField text
    · -- The key field is the last token of the header.
      obtain ⟨text, rfl⟩ := hkey
      obtain ⟨rfl, rfl⟩ := Prod.mk.inj hm
      refine ⟨[], some ⟨pos, _, .header⟩, _, rfl, nofun, ?_, tokensFrom_ne_header nofun, nofun⟩
      rintro k ⟨⟩
      exact ⟨rfl, text, rfl⟩
    · -- All other lexemes leave the header open.
      have hstay : Region.header.move l = (.header, .header) := by
        cases l <;> first | rfl | exact absurd ⟨_, rfl⟩ hkey
      rw [hstay] at hm
      obtain ⟨rfl, rfl⟩ := Prod.mk.inj hm
      obtain ⟨fields, key, body, heq, hfields, hrest⟩ := ih rfl
      refine ⟨⟨pos, l, .header⟩ :: fields, key, body, by rw [heq]; rfl, ?_, hrest⟩
      intro k hk
      rcases List.mem_cons.1 hk with rfl | hk
      · exact ⟨rfl, fun text h => hkey ⟨text, h⟩⟩
      · exact hfields k hk
  case blanks =>
    rintro r pos b rest hnext hb r' rfl ih rfl
    exact ih (if_neg (fun h => nomatch h.1))

/-! ## Comments -/

namespace Region

/-- A newline of the body is a lexeme of its own. -/
theorem recognise_newline_body (v : Text) :
    Region.body.recognise (Text.lineEnd ++ v) = some (.lexeme .newline .body .body) := by
  unfold recognise rules Text.lineEnd
  -- None of the rules before it starts with a newline.
  simp (disch := decide) only [List.cons_append, List.findSome?_cons, Rule.spelled_cons,
    Rule.field_cons, Rule.comment_cons]
  rfl

/-- A newline ends a line of lyrics. -/
theorem recognise_newline_lyric (v : Text) :
    Region.lyric.recognise (Text.lineEnd ++ v) = some (.lexeme .newline .lyric .body) :=
  rfl

/-- Comments are recognised outside chords. -/
theorem recognise_comment (hr : r ≠ .chord) (v : Text) :
    r.recognise (Text.commented v) =
      some (.lexeme (.comment (Text.commented (v.takeWhile Text.inLine))) r r) := by
  unfold recognise Text.commented
  cases r with
  | header =>
    unfold rules
    simp (disch := decide) only [List.findSome?_cons, Rule.keyField_cons, Rule.field_cons]
    rfl
  | body =>
    unfold rules
    simp (disch := decide) only [List.cons_append, List.findSome?_cons, Rule.spelled_cons,
      Rule.field_cons]
    rfl
  | chord => exact absurd rfl hr
  | lyric => rfl

/-- A region that recognises something reads on as itself. -/
theorem current_of_recognise (h : r.recognise t = some f) : r.current t = r :=
  if_neg fun ⟨_, hn⟩ => by rw [h] at hn; cases hn

/-- What a region recognises is what is read. -/
theorem next_of_recognise (h : r.recognise t = some f) : r.next t = f := by
  unfold next
  rw [h]

end Region

/-- A lexeme that is recognised at the front becomes a token. -/
theorem tokensFrom_recognised {own next : Region} {l : Lexeme} {rest : Text} (hl : l.text ≠ [])
    (h : r.recognise (l.text ++ rest) = some (.lexeme l own next)) :
    tokensFrom r pos 0 (l.text ++ rest) =
      ⟨pos, l, own⟩ :: tokensFrom next (pos + l.text.length) 0 rest :=
  tokensFrom_lexeme (by rw [Region.current_of_recognise h, Region.next_of_recognise h]) hl

/-- A newline of the body becomes a token. -/
theorem tokensFrom_newline_body (pos : Nat) (v : Text) :
    tokensFrom .body pos 0 (Text.lineEnd ++ v) =
      ⟨pos, .newline, .body⟩ :: tokensFrom .body (pos + 1) 0 v :=
  tokensFrom_recognised (l := .newline) (List.cons_ne_nil _ _) (Region.recognise_newline_body v)

/-- The end of a line of lyrics becomes a token, and the body goes on. -/
theorem tokensFrom_newline_lyric (pos : Nat) (v : Text) :
    tokensFrom .lyric pos 0 (Text.lineEnd ++ v) =
      ⟨pos, .newline, .lyric⟩ :: tokensFrom .body (pos + 1) 0 v :=
  tokensFrom_recognised (l := .newline) (List.cons_ne_nil _ _) (Region.recognise_newline_lyric v)

/-- A comment up to the end of the line becomes a token. -/
theorem tokensFrom_comment (hr : r ≠ .chord) (pos : Nat) {w rest : Text}
    (hw : w.all Text.inLine) (hrest : ∀ c ∈ rest.head?, c = '\n') :
    tokensFrom r pos 0 (Text.commented w ++ rest) =
      ⟨pos, .comment (Text.commented w), r⟩ ::
        tokensFrom r (pos + (Text.commented w).length) 0 rest := by
  refine tokensFrom_recognised (l := .comment (Text.commented w)) (List.cons_ne_nil _ _) ?_
  have hend : rest.takeWhile Text.inLine = [] := by
    cases rest with
    | nil => rfl
    | cons c rest =>
      obtain rfl := hrest c rfl
      rfl
  have htake : (w ++ rest).takeWhile Text.inLine = w := by
    rw [List.takeWhile_append_of_pos (List.all_eq_true.1 hw), hend, List.append_nil]
  have hrec := Region.recognise_comment hr (w ++ rest)
  rw [htake] at hrec
  exact hrec

/-- A comment of the body stands before a newline of the body. -/
def Token.EndsLine (k k' : Token) : Prop :=
  ∀ text, k.lexeme = .comment text → k.region = .body → k'.lexeme = .newline ∧ k'.region = .body

/-- Only the end of the line follows a comment of the body. -/
theorem tokensFrom_comments (r : Region) (pos : Nat) (t : Text) :
    (tokensFrom r pos 0 t).IsChain Token.EndsLine := by
  refine tokensFrom_induction (motive := fun _ _ _ ts => ts.IsChain Token.EndsLine)
    ?nil ?lexeme ?blanks r pos t
  case nil =>
    intro r pos
    exact .nil
  case lexeme =>
    intro r pos l own next rest hnext hf ih
    refine List.isChain_cons.2 ⟨?_, ih⟩
    rintro k' hk' text rfl rfl
    obtain ⟨-, -, -, ⟨-, hm⟩, hend⟩ := hf
    have hstay : next = .body := by
      generalize r.current _ = r' at hm
      cases r' <;> cases hm
      rfl
    subst hstay
    -- What follows the comment is a newline, which the body reads as a token.
    cases rest with
    | nil => cases hk'
    | cons c rest =>
      obtain rfl := hend text rfl c rest rfl
      rw [show (_ :: rest) = Text.lineEnd ++ rest from rfl, tokensFrom_newline_body] at hk'
      cases hk'
      exact ⟨rfl, rfl⟩
  case blanks =>
    intro r pos b rest hnext hb r' hr' ih
    exact ih

/-! ## Lexemes -/

/-- A token without its position. -/
def Token.bare (k : Token) : Lexeme × Region :=
  (k.lexeme, k.region)

/-- The lexemes of a text that is read in a region, each with the region that it belongs to. -/
def lex (r : Region) (t : Text) : List (Lexeme × Region) :=
  (tokensFrom r 0 0 t).map Token.bare

/-- The position of a text does not change its lexemes. -/
theorem map_bare_tokensFrom (r : Region) (pos pos' owed : Nat) (t : Text) :
    (tokensFrom r pos owed t).map Token.bare = (tokensFrom r pos' owed t).map Token.bare := by
  induction t generalizing r pos pos' owed with
  | nil => cases owed <;> rfl
  | cons c t ih =>
    cases owed with
    | zero =>
      rw [tokensFrom, tokensFrom]
      split
      · rw [List.map_cons, List.map_cons, ih _ (pos + 1) (pos' + 1)]
        rfl
      · exact ih _ _ _ _
    | succ owed => exact ih _ _ _ _

/-- The lexemes of a text at any position. -/
theorem map_bare_eq_lex (r : Region) (pos : Nat) (t : Text) :
    (tokensFrom r pos 0 t).map Token.bare = lex r t :=
  map_bare_tokensFrom r pos 0 0 t

end SingAlong
