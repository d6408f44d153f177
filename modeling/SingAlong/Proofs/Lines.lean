import SingAlong.Proofs.Lexing

/-!
# Texts within a line

The text of a line goes up to the line end or a comment. Every rule after the header is local: in
front of such a text it recognises what it recognises without what follows (`Rule.Local`), so what
is read there is read without what follows as well (`Region.next_append`).

In a line of lyrics this gives the tokens: those of its own text come first, then a comment and a
newline, if they are there (`tokensFrom_lyric`).
-/

namespace SingAlong

/-! ## What is recognised within a line -/

/-- Only line ends and comments end the text of a line. -/
theorem Rule.inField_eq_false {c : CodePoint} (h : inField c = false) : c = '\n' ∨ c = '%' := by
  by_contra hc
  rw [not_or] at hc
  simp [inField, hc.1, hc.2] at h

/-- A class of characters within a line holds neither the line end nor the mark of a comment. -/
theorem Rule.inField_of_class {p : CodePoint → Bool} (hp : "\n%".text.all fun c => !p c)
    (c : CodePoint) (hc : p c) : inField c := by
  by_contra hout
  have hcases := inField_eq_false (Bool.eq_false_iff.2 hout)
  have hall := List.all_eq_true.1 hp c (by rcases hcases with rfl | rfl <;> decide)
  rw [hc] at hall
  cases hall

section

/-! What follows the text starts with a line end or a comment, or there is nothing. -/

variable {x u : Text} (hu : ∀ c ∈ u.head?, Rule.inField c = false)
include hu

/-- A spelling does not reach beyond the text. -/
theorem prefix_append_iff {s : Text} (hs : s.all Rule.inField) : s <+: x ++ u ↔ s <+: x := by
  -- The spelling has only characters of a field, and what follows the text starts with another.
  refine ⟨fun h => ?_, fun h => h.trans (List.prefix_append x u)⟩
  induction x generalizing s with
  | nil =>
    cases s with
    | nil => exact List.nil_prefix
    | cons c s =>
      obtain ⟨rest, rfl⟩ := h
      have hc := hu c rfl
      rw [List.all_cons, hc] at hs
      cases hs
  | cons d x ih =>
    cases s with
    | nil => exact List.nil_prefix
    | cons c s =>
      obtain ⟨rfl, hrest⟩ := List.cons_prefix_cons.1 h
      rw [List.all_cons, Bool.and_eq_true] at hs
      exact List.cons_prefix_cons.2 ⟨rfl, ih hs.2 hrest⟩

/-- A run of characters does not reach beyond the text. -/
theorem takeWhile_append_text {p : CodePoint → Bool} (hp : ∀ c, p c → Rule.inField c) :
    (x ++ u).takeWhile p = x.takeWhile p := by
  induction x with
  | nil =>
    cases u with
    | nil => rfl
    | cons c u =>
      have hc : p c = false := by
        by_contra h
        have hin := hp c (by simpa using h)
        rw [hu c rfl] at hin
        cases hin
      rw [List.nil_append, List.takeWhile_cons_of_neg (by rw [hc]; exact Bool.false_ne_true)]
      rfl
  | cons c x ih =>
    rw [List.cons_append, List.takeWhile_cons, List.takeWhile_cons, ih]

end

namespace Rule

/-- The rule recognises at the front of a text within a line what it recognises without what
follows. -/
def Local (rule : Rule) : Prop :=
  ∀ x u : Text, x ≠ [] → x.all inField → (∀ c ∈ u.head?, inField c = false) →
    rule (x ++ u) = rule x

variable {r own next : Region} {l : Lexeme} {p : CodePoint → Bool}

/-- The first character of a text within a line. -/
theorem exists_cons_inField {x : Text} (hne : x ≠ []) (hx : x.all inField) :
    ∃ (c : CodePoint) (y : Text), x = c :: y ∧ c ≠ '\n' ∧ c ≠ '%' := by
  obtain ⟨c, y, rfl⟩ := List.exists_cons_of_ne_nil hne
  rw [List.all_cons, Bool.and_eq_true] at hx
  exact ⟨c, y, rfl, by simpa [inField] using hx.1⟩

/-- A rule that looks for a first character that is not in the text. -/
theorem local_of_cons {rule : Rule}
    (h : ∀ (c : CodePoint) (t : Text), c ≠ '\n' → c ≠ '%' → rule (c :: t) = none) : Local rule := by
  intro x u hne hx hu
  obtain ⟨c, y, rfl, hline, hcomment⟩ := exists_cons_inField hne hx
  rw [List.cons_append, h c _ hline hcomment, h c _ hline hcomment]

/-- A spelling within a line. -/
theorem spelled_local (hl : l.text.all inField) : Local (spelled l own next) := by
  intro x u hne hx hu
  unfold spelled
  simp only [List.isPrefixOf_iff_prefix, prefix_append_iff hu hl]

/-- A newline is not in the text. -/
theorem newline_local : Local (spelled .newline own next) :=
  local_of_cons fun _ _ hline _ =>
    spelled_cons (List.cons_ne_nil _ _) fun h => hline (Option.some.inj h).symm

/-- A comment is not in the text. -/
theorem comment_local : Local (comment r) :=
  local_of_cons fun _ _ _ hcomment => comment_cons hcomment

/-- A run of characters within a line. -/
theorem many_local {found : Text → Recognised} (hp : ∀ c, p c → inField c) :
    Local (many p found) := by
  intro x u hne hx hu
  unfold many
  rw [takeWhile_append_text hu hp]

/-- A text without a colon after its first character is no field. -/
theorem field_eq_none {label : Text → Lexeme} {c : CodePoint} {t : Text}
    (ht : ∀ rest, t ≠ (':' : CodePoint) :: rest) : field p label r (c :: t) = none := by
  unfold field
  split
  next rest heq =>
    cases heq
    exact absurd rfl (ht rest)
  next => rfl

/-- A colon does not end the text of a line. -/
theorem ne_colon {u : Text} (hu : ∀ c ∈ u.head?, inField c = false) (rest : Text) :
    u ≠ (':' : CodePoint) :: rest := by
  rintro rfl
  cases hu ':' rfl

/-- A field, whose value goes up to the end of the text. -/
theorem field_local (label : Text → Lexeme) : Local (field p label r) := by
  intro x u hne hx hu
  obtain ⟨c, y, rfl⟩ := List.exists_cons_of_ne_nil hne
  cases y with
  | nil => rw [List.singleton_append, field_eq_none (ne_colon hu),
      field_eq_none (t := []) fun _ => nofun]
  | cons d y =>
    by_cases hd : d = ':'
    · subst hd
      have hvalue := takeWhile_append_text (x := y) hu fun _ hc => hc
      have hfield (z : Text) : field p label r (c :: ':' :: z) = if p c then
          some (.lexeme (label (c :: ':' :: z.takeWhile inField)) r r) else none := rfl
      rw [List.cons_append, List.cons_append, hfield, hfield, hvalue]
    · have hcolon (z : Text) : ∀ rest, d :: z ≠ (':' : CodePoint) :: rest := by
        rintro rest ⟨⟩
        exact hd rfl
      rw [List.cons_append, List.cons_append, field_eq_none (hcolon _), field_eq_none (hcolon _)]

/-- A note letter. -/
theorem note_local : Local (note r) := by
  intro x u hne hx hu
  obtain ⟨c, y, rfl⟩ := List.exists_cons_of_ne_nil hne
  rfl

/-- Octave marks. -/
theorem octave_local : Local (octave r) := by
  intro x u hne hx hu
  have hfront : OctaveMark.front (x ++ u) = OctaveMark.front x := by
    clear hne hx
    induction x with
    | nil =>
      cases u with
      | nil => rfl
      | cons c u =>
        have hc : OctaveMark.ofChar? c = none := by
          rcases inField_eq_false (hu c rfl) with rfl | rfl <;> rfl
        have hnone : OctaveMark.front (c :: u) = [] := by rw [OctaveMark.front, hc]
        exact hnone
    | cons c x ih => rw [List.cons_append, OctaveMark.front, OctaveMark.front, ih]
  unfold octave
  rw [hfront]

/-- A length suffix. -/
theorem length_local : Local (length r) := by
  intro x u hne hx hu
  have hdigit : ∀ c, isDigit c → inField c := inField_of_class (by decide)
  unfold length
  dsimp only
  rw [takeWhile_append_text hu hdigit, List.drop_append_of_le_length
    (List.takeWhile_prefix isDigit).length_le]
  generalize x.takeWhile isDigit = num
  generalize x.drop num.length = rest
  refine congrArg (fun run : Text => if run.isEmpty then none else
    some (Recognised.lexeme (.length run) r r)) ?_
  -- A slash after the digits is in the text, and so are the digits after it.
  cases rest with
  | nil =>
    rw [List.nil_append]
    split
    next den => cases hu '/' rfl
    next => rfl
  | cons d den =>
    by_cases hd : d = '/'
    · subst hd
      change num ++ "/".text ++ (den ++ u).takeWhile isDigit = _
      rw [takeWhile_append_text hu hdigit]
      rfl
    · rw [List.cons_append]
      split
      next heq => exact absurd (List.cons.inj heq).1 hd
      next =>
        split
        next heq => exact absurd (List.cons.inj heq).1 hd
        next => rfl

/-- The rules for the parts of notes and rests. -/
theorem music_local : ∀ rule ∈ music r, Local rule := by
  intro rule h
  unfold music at h
  rcases List.mem_append.1 h with h | h
  · obtain ⟨a, -, rfl⟩ := List.mem_map.1 h
    exact spelled_local (by cases a <;> decide)
  · simp only [List.mem_cons, List.not_mem_nil, or_false] at h
    rcases h with rfl | rfl | rfl | rfl
    · exact note_local
    · exact octave_local
    · exact spelled_local rfl
    · exact length_local

end Rule

namespace Region

variable {r : Region} {x u : Text}

/-- The rules of the regions after the header are local. -/
theorem rules_local (hr : r ≠ .header) : ∀ rule ∈ r.rules, Rule.Local rule := by
  have hblank : ∀ c : CodePoint, (c == ' ' || c == '\t' || c == '\r') → Rule.inField c :=
    Rule.inField_of_class (by decide)
  intro rule h
  cases r with
  | header => exact absurd rfl hr
  | body =>
    simp only [rules, List.mem_append, List.mem_cons, List.not_mem_nil, or_false, List.mem_map] at h
    rcases h with (((h | ⟨b, -, rfl⟩) | rfl) | ⟨size, -, rfl⟩) | h
    · rcases h with rfl | rfl | rfl | rfl | rfl
      · exact Rule.spelled_local (by decide)
      · exact Rule.field_local _
      · exact Rule.comment_local
      · exact Rule.newline_local
      · exact Rule.many_local hblank
    · exact Rule.spelled_local (by cases b <;> decide)
    · exact Rule.spelled_local (by decide)
    · exact Rule.spelled_local (by cases size <;> decide)
    · exact Rule.music_local rule h
  | chord =>
    simp only [rules, List.mem_append, List.mem_cons, List.not_mem_nil, or_false] at h
    rcases h with (rfl | rfl) | h
    · exact Rule.spelled_local (by decide)
    · exact Rule.many_local (Rule.inField_of_class (by decide))
    · exact Rule.music_local rule h
  | lyric =>
    simp only [rules, List.mem_cons, List.not_mem_nil, or_false] at h
    rcases h with rfl | rfl | rfl | rfl | rfl | rfl | rfl | rfl | rfl | rfl | rfl
    · exact Rule.newline_local
    · exact Rule.comment_local
    · exact Rule.many_local hblank
    all_goals first
      | exact Rule.spelled_local (by decide)
      | exact Rule.many_local (Rule.inField_of_class (by decide))

/-- What follows a text within a line, if anything does, is recognised in the body. -/
theorem recognise_body_end (hne : u ≠ []) (hu : ∀ c ∈ u.head?, Rule.inField c = false) :
    (Region.body.recognise u).isSome := by
  obtain ⟨c, v, rfl⟩ := List.exists_cons_of_ne_nil hne
  rcases Rule.inField_eq_false (hu c rfl) with rfl | rfl
  · exact congrArg Option.isSome (recognise_newline_body v)
  · exact congrArg Option.isSome (recognise_comment (r := .body) nofun v)

/-- Unknown text within a line does not depend on what follows, where what is recognised does
not. -/
theorem unknown_append
    (hsome : ∀ y : Text, y ≠ [] → y.all Rule.inField →
      (r.recognise (y ++ u)).isSome = (r.recognise y).isSome)
    (hend : u ≠ [] → (r.recognise u).isSome) (hx : x.all Rule.inField) :
    r.unknown (x ++ u) = r.unknown x := by
  induction x with
  | nil =>
    cases u with
    | nil => rfl
    | cons c u =>
      have hnone : r.unknown (c :: u) = [] := by
        rw [unknown, if_pos (hend (List.cons_ne_nil _ _))]
      exact hnone
  | cons c x ih =>
    have hsame := hsome (c :: x) (List.cons_ne_nil _ _) hx
    rw [List.cons_append] at hsame
    rw [List.all_cons, Bool.and_eq_true] at hx
    rw [List.cons_append, unknown, unknown, hsame, ih hx.2]

section

variable (hne : x ≠ []) (hx : x.all Rule.inField) (hu : ∀ c ∈ u.head?, Rule.inField c = false)
include hne hx hu

/-- What is recognised within a line after the header does not depend on what follows. -/
theorem recognise_append (hr : r ≠ .header) : r.recognise (x ++ u) = r.recognise x := by
  have hlocal := rules_local hr
  unfold recognise
  generalize r.rules = rules at hlocal
  induction rules with
  | nil => rfl
  | cons rule rules ih =>
    obtain ⟨hrule, hrules⟩ := List.forall_mem_cons.1 hlocal
    rw [List.findSome?_cons, List.findSome?_cons, hrule x u hne hx hu, ih hrules]

/-- The region that reads on within a line does not depend on what follows. -/
theorem current_append (hr : r ≠ .header) : r.current (x ++ u) = r.current x := by
  unfold current
  rw [recognise_append hne hx hu hr]

/-- What is read within a line after the header does not depend on what follows. -/
theorem next_append (hr : r ≠ .header) :
    (r.current (x ++ u)).next (x ++ u) = (r.current x).next x := by
  rw [current_append hne hx hu hr]
  have hcurrent := current_ne_header hr x
  have hchord := current_ne_chord (r := r) (t := x)
  generalize r.current x = cur at hcurrent hchord
  unfold next
  rw [recognise_append hne hx hu hcurrent]
  split
  next => rfl
  next hnone =>
    split_ifs with hlyric
    · obtain ⟨c, y, rfl⟩ := List.exists_cons_of_ne_nil hne
      rfl
    · obtain rfl : cur = .body := by
        cases cur with
        | header => exact absurd rfl hcurrent
        | body => rfl
        | chord => exact absurd rfl (hchord hnone)
        | lyric => exact absurd rfl hlyric
      rw [unknown_append (fun y hy hyf => by rw [recognise_append hy hyf hu hcurrent])
        (fun hu' => recognise_body_end hu' hu) hx]

end

end Region

/-! ## Lines of lyrics -/

/-- A line of lyrics is not read on as another region. -/
theorem Region.current_lyric (t : Text) : Region.lyric.current t = .lyric :=
  if_neg fun h => nomatch h.1

/-- Only a newline leads out of a line of lyrics. -/
theorem Region.lyric_stays {l : Lexeme} {own next : Region} (h : Region.lyric.Takes l own next)
    (hl : l.text.all Rule.inField) : next = .lyric := by
  obtain ⟨-, hm⟩ := h
  cases l with
  | newline => cases hl
  | _ =>
    cases hm
    rfl

section

variable {x u : Text} (hx : x.all Rule.inField) (hu : ∀ c ∈ u.head?, Rule.inField c = false)
include hx hu

/-- The tokens of the text come before those of what follows it. -/
theorem tokensFrom_lyric_append (pos : Nat) :
    tokensFrom .lyric pos 0 (x ++ u) =
      tokensFrom .lyric pos 0 x ++ tokensFrom .lyric (pos + x.length) 0 u := by
  refine tokensFrom_induction (motive := fun r pos x ts => r = .lyric → x.all Rule.inField →
    tokensFrom .lyric pos 0 (x ++ u) = ts ++ tokensFrom .lyric (pos + x.length) 0 u)
    ?nil ?lexeme ?blanks .lyric pos x rfl hx
  case nil =>
    intro r pos hr hx
    rfl
  case lexeme =>
    rintro r pos l own next rest hnext ⟨-, hl, -, hm, -⟩ ih rfl hx
    rw [Region.current_lyric (l.text ++ rest)] at hm
    have hne : l.text ++ rest ≠ [] := List.append_ne_nil_of_left_ne_nil hl _
    -- The same is found in the text alone, and the region stays that of the lyrics.
    have happ := Region.next_append hne hx hu (r := .lyric) nofun
    rw [hnext, List.append_assoc] at happ
    rw [List.all_append, Bool.and_eq_true] at hx
    obtain rfl := Region.lyric_stays hm hx.1
    rw [List.append_assoc, tokensFrom_lexeme happ hl, List.cons_append,
      ih rfl hx.2, List.length_append, Nat.add_assoc]
  case blanks =>
    rintro r pos b rest hnext hb r' rfl ih rfl hx
    rw [Region.current_lyric] at ih ⊢
    have hne : b ++ rest ≠ [] := List.append_ne_nil_of_left_ne_nil hb _
    have happ := Region.next_append hne hx hu (r := .lyric) nofun
    rw [hnext, List.append_assoc] at happ
    rw [List.all_append, Bool.and_eq_true] at hx
    rw [List.append_assoc, tokensFrom_blanks happ hb,
      Region.current_lyric, ih rfl hx.2, List.length_append, Nat.add_assoc]

end

/-- The text of a line of lyrics is read as tokens of the lyrics alone. -/
theorem tokensFrom_lyric_kinds (pos : Nat) {x : Text} (hx : x.all Rule.inField) :
    ∀ k ∈ tokensFrom .lyric pos 0 x,
      ∃ kind text, k.lexeme = .lyric kind text ∧ kind ≠ .newline ∧ k.region = .lyric := by
  refine tokensFrom_induction (motive := fun r _ x ts => r = .lyric → x.all Rule.inField →
    ∀ k ∈ ts, ∃ kind text, k.lexeme = .lyric kind text ∧ kind ≠ .newline ∧ k.region = .lyric)
    ?nil ?lexeme ?blanks .lyric pos x rfl hx
  case nil =>
    intro r pos hr hx k hk
    cases hk
  case lexeme =>
    rintro r pos l own next rest hnext ⟨hg, hl, -, hm, -⟩ ih rfl hx k hk
    rw [Region.current_lyric] at hm
    rw [List.all_append, Bool.and_eq_true] at hx
    obtain rfl := Region.lyric_stays hm hx.1
    obtain ⟨hhas, hmove⟩ := hm
    rcases List.mem_cons.1 hk with rfl | hk
    · cases l with
      | lyric kind text =>
        cases hmove
        exact ⟨kind, text, rfl, bne_iff_ne.1 hhas, rfl⟩
      | newline => cases hmove
      | comment text =>
        obtain ⟨rest, -, rfl⟩ := hg
        cases hx.1
      | _ => cases hhas
    · exact ih rfl hx.2 k hk
  case blanks =>
    rintro r pos b rest hnext hb r' rfl ih rfl hx
    rw [List.all_append, Bool.and_eq_true] at hx
    exact ih (Region.current_lyric _) hx.2

/-- The tokens that end a line of lyrics: a comment and a newline, if they are there. -/
def EndsLyrics (ts : List Token) : Prop :=
  ∃ comment newline : Option Token, ts = comment.toList ++ newline.toList ∧
    (∀ k ∈ comment, k.region = .lyric ∧ ∃ text, k.lexeme = .comment text) ∧
    ∀ k ∈ newline, k.region = .lyric ∧ k.lexeme = .newline

/-- The end of a line ends the lyrics, or else the source does. -/
theorem tokensFrom_lyric_end (pos : Nat) {u : Text} (hu : ∀ c ∈ u.head?, c = '\n') :
    ∃ (newline : Option Token) (pos' : Nat) (rest : Text),
      tokensFrom .lyric pos 0 u = newline.toList ++ tokensFrom .body pos' 0 rest ∧
      ∀ k ∈ newline, k.region = .lyric ∧ k.lexeme = .newline := by
  cases u with
  | nil => exact ⟨none, 0, [], rfl, nofun⟩
  | cons c rest =>
    obtain rfl := hu c rfl
    refine ⟨some ⟨pos, .newline, .lyric⟩, pos + 1, rest, tokensFrom_newline_lyric pos rest, ?_⟩
    rintro k ⟨⟩
    exact ⟨rfl, rfl⟩

/-- The tokens after the opening of a line of lyrics: those of its text, the tokens that end it, and
the tokens of the body after it. -/
theorem tokensFrom_lyric (pos : Nat) (t : Text) :
    ∃ (ending : List Token) (pos' : Nat) (rest : Text),
      tokensFrom .lyric pos 0 t =
        tokensFrom .lyric pos 0 (t.takeWhile Rule.inField) ++ ending ++
          tokensFrom .body pos' 0 rest ∧ EndsLyrics ending := by
  have ht := List.takeWhile_append_dropWhile (p := Rule.inField) (l := t)
  have hu := Rule.head_dropWhile (p := Rule.inField) (t := t)
  have hx : (t.takeWhile Rule.inField).all Rule.inField := List.all_takeWhile
  generalize t.takeWhile Rule.inField = x at *
  generalize t.dropWhile Rule.inField = u at *
  subst ht
  rw [tokensFrom_lyric_append hx hu]
  by_cases hc : ∃ v, u = Text.commented v
  · -- A comment reaches to the end of the line.
    obtain ⟨v, rfl⟩ := hc
    have hv := List.takeWhile_append_dropWhile (p := Text.inLine) (l := v)
    have hw : (v.takeWhile Text.inLine).all Text.inLine := List.all_takeWhile
    have hrest : ∀ c ∈ (v.dropWhile Text.inLine).head?, c = '\n' := fun c hc => by
      simpa [Text.inLine] using Rule.head_dropWhile (p := Text.inLine) (t := v) c hc
    generalize v.takeWhile Text.inLine = w at *
    generalize v.dropWhile Text.inLine = rest at *
    subst hv
    obtain ⟨newline, pos', rest', hnewline, hn⟩ := tokensFrom_lyric_end
      (pos + x.length + (Text.commented w).length) hrest
    have hlyric : Region.lyric ≠ .chord := by decide
    have htok := tokensFrom_comment hlyric (pos + x.length) hw hrest
    let k : Token := ⟨pos + x.length, .comment (Text.commented w), .lyric⟩
    refine ⟨k :: newline.toList, pos', rest', ?_, some k, newline, rfl, ?_, hn⟩
    · rw [show Text.commented (w ++ rest) = Text.commented w ++ rest from rfl, htok, hnewline,
        List.append_assoc]
      rfl
    · rintro _ ⟨⟩
      exact ⟨rfl, _, rfl⟩
  · -- What ends the text without a comment is a newline.
    have hend : ∀ c ∈ u.head?, c = '\n' := by
      intro c hcu
      have hne : c ≠ '%' := by
        rintro rfl
        exact hc ⟨u.tail, (List.cons_head?_tail hcu).symm⟩
      have hf := hu c hcu
      simpa [Rule.inField, hne] using hf
    obtain ⟨newline, pos', rest, htok, hn⟩ := tokensFrom_lyric_end (pos + x.length) hend
    exact ⟨newline.toList, pos', rest, by rw [htok, List.append_assoc], none, newline, rfl,
      fun k hk => absurd hk (Option.not_mem_none k), hn⟩

/-! ## Lyrics without other blanks -/

/-- A text whose blanks are spaces, tabs and carriage returns, which the lyrics keep. -/
def Text.PlainBlanks (x : Text) : Prop :=
  ∀ c ∈ x, isBlank c → c = ' ' ∨ c = '\t' ∨ c = '\r'

/-- Only a blank is unknown to the lyrics. -/
theorem Region.isBlank_of_recognise_lyric {c : CodePoint} {t : Text}
    (h : Region.lyric.recognise (c :: t) = none) : isBlank c := by
  by_contra hblank
  have hall := List.findSome?_eq_none_iff.1 h
  unfold rules Rule.lyric Rule.spelled Rule.many at hall
  simp only [List.mem_cons, List.not_mem_nil, or_false, forall_eq_or_imp, forall_eq] at hall
  obtain ⟨-, hcomment, -, -, hhyphen, hextender, hskip, htie, hbar, hsyllable, hescape⟩ := hall
  -- A character that is not blank starts a syllable, a spelling or a comment.
  have hkept : Rule.inSyllable c = false := by
    by_contra hs
    rw [List.takeWhile_cons_of_pos (by simpa using hs)] at hsyllable
    cases hsyllable
  have hmem : c ∈ "%\\*~|_-".text := by
    rw [Bool.not_eq_true] at hblank
    simpa [Rule.inSyllable, hblank] using hkept
  have hcases : c = '%' ∨ c = '\\' ∨ c = '*' ∨ c = '~' ∨ c = '|' ∨ c = '_' ∨ c = '-' := by
    simpa [String.text] using hmem
  rcases hcases with rfl | rfl | rfl | rfl | rfl | rfl | rfl
  · cases hcomment
  · cases hescape
  · cases hskip
  · cases htie
  · cases hbar
  · cases hextender
  · cases hhyphen

/-- Only other blanks are passed over in a line of lyrics. -/
theorem Region.recognise_lyric_isSome {x : Text} (hb : x.PlainBlanks) (hne : x ≠ []) :
    Region.lyric.recognise x ≠ none := by
  obtain ⟨c, cs, rfl⟩ := List.exists_cons_of_ne_nil hne
  intro h
  -- A blank that the lyrics keep is a space of theirs.
  rcases hb c List.mem_cons_self (isBlank_of_recognise_lyric h) with rfl | rfl | rfl
  all_goals cases h

/-- The rules of the lyrics pass over nothing. -/
theorem Region.recognise_lyric_ne_blanks (t b : Text) :
    Region.lyric.recognise t ≠ some (.blanks b) := by
  intro h
  obtain ⟨rule, hmem, hrule⟩ := List.exists_of_findSome?_eq_some h
  unfold rules Rule.lyric at hmem
  simp only [List.mem_cons, List.not_mem_nil, or_false] at hmem
  have hspelled {l : Lexeme} {own next : Region} :
      Rule.spelled l own next t ≠ some (.blanks b) := by
    unfold Rule.spelled
    split_ifs <;> exact nofun
  have hmany {p : CodePoint → Bool} {label : Text → Lexeme} {own next : Region} :
      Rule.many p (fun t => .lexeme (label t) own next) t ≠ some (.blanks b) := by
    intro hm
    cases (Rule.many_eq_some hm).2
  have hcomment : Rule.comment .lyric t ≠ some (.blanks b) := by
    unfold Rule.comment
    split <;> exact nofun
  rcases hmem with rfl | rfl | rfl | rfl | rfl | rfl | rfl | rfl | rfl | rfl | rfl
  · exact hspelled hrule
  · exact hcomment hrule
  · exact hmany hrule
  all_goals first
    | exact hspelled hrule
    | exact hmany hrule

/-- The tokens of such a text make it up. -/
theorem tokensFrom_lyric_text (pos : Nat) {x : Text} (hx : x.all Rule.inField)
    (hb : x.PlainBlanks) : (tokensFrom .lyric pos 0 x).flatMap Token.text = x := by
  refine tokensFrom_induction (motive := fun r _ x ts => r = .lyric → x.all Rule.inField →
    x.PlainBlanks → ts.flatMap Token.text = x) ?nil ?lexeme ?blanks .lyric pos x rfl hx hb
  case nil =>
    intro r pos hr hx hb
    rfl
  case lexeme =>
    rintro r pos l own next rest hnext ⟨-, hl, -, hm, -⟩ ih rfl hx hb
    rw [Region.current_lyric] at hm
    rw [List.all_append, Bool.and_eq_true] at hx
    obtain rfl := Region.lyric_stays hm hx.1
    rw [List.flatMap_cons, ih rfl hx.2 fun c hc => hb c (List.mem_append_right _ hc)]
    rfl
  case blanks =>
    rintro r pos b rest hnext hne r' rfl ih rfl hx hb
    -- No blanks are passed over: something is recognised, and it is a lexeme.
    rw [Region.current_lyric] at hnext
    have hsome := Region.recognise_lyric_isSome hb (List.append_ne_nil_of_left_ne_nil hne _)
    obtain ⟨f, hf⟩ := Option.ne_none_iff_exists'.1 hsome
    rw [Region.next_of_recognise hf] at hnext
    subst hnext
    exact absurd hf (Region.recognise_lyric_ne_blanks _ _)

end SingAlong
