import SingAlong.Proofs.Spelling

/-!
# Blanks at the ends of lines

A text is padded with spaces, tabs and carriage returns before its line ends. The tokens of the
padded text are those of the text, apart from blanks that belong to fields and comments, and from
the spaces that come to stand at the end of a line of lyrics (`tokensFrom_padded`).

Each rule of the lexer is steady: in front of a padded text it recognises what it recognises in
front of the text itself, and what is left is padded as well (`Rule.Steady`).
-/

namespace SingAlong

/-- The blanks that are added at the end of a line. -/
def isPad (c : CodePoint) : Bool :=
  c == ' ' || c == '\t' || c == '\r'

/-- A text, and the text with blanks added before some of its line ends. -/
inductive Text.Padded : Text → Text → Prop
  | nil : Padded [] []
  | keep (c : CodePoint) {t t' : Text} (h : Padded t t') : Padded (c :: t) (c :: t')
  | line (b : Text) {t t' : Text} (hb : b.all isPad) (h : Padded t t') :
      Padded (('\n' : CodePoint) :: t) (b ++ ('\n' : CodePoint) :: t')

/-- A character that is neither a line end nor a blank that is added. -/
def isSolid (c : CodePoint) : Bool :=
  c != '\n' && !isPad c

/-- The blanks that are added are three characters. -/
theorem isPad_cases {c : CodePoint} (h : isPad c) : c = ' ' ∨ c = '\t' ∨ c = '\r' := by
  simpa [isPad, or_assoc] using h

/-- A class of characters within a line holds neither the line end nor the blanks that are added. -/
theorem isSolid_of_class {p : CodePoint → Bool} (hp : "\n \t\r".text.all fun c => !p c)
    (c : CodePoint) (hc : p c) : isSolid c := by
  by_contra hsolid
  have hcases : c = '\n' ∨ c = ' ' ∨ c = '\t' ∨ c = '\r' := by
    by_cases hn : c = '\n'
    · exact .inl hn
    · exact .inr (isPad_cases (by simpa [isSolid, hn] using hsolid))
  have hall := List.all_eq_true.1 hp c (by rcases hcases with rfl | rfl | rfl | rfl <;> decide)
  rw [hc] at hall
  cases hall

namespace Text.Padded

variable {t t' s s' w : Text} {c : CodePoint} {p : CodePoint → Bool}

/-- Nothing has to be added. -/
theorem refl (t : Text) : Padded t t := by
  induction t with
  | nil => exact .nil
  | cons c t ih => exact .keep c ih

/-- A text after another one. -/
theorem append (h : Padded t t') (h' : Padded s s') : Padded (t ++ s) (t' ++ s') := by
  induction h with
  | nil => exact h'
  | keep c h ih => exact .keep c ih
  | line b hb h ih =>
    rw [List.append_assoc]
    exact .line b hb ih

/-- Nothing is added in front of a character within a line. -/
theorem cons_left (h : Padded (c :: t) t') (hc : isSolid c) : ∃ s', t' = c :: s' ∧ Padded t s' := by
  cases h with
  | keep _ h => exact ⟨_, rfl, h⟩
  | line b hb h => cases hc

/-- A character within a line was there before. -/
theorem cons_right (h : Padded t (c :: t')) (hc : isSolid c) : ∃ s, t = c :: s ∧ Padded s t' := by
  generalize hx : c :: t' = x at h
  cases h with
  | nil => cases hx
  | keep _ h =>
    cases hx
    exact ⟨_, rfl, h⟩
  | line b hb h =>
    cases b with
    | nil =>
      cases hx
      cases hc
    | cons d b =>
      cases hx
      rw [List.all_cons, Bool.and_eq_true] at hb
      rw [isSolid, hb.1, Bool.not_true, Bool.and_false] at hc
      cases hc

/-- Nothing is added within a word. -/
theorem append_left (hw : w.all isSolid) (h : Padded (w ++ s) t') :
    ∃ s', t' = w ++ s' ∧ Padded s s' := by
  induction w generalizing t' with
  | nil => exact ⟨t', rfl, h⟩
  | cons c w ih =>
    rw [List.all_cons, Bool.and_eq_true] at hw
    obtain ⟨x, rfl, hx⟩ := h.cons_left hw.1
    obtain ⟨s', rfl, hs⟩ := ih hw.2 hx
    exact ⟨s', rfl, hs⟩

/-- A word was there before. -/
theorem append_right (hw : w.all isSolid) (h : Padded t (w ++ s')) :
    ∃ s, t = w ++ s ∧ Padded s s' := by
  induction w generalizing t with
  | nil => exact ⟨t, rfl, h⟩
  | cons c w ih =>
    rw [List.all_cons, Bool.and_eq_true] at hw
    obtain ⟨x, rfl, hx⟩ := h.cons_right hw.1
    obtain ⟨s, rfl, hs⟩ := ih hw.2 hx
    exact ⟨s, rfl, hs⟩

/-- A word stands in front of the padded text when it stands in front of the text. -/
theorem isPrefixOf (h : Padded t t') (hw : w.all isSolid) : w.isPrefixOf t' = w.isPrefixOf t := by
  refine Bool.eq_iff_iff.2 ?_
  rw [List.isPrefixOf_iff_prefix, List.isPrefixOf_iff_prefix]
  constructor
  · rintro ⟨s', rfl⟩
    obtain ⟨s, rfl, -⟩ := h.append_right hw
    exact List.prefix_append w s
  · rintro ⟨s, rfl⟩
    obtain ⟨s', rfl, -⟩ := h.append_left hw
    exact List.prefix_append w s'

/-- A run of characters within a line is the same in the padded text. -/
theorem takeWhile (h : Padded t t') (hp : ∀ c, p c → isSolid c) :
    t'.takeWhile p = t.takeWhile p := by
  have hnone {c : CodePoint} (hc : isSolid c = false) : p c = false := by
    by_contra hpc
    rw [hp c (by simpa using hpc)] at hc
    cases hc
  induction h with
  | nil => rfl
  | keep c h ih => rw [List.takeWhile_cons, List.takeWhile_cons, ih]
  | line b hb h ih =>
    have hline : p '\n' = false := hnone rfl
    cases b with
    | nil => rw [List.nil_append, List.takeWhile_cons, List.takeWhile_cons, hline]; rfl
    | cons d b =>
      rw [List.all_cons, Bool.and_eq_true] at hb
      have hd : p d = false := hnone (by rw [isSolid, hb.1, Bool.not_true, Bool.and_false])
      rw [List.cons_append, List.takeWhile_cons, List.takeWhile_cons, hline, hd]
      rfl

/-- A run of characters that holds the blanks as well may end with blanks that were added. -/
theorem takeWhile_append (h : Padded t t') (hn : p '\n' = false) (hp : ∀ c, isPad c → p c) :
    ∃ b : Text, b.all isPad ∧ t'.takeWhile p = t.takeWhile p ++ b := by
  induction h with
  | nil => exact ⟨[], rfl, rfl⟩
  | keep c h ih =>
    obtain ⟨b, hb, heq⟩ := ih
    rw [List.takeWhile_cons, List.takeWhile_cons]
    cases p c with
    | true => exact ⟨b, hb, congrArg (c :: ·) heq⟩
    | false => exact ⟨[], rfl, rfl⟩
  | line b hb h ih =>
    refine ⟨b, hb, ?_⟩
    have hall : ∀ d ∈ b, p d := fun d hd => hp d (List.all_eq_true.1 hb d hd)
    rw [List.takeWhile_append_of_pos hall, List.takeWhile_cons, List.takeWhile_cons, hn]
    simp

/-- What is left after a run of characters is padded. A run that goes on over line ends must go on
over the blanks before them. -/
theorem dropWhile (h : Padded t t') (hp : p '\n' → ∀ c, isPad c → p c) :
    Padded (t.dropWhile p) (t'.dropWhile p) := by
  induction h with
  | nil => exact .nil
  | keep c h ih =>
    rw [List.dropWhile_cons, List.dropWhile_cons]
    split_ifs
    · exact ih
    · exact .keep c h
  | @line b t t' hb h ih =>
    by_cases hn : p '\n'
    · have hall : ∀ d ∈ b, p d := fun d hd => hp hn d (List.all_eq_true.1 hb d hd)
      rw [List.dropWhile_append_of_pos hall, List.dropWhile_cons_of_pos hn,
        List.dropWhile_cons_of_pos hn]
      exact ih
    · have hrest : (b.dropWhile p).all isPad :=
        List.all_eq_true.2 fun d hd => List.all_eq_true.1 hb d (List.dropWhile_subset p hd)
      rw [List.dropWhile_append, List.dropWhile_cons_of_neg hn, List.dropWhile_cons_of_neg hn]
      split_ifs
      · exact .keep '\n' h
      · exact .line _ hrest h

end Text.Padded

/-- Blanks at the end do not change a text that is trimmed. -/
theorem Text.trimEnd_append {t b : Text} (hb : b.all isBlank) :
    Text.trimEnd (t ++ b) = Text.trimEnd t := by
  unfold Text.trimEnd
  rw [List.reverse_append, List.dropWhile_append_of_pos]
  exact fun c hc => List.all_eq_true.1 hb c (List.mem_reverse.1 hc)

/-- The blanks that are added are blank. -/
theorem all_isBlank {b : Text} (hb : b.all isPad) : b.all isBlank := by
  refine List.all_eq_true.2 fun c hc => ?_
  rcases isPad_cases (List.all_eq_true.1 hb c hc) with rfl | rfl | rfl <;> rfl

/-! ## Lexemes -/

/-- The lexeme without the blanks at the end of a field, and without the text of a comment or of a
space in the lyrics. -/
def Lexeme.plain : Lexeme → Lexeme
  | comment _ => comment []
  | keyField t => keyField (Text.trimEnd t)
  | field t => field (Text.trimEnd t)
  | voiceField t => voiceField (Text.trimEnd t)
  | lyric .space _ => lyric .space [' ']
  | l => l

/-- Both are lexemes that are plainly the same, or both are blanks. -/
def Recognised.Alike : Recognised → Recognised → Prop
  | lexeme l own next, lexeme l' own' next' => l.plain = l'.plain ∧ own = own' ∧ next = next'
  | blanks _, blanks _ => True
  | _, _ => False

/-- The same is found at the front of a text and of the padded text, and what is left is padded. -/
def Recognised.Agree (t t' : Text) (f f' : Recognised) : Prop :=
  f.Alike f' ∧ ∃ s s' : Text, t = f.text ++ s ∧ t' = f'.text ++ s' ∧ s.Padded s'

/-- What is found is alike itself. -/
theorem Recognised.Alike.refl (f : Recognised) : f.Alike f := by
  cases f with
  | lexeme l own next => exact ⟨rfl, rfl, rfl⟩
  | blanks b => trivial

namespace Rule

/-- The rule recognises the same at the front of a text and of the padded text. -/
def Steady (rule : Rule) : Prop :=
  ∀ (c : CodePoint) (t t' : Text), t.Padded t' →
    Option.Rel (Recognised.Agree (c :: t) (c :: t')) (rule (c :: t)) (rule (c :: t'))

variable {r own next : Region} {l : Lexeme} {p : CodePoint → Bool}

/-- A rule for words is steady when it finds the same words. -/
theorem steady_of_eq {rule : Rule}
    (heq : ∀ (c : CodePoint) (t t' : Text), t.Padded t' → rule (c :: t') = rule (c :: t))
    (hfound : ∀ (t : Text), ∀ f ∈ rule t, f.text ≠ [] ∧ f.text <+: t ∧ f.text.tail.all isSolid) :
    Steady rule := by
  intro c t t' h
  rw [heq c t t' h]
  cases hrule : rule (c :: t) with
  | none => exact .none
  | some f =>
    obtain ⟨hne, hprefix, hsolid⟩ := hfound (c :: t) f hrule
    obtain ⟨d, w, hf⟩ := List.exists_cons_of_ne_nil hne
    rw [hf] at hprefix hsolid
    rw [List.tail_cons] at hsolid
    obtain ⟨rfl, s, rfl⟩ := List.cons_prefix_cons.1 hprefix
    obtain ⟨s', rfl, hs⟩ := h.append_left hsolid
    exact .some ⟨.refl f, s, s', by rw [hf, List.cons_append], by rw [hf, List.cons_append], hs⟩

/-- A spelling without blanks after its first character. -/
theorem spelled_steady (hne : l.text ≠ []) (hl : l.text.tail.all isSolid) :
    Steady (spelled l own next) := by
  refine steady_of_eq (fun c t t' h => ?_) fun t f hf => ?_
  · obtain ⟨d, w, hd⟩ := List.exists_cons_of_ne_nil hne
    rw [hd, List.tail_cons] at hl
    unfold spelled
    rw [hd, List.isPrefixOf_cons_cons, List.isPrefixOf_cons_cons, h.isPrefixOf hl]
  · unfold spelled at hf
    split_ifs at hf with hprefix
    · cases hf
      exact ⟨hne, List.isPrefixOf_iff_prefix.1 hprefix, hl⟩
    · cases hf

/-- A run of characters within a line. -/
theorem many_steady {found : Text → Recognised} (hp : ∀ c, p c → isSolid c)
    (hfound : ∀ t, (found t).text = t) : Steady (many p found) := by
  refine steady_of_eq (fun c t t' h => ?_) fun t f hf => ?_
  · unfold many
    rw [List.takeWhile_cons, List.takeWhile_cons, h.takeWhile hp]
  · obtain ⟨hne, rfl⟩ := many_eq_some hf
    rw [hfound]
    refine ⟨hne, List.takeWhile_prefix p, List.all_eq_true.2 fun d hd => hp d ?_⟩
    exact List.mem_takeWhile_imp (List.mem_of_mem_tail hd)

/-- A run of blanks, with the blanks that were added to it. -/
theorem many_blanks_steady {found : Text → Recognised}
    (hp : p '\n' → ∀ c, isPad c → p c) (hfound : ∀ t, (found t).text = t)
    (halike : ∀ b b', (found b).Alike (found b')) : Steady (many p found) := by
  intro c t t' h
  unfold many
  rw [List.takeWhile_cons, List.takeWhile_cons]
  split_ifs with hc
  · refine .some ⟨halike _ _, t.dropWhile p, t'.dropWhile p, ?_, ?_, h.dropWhile hp⟩
    · rw [hfound, List.cons_append, List.takeWhile_append_dropWhile]
    · rw [hfound, List.cons_append, List.takeWhile_append_dropWhile]
  · exact .none

/-- A text without a colon after its first character is no key field. -/
theorem keyField_eq_none {c : CodePoint} {t : Text} (ht : ∀ rest, t ≠ (':' : CodePoint) :: rest) :
    keyField (c :: t) = none := by
  unfold keyField
  split
  next rest heq =>
    cases heq
    exact absurd rfl (ht rest)
  next => rfl

/-- The value of a field in a text and in the padded text. -/
theorem inField_padded {rest rest' : Text} (h : rest.Padded rest') :
    (∃ b : Text, b.all isBlank ∧ rest'.takeWhile inField = rest.takeWhile inField ++ b) ∧
      Text.Padded (rest.dropWhile inField) (rest'.dropWhile inField) := by
  obtain ⟨b, hb, hvalue⟩ := h.takeWhile_append (p := inField) (by decide) fun c hc => by
    rcases isPad_cases hc with rfl | rfl | rfl <;> rfl
  exact ⟨⟨b, all_isBlank hb, hvalue⟩, h.dropWhile (p := inField) nofun⟩

/-- A field, which may end with blanks. -/
theorem field_steady {label : Text → Lexeme} (htext : ∀ t, (label t).text = t)
    (hplain : ∀ t b : Text, b.all isBlank → (label t).plain = (label (t ++ b)).plain) :
    Steady (field p label r) := by
  intro c t t' h
  by_cases hcolon : ∃ rest, t = (':' : CodePoint) :: rest
  · obtain ⟨rest, rfl⟩ := hcolon
    obtain ⟨rest', rfl, hrest⟩ := h.cons_left rfl
    obtain ⟨⟨b, hb, hvalue⟩, hleft⟩ := inField_padded hrest
    have hfield (x : Text) : field p label r (c :: ':' :: x) = if p c then
        some (.lexeme (label (c :: ':' :: x.takeWhile inField)) r r) else none := rfl
    rw [hfield, hfield]
    split_ifs
    · refine .some ⟨⟨?_, rfl, rfl⟩, rest.dropWhile inField, rest'.dropWhile inField, ?_, ?_, hleft⟩
      · rw [hvalue]
        exact hplain (c :: ':' :: rest.takeWhile inField) b hb
      · rw [Recognised.text, htext, List.cons_append, List.cons_append,
          List.takeWhile_append_dropWhile]
      · rw [Recognised.text, htext, List.cons_append, List.cons_append,
          List.takeWhile_append_dropWhile]
    · exact .none
  · have hcolon' : ∀ rest, t' ≠ (':' : CodePoint) :: rest := by
      rintro rest rfl
      obtain ⟨s, rfl, -⟩ := h.cons_right rfl
      exact hcolon ⟨s, rfl⟩
    rw [field_eq_none fun rest hrest => hcolon ⟨rest, hrest⟩, field_eq_none hcolon']
    exact .none

/-- A comment, which may end with blanks. -/
theorem comment_steady : Steady (comment r) := by
  intro c t t' h
  by_cases hc : c = '%'
  · subst hc
    refine .some ⟨⟨rfl, rfl, rfl⟩, t.dropWhile Text.inLine, t'.dropWhile Text.inLine, ?_, ?_,
      h.dropWhile (p := Text.inLine) nofun⟩
    · exact congrArg (_ :: ·) List.takeWhile_append_dropWhile.symm
    · exact congrArg (_ :: ·) List.takeWhile_append_dropWhile.symm
  · rw [comment_cons hc, comment_cons hc]
    exact .none

/-- The key field that is found, with the line end that comes next. -/
theorem keyField_written (x : Text) : keyField (Field.written 'K' x) =
    some (.lexeme
      (.keyField (Field.written 'K' (x.takeWhile inField ++
        if (x.dropWhile inField).take 1 = Text.lineEnd then Text.lineEnd else [])))
      .header .body) := by
  have hrule : keyField (Field.written 'K' x) = some (.lexeme (.keyField ("K:".text ++
      x.takeWhile inField ++ if (x.drop (x.takeWhile inField).length).take 1 = "\n".text then
        (x.drop (x.takeWhile inField).length).take 1 else [])) .header .body) := rfl
  have hdrop : x.drop (x.takeWhile inField).length = x.dropWhile inField :=
    List.append_cancel_left ((List.prefix_iff_eq_append.1 (List.takeWhile_prefix _)).trans
      List.takeWhile_append_dropWhile.symm)
  have hend : "\n".text = Text.lineEnd := rfl
  rw [hrule, hdrop, hend]
  split_ifs with h
  · rw [h, List.append_assoc]
    rfl
  · rw [List.append_assoc]
    rfl

/-- Key fields with values of which the second one has more blanks agree, with what is left after
both. -/
theorem keyField_agree {v b e s s' : Text} (hb : b.all isBlank) (he : e.all isBlank)
    (hs : s.Padded s') :
    Recognised.Agree (Field.written 'K' (v ++ (e ++ s))) (Field.written 'K' (v ++ b ++ (e ++ s')))
      (.lexeme (.keyField (Field.written 'K' (v ++ e))) .header .body)
      (.lexeme (.keyField (Field.written 'K' (v ++ b ++ e))) .header .body) := by
  have hplain (x : Text) (hx : x.all isBlank) :
      Text.trimEnd (Field.written 'K' (v ++ x)) = Text.trimEnd (Field.written 'K' v) :=
    Text.trimEnd_append (t := Field.written 'K' v) hx
  have hbe : (b ++ e).all isBlank := by rw [List.all_append, hb, he]; rfl
  refine ⟨⟨?_, rfl, rfl⟩, s, s', ?_, ?_, hs⟩
  · rw [List.append_assoc, Lexeme.plain, Lexeme.plain, hplain e he, hplain _ hbe]
  · rw [← List.append_assoc]
    rfl
  · rw [← List.append_assoc]
    rfl

/-- Key fields are found alike, also when the value of the second one has more blanks. -/
theorem keyField_padded {rest rest' : Text} (h : rest.Padded rest') :
    Option.Rel (Recognised.Agree (Field.written 'K' rest) (Field.written 'K' rest'))
      (keyField (Field.written 'K' rest)) (keyField (Field.written 'K' rest')) := by
  obtain ⟨⟨b, hb, hvalue⟩, hleft⟩ := inField_padded h
  have hhead := head_dropWhile (p := inField) (t := rest')
  have hsplit := (List.takeWhile_append_dropWhile (p := inField) (l := rest)).symm
  have hsplit' := (List.takeWhile_append_dropWhile (p := inField) (l := rest')).symm
  rw [keyField_written, keyField_written]
  rw [hvalue] at hsplit' ⊢
  generalize rest.takeWhile inField = v at *
  generalize rest.dropWhile inField = y at *
  generalize rest'.dropWhile inField = y' at *
  subst hsplit hsplit'
  -- The line end comes next in both texts, or in neither.
  cases hleft with
  | nil => exact .some (keyField_agree (e := []) hb rfl .nil)
  | keep d hkeep =>
    by_cases hd : d = '\n'
    · subst hd
      exact .some (keyField_agree (e := Text.lineEnd) hb rfl hkeep)
    · have hno (x : Text) : (d :: x).take 1 ≠ Text.lineEnd := by
        intro heq
        cases heq
        exact hd rfl
      rw [if_neg (hno _), if_neg (hno _)]
      exact .some (keyField_agree (e := []) hb rfl (.keep d hkeep))
  | line b' hb' hline =>
    cases b' with
    | nil => exact .some (keyField_agree (e := Text.lineEnd) hb rfl hline)
    | cons d b' =>
      -- The value of the field goes on over blanks.
      rw [List.all_cons, Bool.and_eq_true] at hb'
      have hd := hhead d rfl
      rcases isPad_cases hb'.1 with rfl | rfl | rfl <;> cases hd

/-- The key field, which may end with blanks before its line end. -/
theorem keyField_steady : Steady keyField := by
  intro c t t' h
  by_cases hkey : c = 'K' ∧ ∃ rest, t = (':' : CodePoint) :: rest
  · obtain ⟨rfl, rest, rfl⟩ := hkey
    obtain ⟨rest', rfl, hrest⟩ := h.cons_left rfl
    exact keyField_padded hrest
  · have hnone {x : Text} (hx : ∀ rest, x = (':' : CodePoint) :: rest → c ≠ 'K') :
        keyField (c :: x) = none := by
      by_cases hc : c = 'K'
      · exact keyField_eq_none fun rest hrest => hx rest hrest hc
      · exact keyField_cons hc
    rw [hnone, hnone]
    · exact .none
    · rintro rest rfl rfl
      obtain ⟨s, rfl, -⟩ := h.cons_right rfl
      exact hkey ⟨rfl, s, rfl⟩
    · rintro rest rfl rfl
      exact hkey ⟨rfl, rest, rfl⟩

/-- A note letter. -/
theorem note_steady (hm : ∀ n, r.Takes (.note n) r r) : Steady (note r) := by
  refine steady_of_eq (fun c t t' h => rfl) fun t f hf => ?_
  have hfinds := note_sound hm t f hf
  unfold note at hf
  split at hf
  next c rest =>
    obtain ⟨n, -, rfl⟩ := Option.map_eq_some_iff.1 hf
    exact ⟨hfinds.2.1, hfinds.2.2.1, rfl⟩
  next => cases hf

/-- The octave marks at the front of a padded text are those of the text. -/
theorem front_padded {t t' : Text} (h : t.Padded t') :
    OctaveMark.front t' = OctaveMark.front t := by
  induction h with
  | nil => rfl
  | keep c h ih => rw [OctaveMark.front, OctaveMark.front, ih]
  | line b hb h ih =>
    cases b with
    | nil => rfl
    | cons d b =>
      have hd : OctaveMark.ofChar? d = none := by
        rw [List.all_cons, Bool.and_eq_true] at hb
        rcases isPad_cases hb.1 with rfl | rfl | rfl <;> rfl
      rw [List.cons_append, OctaveMark.front, hd]
      rfl

/-- Octave marks. -/
theorem octave_steady (hm : ∀ marks, r.Takes (.octave marks) r r) : Steady (octave r) := by
  refine steady_of_eq (fun c t t' h => ?_) fun t f hf => ?_
  · unfold octave
    rw [front_padded (.keep c h)]
  · have hfinds := octave_sound hm t f hf
    unfold octave at hf
    dsimp only at hf
    split_ifs at hf
    · cases hf
    · cases hf
      refine ⟨hfinds.2.1, hfinds.2.2.1, ?_⟩
      refine List.all_eq_true.2 fun c hc => ?_
      obtain ⟨mark, -, rfl⟩ := List.mem_map.1 (List.mem_of_mem_tail hc)
      cases mark <;> rfl

/-- The length at the front of a padded text is that of the text. -/
theorem length_padded {t t' : Text} (h : t.Padded t') : length r t' = length r t := by
  have hdigit : ∀ c, isDigit c → isSolid c := isSolid_of_class (by decide)
  have hdrop (x : Text) : x.drop (x.takeWhile isDigit).length = x.dropWhile isDigit :=
    List.append_cancel_left ((List.prefix_iff_eq_append.1 (List.takeWhile_prefix _)).trans
      List.takeWhile_append_dropWhile.symm)
  have hrest : Text.Padded (t.dropWhile isDigit) (t'.dropWhile isDigit) :=
    h.dropWhile (p := isDigit) fun hn => by cases hn
  unfold length
  dsimp only
  rw [hdrop, hdrop, h.takeWhile hdigit]
  generalize t.takeWhile isDigit = num
  generalize t.dropWhile isDigit = x at hrest
  generalize t'.dropWhile isDigit = x' at hrest
  refine congrArg (fun run : Text => if run.isEmpty then none else
    some (Recognised.lexeme (.length run) r r)) ?_
  -- A slash follows the digits of both texts or of neither.
  split
  next den' =>
    obtain ⟨den, rfl, hden⟩ := hrest.cons_right rfl
    split
    next heq =>
      cases heq
      rw [hden.takeWhile hdigit]
    next hno => exact absurd rfl (hno den)
  next hno =>
    split
    next den =>
      obtain ⟨den', rfl, -⟩ := hrest.cons_left rfl
      exact absurd rfl (hno den')
    next => rfl

/-- A length is a word. -/
theorem all_isSolid_of_isLength {t : Text} (h : IsLength t) : t.all isSolid := by
  have hdigit : ∀ c, isDigit c → isSolid c := isSolid_of_class (by decide)
  obtain ⟨-, num, den, hnum, hden, htext⟩ := h
  have hnum' : num.all isSolid :=
    List.all_eq_true.2 fun c hc => hdigit c (List.all_eq_true.1 hnum c hc)
  have hden' : den.all isSolid :=
    List.all_eq_true.2 fun c hc => hdigit c (List.all_eq_true.1 hden c hc)
  rcases htext with rfl | rfl
  · exact hnum'
  · rw [List.all_append, List.all_cons, hnum', hden']
    rfl

/-- A length. -/
theorem length_steady (hm : ∀ t, r.Takes (.length t) r r) : Steady (length r) := by
  refine steady_of_eq (fun c t t' h => length_padded (.keep c h)) fun t f hf => ?_
  have hfinds := length_sound hm t f hf
  obtain ⟨run, rfl⟩ : ∃ run, f = .lexeme (.length run) r r := by
    unfold length at hf
    dsimp only at hf
    split_ifs at hf
    · cases hf
    · cases hf
      exact ⟨_, rfl⟩
  have hsolid := List.all_eq_true.1 (all_isSolid_of_isLength hfinds.1)
  exact ⟨hfinds.2.1, hfinds.2.2.1,
    List.all_eq_true.2 fun c hc => hsolid c (List.mem_of_mem_tail hc)⟩

/-- The rules for the parts of notes and rests. -/
theorem music_steady (hm : ∀ l : Lexeme, l.isMusic → r.Takes l r r) :
    ∀ rule ∈ music r, Steady rule := by
  intro rule h
  unfold music at h
  rcases List.mem_append.1 h with h | h
  · obtain ⟨a, -, rfl⟩ := List.mem_map.1 h
    exact spelled_steady (by cases a <;> exact List.cons_ne_nil _ _) (by cases a <;> decide)
  · simp only [List.mem_cons, List.not_mem_nil, or_false] at h
    rcases h with rfl | rfl | rfl | rfl
    · exact note_steady fun n => hm _ rfl
    · exact octave_steady fun marks => hm _ rfl
    · exact spelled_steady (List.cons_ne_nil _ _) rfl
    · exact length_steady fun t => hm _ rfl

end Rule

namespace Region

variable {r : Region} {t t' : Text}

/-- The rules of each region are steady. -/
theorem rules_steady (r : Region) : ∀ rule ∈ r.rules, Rule.Steady rule := by
  have hplain (t b : Text) (hb : b.all isBlank) : Text.trimEnd t = Text.trimEnd (t ++ b) :=
    (Text.trimEnd_append hb).symm
  intro rule h
  cases r with
  | header =>
    simp only [rules, List.mem_cons, List.not_mem_nil, or_false] at h
    rcases h with rfl | rfl | rfl | rfl
    · exact Rule.keyField_steady
    · exact Rule.field_steady (fun _ => rfl) fun t b hb => congrArg Lexeme.field (hplain t b hb)
    · exact Rule.comment_steady
    · refine Rule.many_blanks_steady (fun _ c hc => ?_) (fun _ => rfl) fun _ _ => trivial
      rcases isPad_cases hc with rfl | rfl | rfl <;> rfl
  | body =>
    simp only [rules, List.mem_append, List.mem_cons, List.not_mem_nil, or_false, List.mem_map] at h
    rcases h with (((h | ⟨b, -, rfl⟩) | rfl) | ⟨size, -, rfl⟩) | h
    · rcases h with rfl | rfl | rfl | rfl | rfl
      · exact Rule.spelled_steady (List.cons_ne_nil _ _) rfl
      · exact Rule.field_steady (fun _ => rfl)
          fun t b hb => congrArg Lexeme.voiceField (hplain t b hb)
      · exact Rule.comment_steady
      · exact Rule.spelled_steady (List.cons_ne_nil _ _) rfl
      · exact Rule.many_blanks_steady (fun hn => by cases hn) (fun _ => rfl) fun _ _ => trivial
    · exact Rule.spelled_steady (by cases b <;> exact List.cons_ne_nil _ _) (by cases b <;> decide)
    · exact Rule.spelled_steady (List.cons_ne_nil _ _) rfl
    · exact Rule.spelled_steady (by cases size <;> exact List.cons_ne_nil _ _)
        (by cases size <;> decide)
    · exact Rule.music_steady (fun _ => music_move (.inl rfl)) rule h
  | chord =>
    simp only [rules, List.mem_append, List.mem_cons, List.not_mem_nil, or_false] at h
    rcases h with (rfl | rfl) | h
    · exact Rule.spelled_steady (List.cons_ne_nil _ _) rfl
    · exact Rule.many_blanks_steady (fun hn => by cases hn) (fun _ => rfl) fun _ _ => trivial
    · exact Rule.music_steady (fun _ => music_move (.inr rfl)) rule h
  | lyric =>
    simp only [rules, List.mem_cons, List.not_mem_nil, or_false] at h
    rcases h with rfl | rfl | rfl | rfl | rfl | rfl | rfl | rfl | rfl | rfl | rfl
    · exact Rule.spelled_steady (List.cons_ne_nil _ _) rfl
    · exact Rule.comment_steady
    · exact Rule.many_blanks_steady (fun hn => by cases hn) (fun _ => rfl)
        fun _ _ => ⟨rfl, rfl, rfl⟩
    all_goals first
      | exact Rule.spelled_steady (List.cons_ne_nil _ _) rfl
      | exact Rule.many_steady (isSolid_of_class (by decide)) fun _ => rfl

/-- A region recognises the same at the front of a text and of the padded text. -/
theorem recognise_padded (r : Region) (c : CodePoint) (h : t.Padded t') :
    Option.Rel (Recognised.Agree (c :: t) (c :: t')) (r.recognise (c :: t))
      (r.recognise (c :: t')) := by
  have hsteady := rules_steady r
  unfold recognise
  generalize r.rules = rules at hsteady ⊢
  induction rules with
  | nil => exact .none
  | cons rule rules ih =>
    obtain ⟨hrule, hrules⟩ := List.forall_mem_cons.1 hsteady
    rw [List.findSome?_cons, List.findSome?_cons]
    have hagree := hrule c t t' h
    generalize rule (c :: t) = found at hagree
    generalize rule (c :: t') = found' at hagree
    cases hagree with
    | none => exact ih hrules
    | some hagree => exact .some hagree

/-- A region recognises something in front of a text or in front of neither. -/
theorem recognise_padded_isSome (r : Region) (c : CodePoint) (h : t.Padded t') :
    (r.recognise (c :: t')).isSome = (r.recognise (c :: t)).isSome := by
  have hagree := recognise_padded r c h
  generalize r.recognise (c :: t) = found at hagree
  generalize r.recognise (c :: t') = found' at hagree
  cases hagree <;> rfl

/-- The region that reads on is the same in the padded text. -/
theorem current_padded (r : Region) (c : CodePoint) (h : t.Padded t') :
    r.current (c :: t') = r.current (c :: t) := by
  have hsome := recognise_padded_isSome r c h
  unfold current
  rw [← Option.not_isSome, ← Option.not_isSome, hsome]

/-- Outside chords and lyrics the blanks that are added are passed over. -/
theorem recognise_padding (hr : r = .header ∨ r = .body) {c : CodePoint} (hc : isPad c)
    (t : Text) : ∃ b, r.recognise (c :: t) = some (.blanks b) := by
  rcases hr with rfl | rfl
  · refine ⟨_, recognise_header_blank c t ?_⟩
    rcases isPad_cases hc with rfl | rfl | rfl <;> rfl
  · exact ⟨_, recognise_body_blank c t hc⟩

/-- Outside chords and lyrics a line end is recognised. -/
theorem recognise_lineEnd (hr : r = .header ∨ r = .body) (t : Text) :
    (r.recognise ('\n' :: t)).isSome := by
  rcases hr with rfl | rfl
  · rw [recognise_header_blank _ t (by decide)]
    rfl
  · exact congrArg Option.isSome (recognise_newline_body t)

/-- The unknown text at the front of a padded text is that of the text. -/
theorem unknown_padded (hr : r = .header ∨ r = .body) (h : t.Padded t') :
    r.unknown t' = r.unknown t ∧
      ∃ s s' : Text, t = r.unknown t ++ s ∧ t' = r.unknown t ++ s' ∧ s.Padded s' := by
  induction h with
  | nil => exact ⟨rfl, [], [], rfl, rfl, .nil⟩
  | @keep c t t' h ih =>
    rw [unknown, unknown, recognise_padded_isSome r c h]
    split_ifs
    · exact ⟨rfl, _, _, rfl, rfl, .keep c h⟩
    · obtain ⟨heq, s, s', hs, hs', hrest⟩ := ih
      refine ⟨congrArg (c :: ·) heq, s, s', ?_, ?_, hrest⟩
      · exact congrArg (c :: ·) hs
      · exact congrArg (c :: ·) hs'
  | @line b t t' hb h ih =>
    have hempty : r.unknown ('\n' :: t) = [] := by
      rw [unknown, if_pos (recognise_lineEnd hr t)]
    have hempty' : r.unknown (b ++ ('\n' : CodePoint) :: t') = [] := by
      cases b with
      | nil => rw [List.nil_append, unknown, if_pos (recognise_lineEnd hr t')]
      | cons d b =>
        rw [List.all_cons, Bool.and_eq_true] at hb
        obtain ⟨found, hfound⟩ := recognise_padding hr hb.1 (b ++ ('\n' : CodePoint) :: t')
        rw [List.cons_append, unknown, hfound]
        rfl
    rw [hempty, hempty']
    exact ⟨rfl, _, _, rfl, rfl, .line b hb h⟩

/-- What is read at the front of a padded text is what is read at the front of the text. -/
theorem next_padded (r : Region) (c : CodePoint) (h : t.Padded t') :
    Recognised.Agree (c :: t) (c :: t') ((r.current (c :: t)).next (c :: t))
      ((r.current (c :: t)).next (c :: t')) := by
  have hagree := recognise_padded (r.current (c :: t)) c h
  have hchord := current_ne_chord (r := r) (t := c :: t)
  generalize r.current (c :: t) = cur at hagree hchord ⊢
  unfold next
  generalize cur.recognise (c :: t) = found at hagree hchord ⊢
  generalize cur.recognise (c :: t') = found' at hagree ⊢
  cases hagree with
  | some hagree => exact hagree
  | none =>
    dsimp only
    by_cases hlyric : cur = .lyric
    · rw [if_pos hlyric, if_pos hlyric]
      exact ⟨trivial, t, t', rfl, rfl, h⟩
    · rw [if_neg hlyric, if_neg hlyric]
      have hr : cur = .header ∨ cur = .body := by
        have hno := hchord rfl
        cases cur <;> simp_all
      obtain ⟨heq, s, s', hs, hs', hrest⟩ := unknown_padded hr (.keep c h)
      rw [heq]
      exact ⟨⟨rfl, rfl, rfl⟩, s, s', hs, hs', hrest⟩

end Region

/-! ## Spaces at the ends of lines -/

/-- Two lists are alike, entry by entry, except that if `added` holds the second one may have more
spaces, each in front of an end. -/
inductive Spread {α : Type} (added : Prop) (like : α → α → Prop) (isSpace isEnd : α → Bool) :
    List α → List α → Prop
  | nil : Spread added like isSpace isEnd [] []
  | cons {a b : α} {as bs : List α} (hlike : like a b) (h : Spread added like isSpace isEnd as bs) :
      Spread added like isSpace isEnd (a :: as) (b :: bs)
  | space {b : α} {as bs : List α} (hadded : added) (hb : isSpace b)
      (hend : as.head?.any isEnd) (h : Spread added like isSpace isEnd as bs) :
      Spread added like isSpace isEnd as (b :: bs)

namespace Spread

variable {α β : Type} {added : Prop} {like : α → α → Prop} {isSpace isEnd : α → Bool}
  {as bs cs ds : List α}

/-- Lists that are alike are both empty or both not. -/
theorem isEmpty_eq (h : Spread added like isSpace isEnd as bs) : as.isEmpty = bs.isEmpty := by
  cases h with
  | nil => rfl
  | cons hlike h => rfl
  | space hadded hb hend h =>
    cases as with
    | nil => cases hend
    | cons a as => rfl

/-- Lists that are alike one after the other. -/
theorem append (h : Spread added like isSpace isEnd as bs)
    (h' : Spread added like isSpace isEnd cs ds) :
    Spread added like isSpace isEnd (as ++ cs) (bs ++ ds) := by
  induction h with
  | nil => exact h'
  | cons hlike h ih => exact .cons hlike ih
  | @space b as bs hadded hb hend h ih =>
    refine .space hadded hb ?_ ih
    cases as with
    | nil => cases hend
    | cons a as => exact hend

/-- Lists that are alike entry by entry. -/
theorem of_forall₂ (h : List.Forall₂ like as bs) : Spread added like isSpace isEnd as bs := by
  induction h with
  | nil => exact .nil
  | cons hab _ ih => exact .cons hab ih

/-- Lists without ends are alike entry by entry. -/
theorem forall₂ (h : Spread added like isSpace isEnd as bs) (hend : ∀ a ∈ as, isEnd a = false) :
    List.Forall₂ like as bs := by
  induction h with
  | nil => exact .nil
  | cons hlike h ih => exact .cons hlike (ih (List.forall_mem_cons.1 hend).2)
  | @space b as bs hadded hb hhead h ih =>
    cases as with
    | nil => cases hhead
    | cons a as =>
      have ha := hend a List.mem_cons_self
      rw [List.head?_cons, Option.any_some, ha] at hhead
      cases hhead

/-- Lists to which nothing is added are alike entry by entry. -/
theorem forall₂_of_not (h : Spread added like isSpace isEnd as bs) (hadded : ¬added) :
    List.Forall₂ like as bs := by
  induction h with
  | nil => exact .nil
  | cons hlike h ih => exact .cons hlike ih
  | space hyes => exact absurd hyes hadded

/-- Nothing is added when there are as many spaces as before. -/
theorem of_countP (h : Spread added like isSpace isEnd as bs)
    (hlike : ∀ a b, like a b → isSpace a = isSpace b) :
    as.countP isSpace ≤ bs.countP isSpace ∧
      (bs.countP isSpace = as.countP isSpace → Spread False like isSpace isEnd as bs) := by
  induction h with
  | nil => exact ⟨le_refl _, fun _ => .nil⟩
  | @cons a b as bs hab h ih =>
    obtain ⟨hle, hsame⟩ := ih
    rw [List.countP_cons, List.countP_cons, hlike a b hab]
    exact ⟨Nat.add_le_add_right hle _, fun heq => .cons hab (hsame (by omega))⟩
  | @space b as bs hadded hb hend h ih =>
    obtain ⟨hle, -⟩ := ih
    rw [List.countP_cons_of_pos hb]
    exact ⟨by omega, fun heq => by omega⟩

/-- The last entries of lists that are alike have the same property, when likeness keeps it. -/
theorem getLast?_any {q : α → Bool} (h : Spread added like isSpace isEnd as bs)
    (hq : ∀ a b, like a b → q a = q b) : as.getLast?.any q = bs.getLast?.any q := by
  induction h with
  | nil => rfl
  | @cons a b as bs hab h ih =>
    have hempty := h.isEmpty_eq
    cases as with
    | nil =>
      rw [List.isEmpty_iff.1 hempty.symm]
      exact hq a b hab
    | cons c as =>
      cases bs with
      | nil => cases hempty
      | cons d bs => rw [List.getLast?_cons_cons, List.getLast?_cons_cons, ih]
  | @space b as bs hadded hb hhead h ih =>
    have hempty := h.isEmpty_eq
    cases as with
    | nil => cases hhead
    | cons c as =>
      cases bs with
      | nil => cases hempty
      | cons d bs => rw [ih, List.getLast?_cons_cons]

/-- The front of lists that are alike, up to the first entry without a property that neither spaces
nor ends have, and what comes after it. -/
theorem takeWhile_dropWhile {q : α → Bool} (h : Spread added like isSpace isEnd as bs)
    (hq : ∀ a b, like a b → q a = q b) (hspace : ∀ b, isSpace b → q b = false)
    (hend : ∀ a, isEnd a → q a = false) :
    List.Forall₂ like (as.takeWhile q) (bs.takeWhile q) ∧
      Spread added like isSpace isEnd (as.dropWhile q) (bs.dropWhile q) := by
  induction h with
  | nil => exact ⟨.nil, .nil⟩
  | @cons a b as bs hab h ih =>
    rw [List.takeWhile_cons, List.takeWhile_cons, List.dropWhile_cons, List.dropWhile_cons,
      hq a b hab]
    split_ifs
    · exact ⟨.cons hab ih.1, ih.2⟩
    · exact ⟨.nil, .cons hab h⟩
  | @space b as bs hadded hb hhead h ih =>
    cases as with
    | nil => cases hhead
    | cons a as =>
      rw [List.takeWhile_cons, List.takeWhile_cons, List.dropWhile_cons, List.dropWhile_cons,
        hspace b hb, hend a hhead]
      exact ⟨.nil, .space hadded hb hhead h⟩

/-- A function that keeps likeness, spaces and ends. -/
theorem filterMap {like' : β → β → Prop} {isSpace' isEnd' : β → Bool} {f : α → Option β}
    (hlike : ∀ a b, like a b → Option.Rel like' (f a) (f b))
    (hspace : ∀ b, isSpace b → ∃ b', f b = some b' ∧ isSpace' b')
    (hend : ∀ a, isEnd a → ∃ a', f a = some a' ∧ isEnd' a')
    (h : Spread added like isSpace isEnd as bs) :
    Spread added like' isSpace' isEnd' (as.filterMap f) (bs.filterMap f) := by
  induction h with
  | nil => exact .nil
  | @cons a b as bs hab h ih =>
    have hrel := hlike a b hab
    rw [List.filterMap_cons, List.filterMap_cons]
    generalize f a = x at hrel
    generalize f b = y at hrel
    cases hrel with
    | some hrel => exact .cons hrel ih
    | none => exact ih
  | @space b as bs hadded hb hhead h ih =>
    obtain ⟨b', hb', hspace'⟩ := hspace b hb
    rw [List.filterMap_cons_some hb']
    refine .space hadded hspace' ?_ ih
    cases as with
    | nil => cases hhead
    | cons a as =>
      obtain ⟨a', ha', hend'⟩ := hend a hhead
      rw [List.filterMap_cons_some ha']
      exact hend'

end Spread

/-! ## Tokens -/

namespace Token

/-- Tokens of the same region that are plainly the same. -/
def Like (k k' : Token) : Prop :=
  k.lexeme.plain = k'.lexeme.plain ∧ k.region = k'.region

/-- The token is the line end of a line of lyrics. -/
def endsLyrics (k : Token) : Bool :=
  k.region = .lyric && k.lexeme = .newline

/-- The token is a space in a line of lyrics. -/
def isLyricSpace (k : Token) : Bool :=
  match k.lexeme with
  | .lyric .space _ => k.region = .lyric
  | _ => false

/-- The tokens of a text and of the padded text. -/
def Spread (added : Prop) (ts ts' : List Token) : Prop :=
  SingAlong.Spread added Like isLyricSpace endsLyrics ts ts'

end Token

section Blanks

variable {r : Region} {p : CodePoint → Bool}
  (hp : ∀ c t, p c → r.recognise (c :: t) = some (.blanks ((c :: t).takeWhile p)))
include hp

/-- A region that skips blanks of a class passes over all of them at the front. -/
theorem tokensFrom_dropWhile (pos : Nat) (t : Text) :
    tokensFrom r pos 0 t = tokensFrom r (pos + (t.takeWhile p).length) 0 (t.dropWhile p) := by
  cases t with
  | nil => rfl
  | cons c t =>
    by_cases hc : p c
    · have hrun := hp c t hc
      have hne : (c :: t).takeWhile p ≠ [] := by
        rw [List.takeWhile_cons_of_pos hc]
        exact List.cons_ne_nil _ _
      have ht := List.takeWhile_append_dropWhile (p := p) (l := c :: t)
      generalize (c :: t).takeWhile p = b at *
      generalize (c :: t).dropWhile p = rest at *
      rw [← ht] at hrun ⊢
      rw [tokensFrom_blanks (by rw [Region.current_of_recognise hrun,
        Region.next_of_recognise hrun]) hne, Region.current_of_recognise hrun]
    · rw [List.dropWhile_cons_of_neg hc, List.takeWhile_cons_of_neg hc]
      rfl

/-- Blanks of the class at the front are passed over. -/
theorem tokensFrom_append_blanks (pos : Nat) {b : Text} (hb : b.all p) (t : Text) :
    tokensFrom r pos 0 (b ++ t) = tokensFrom r (pos + b.length) 0 t := by
  have hall := List.all_eq_true.1 hb
  rw [tokensFrom_dropWhile hp, tokensFrom_dropWhile hp _ t, List.takeWhile_append_of_pos hall,
    List.dropWhile_append_of_pos hall, List.length_append, Nat.add_assoc]

end Blanks

/-- Where a chord recognises nothing, the body reads on. -/
theorem tokensFrom_chord {c : CodePoint} {t : Text} (h : Region.chord.recognise (c :: t) = none)
    (pos : Nat) : tokensFrom .chord pos 0 (c :: t) = tokensFrom .body pos 0 (c :: t) := by
  have hcurrent : Region.chord.current (c :: t) = .body := by
    rw [Region.current, h]
    rfl
  rw [tokensFrom, tokensFrom, hcurrent]
  rfl

/-- A chord recognises neither a line end nor a carriage return. -/
theorem recognise_chord_none {c : CodePoint} (hc : c = '\n' ∨ c = '\r') (t : Text) :
    Region.chord.recognise (c :: t) = none := by
  rcases hc with rfl | rfl <;> rfl

/-- What stands at the front of a text at the end of a line of the header or the body is read after
the blanks that are added. -/
theorem tokensFrom_padding {r : Region} (hr : r = .header ∨ r = .body) (pos : Nat) {b : Text}
    (hb : b.all isPad) (t : Text) :
    tokensFrom r pos 0 (b ++ t) = tokensFrom r (pos + b.length) 0 t := by
  rcases hr with rfl | rfl
  · exact tokensFrom_append_blanks Region.recognise_header_blank pos (all_isBlank hb) t
  · exact tokensFrom_append_blanks Region.recognise_body_blank pos hb t

/-- A chord passes over spaces and tabs. -/
theorem recognise_chord_blank (c : CodePoint) (t : Text) (hc : c == ' ' || c == '\t') :
    Region.chord.recognise (c :: t) =
      some (.blanks ((c :: t).takeWhile fun c => c == ' ' || c == '\t')) := by
  have hcases : c = ' ' ∨ c = '\t' := by simpa using hc
  rcases hcases with rfl | rfl <;> rfl

/-- The blanks that are added are spaces and tabs as far as the first carriage return. -/
theorem exists_return {b : Text} (hb : b.all isPad) : ∃ skipped rest : Text, b = skipped ++ rest ∧
    (skipped.all fun c => c == ' ' || c == '\t') ∧ ∀ c ∈ rest.head?, c = '\r' := by
  induction b with
  | nil => exact ⟨[], [], rfl, rfl, nofun⟩
  | cons c b ih =>
    rw [List.all_cons, Bool.and_eq_true] at hb
    obtain ⟨skipped, rest, rfl, hskipped, hrest⟩ := ih hb.2
    rcases isPad_cases hb.1 with rfl | rfl | rfl
    · exact ⟨' ' :: skipped, rest, rfl, hskipped, hrest⟩
    · exact ⟨'\t' :: skipped, rest, rfl, hskipped, hrest⟩
    · refine ⟨[], '\r' :: (skipped ++ rest), rfl, rfl, fun c hc => ?_⟩
      rw [List.head?_cons, Option.mem_some_iff] at hc
      exact hc.symm

/-- A chord that does not end before its line does is read on as the body, also after the blanks
that are added. -/
theorem tokensFrom_chord_padding (pos : Nat) {b : Text} (hb : b.all isPad) (t : Text) :
    tokensFrom .chord pos 0 (b ++ ('\n' : CodePoint) :: t) =
      tokensFrom .body (pos + b.length) 0 (('\n' : CodePoint) :: t) := by
  obtain ⟨skipped, rest, rfl, hskipped, hhead⟩ := exists_return hb
  rw [List.all_append, Bool.and_eq_true] at hb
  rw [List.append_assoc, tokensFrom_append_blanks recognise_chord_blank pos hskipped,
    List.length_append, ← Nat.add_assoc, ← tokensFrom_padding (.inr rfl) _ hb.2]
  -- The chord ends at the line end or at a carriage return.
  cases rest with
  | nil => exact tokensFrom_chord (recognise_chord_none (.inl rfl) t) _
  | cons c rest => exact tokensFrom_chord (recognise_chord_none (.inr (hhead c rfl)) _) _

/-- Blanks that are added at the end of a line of lyrics are a space of their own. -/
theorem tokensFrom_lyric_padding (pos : Nat) {b : Text} (hne : b ≠ []) (hb : b.all isPad)
    (t : Text) : tokensFrom .lyric pos 0 (b ++ ('\n' : CodePoint) :: t) =
      ⟨pos, .lyric .space b, .lyric⟩ ::
        tokensFrom .lyric (pos + b.length) 0 (('\n' : CodePoint) :: t) := by
  have hrec : Region.lyric.recognise (b ++ ('\n' : CodePoint) :: t) =
      some (.lexeme (.lyric .space b) .lyric .lyric) := by
    have hrun : (b ++ ('\n' : CodePoint) :: t).takeWhile isPad = b := by
      rw [List.takeWhile_append_of_pos (List.all_eq_true.1 hb)]
      exact List.append_nil b
    have hspace {c : CodePoint} (hc : isPad c) (x : Text) : Region.lyric.recognise (c :: x) =
        some (.lexeme (.lyric .space ((c :: x).takeWhile isPad)) .lyric .lyric) := by
      rcases isPad_cases hc with rfl | rfl | rfl <;> rfl
    obtain ⟨c, b, rfl⟩ := List.exists_cons_of_ne_nil hne
    rw [List.all_cons, Bool.and_eq_true] at hb
    rw [List.cons_append] at hrun ⊢
    rw [hspace hb.1, hrun]
  exact tokensFrom_recognised (l := .lyric .space b) hne hrec

/-- What is found at the front of a text and of the padded text makes tokens that are alike, when
what is left after it does. -/
theorem tokensFrom_found {c : CodePoint} {t t' : Text} (h : t.Padded t')
    (ih : ∀ s s' : Text, s.length ≤ t.length → s.Padded s' → ∀ r pos pos',
      Token.Spread True (tokensFrom r pos 0 s) (tokensFrom r pos' 0 s')) (r : Region)
    (pos pos' : Nat) :
    Token.Spread True (tokensFrom r pos 0 (c :: t)) (tokensFrom r pos' 0 (c :: t')) := by
  have hagree := Region.next_padded r c h
  have hcurrent := Region.current_padded r c h
  have hfinds := Region.next_finds (r := r.current (c :: t)) (List.cons_ne_nil c t)
  have hfinds' := Region.next_finds (r := r.current (c :: t)) (List.cons_ne_nil c t')
  generalize hnext : (r.current (c :: t)).next (c :: t) = f at hagree hfinds
  generalize hnext' : (r.current (c :: t)).next (c :: t') = f' at hagree hfinds'
  obtain ⟨halike, s, s', hs, hs', hrest⟩ := hagree
  have hlength := congrArg List.length hs
  rw [List.length_cons, List.length_append] at hlength
  rw [← hcurrent] at hnext'
  cases f with
  | lexeme l own next =>
    cases f' with
    | blanks b => cases halike
    | lexeme l' own' next' =>
      obtain ⟨hplain, rfl, rfl⟩ := halike
      rw [Recognised.text] at hs hs' hlength
      have hpos := List.length_pos_iff.2 hfinds.2.1
      have hle : s.length ≤ t.length := by omega
      rw [hs] at hnext ⊢
      rw [hs'] at hnext' ⊢
      rw [tokensFrom_lexeme hnext hfinds.2.1, tokensFrom_lexeme hnext' hfinds'.2.1]
      exact .cons ⟨hplain, rfl⟩ (ih s s' hle hrest _ _ _)
  | blanks b =>
    cases f' with
    | lexeme l' own' next' => cases halike
    | blanks b' =>
      rw [Recognised.text] at hs hs' hlength
      have hpos := List.length_pos_iff.2 hfinds.1
      have hle : s.length ≤ t.length := by omega
      rw [hs] at hnext hcurrent ⊢
      rw [hs'] at hnext' hcurrent ⊢
      rw [tokensFrom_blanks hnext hfinds.1, tokensFrom_blanks hnext' hfinds'.1, hcurrent]
      exact ih s s' hle hrest _ _ _

/-- The tokens of a padded text are those of the text, but for spaces at the ends of lines of
lyrics. -/
theorem tokensFrom_padded {t t' : Text} (h : t.Padded t') (r : Region) (pos pos' : Nat) :
    Token.Spread True (tokensFrom r pos 0 t) (tokensFrom r pos' 0 t') := by
  -- The induction is on the length of the text: what is found at its front is not empty.
  induction hn : t.length using Nat.strong_induction_on generalizing r pos pos' t t' with
  | h n ih =>
    have hfound (c : CodePoint) {t t' : Text} (h : t.Padded t') (hlt : t.length < n) (r : Region)
        (pos pos' : Nat) :
        Token.Spread True (tokensFrom r pos 0 (c :: t)) (tokensFrom r pos' 0 (c :: t')) :=
      tokensFrom_found h (fun s s' hle hs r pos pos' =>
        ih s.length (Nat.lt_of_le_of_lt hle hlt) hs r pos pos' rfl) r pos pos'
    cases h with
    | nil => exact .nil
    | keep c h => exact hfound c h (hn ▸ Nat.lt_succ_self _) r pos pos'
    | @line b t t' hb h =>
      have hlt : t.length < n := hn ▸ Nat.lt_succ_self _
      cases r with
      | header =>
        rw [tokensFrom_padding (.inl rfl) pos' hb]
        exact hfound '\n' h hlt _ _ _
      | body =>
        rw [tokensFrom_padding (.inr rfl) pos' hb]
        exact hfound '\n' h hlt _ _ _
      | chord =>
        rw [tokensFrom_chord_padding pos' hb, tokensFrom_chord (recognise_chord_none (.inl rfl) t)]
        exact hfound '\n' h hlt _ _ _
      | lyric =>
        by_cases hne : b = []
        · subst hne
          exact hfound '\n' h hlt _ _ _
        · rw [tokensFrom_lyric_padding pos' hne hb]
          refine .space trivial rfl ?_ (hfound '\n' h hlt _ _ _)
          rw [show (_ :: t) = Text.lineEnd ++ t from rfl, tokensFrom_newline_lyric]
          rfl

end SingAlong
