import SingAlong.Proofs.Padding

/-!
# The lexemes of a text without its comments

`Text.uncommented` deletes the comments of a text: a percent sign and what follows it in its line.
After the header this leaves the other lexemes as they are (`lex_uncommented`). In the header one
thing changes as well (`uncommented_header`): a comment after the key field separates it from its
line end, which is then a newline of the body, and without the comment belongs to the key field.

A text is a line end, a comment, or a text within a line, with what follows it (`Text.line_cases`).
A text within a line is read without what follows (`Region.ReadsLocally`), so it is read in the same
way when the comments after it are deleted.
-/

namespace SingAlong

namespace Text

/-! ## Deleting comments -/

/-- The text without its comments, from a character on that belongs to a comment or does not. -/
def uncommentedFrom (inComment : Bool) : Text → Text
  | [] => []
  | c :: t =>
    if c = '\n' then c :: uncommentedFrom false t
    else if inComment || c = '%' then uncommentedFrom true t
    else c :: uncommentedFrom false t

/-- The text with every comment deleted: a percent sign and what follows it, up to but not including
the next newline or up to the end of the text. -/
def uncommented (t : Text) : Text :=
  uncommentedFrom false t

variable {w x u rest : Text}

/-- Nothing is deleted from the empty text. -/
theorem uncommented_nil : uncommented [] = [] :=
  rfl

/-- A line end stays. -/
theorem uncommented_lineEnd (t : Text) :
    uncommented (lineEnd ++ t) = lineEnd ++ uncommented t :=
  rfl

/-- What is in a line before a comment stays. -/
theorem uncommented_append (hx : x.all Rule.inField) (u : Text) :
    uncommented (x ++ u) = x ++ uncommented u := by
  induction x with
  | nil => rfl
  | cons c x ih =>
    rw [List.all_cons, Bool.and_eq_true] at hx
    have hc : c ≠ '\n' ∧ c ≠ '%' := by simpa [Rule.inField] using hx.1
    have hrest := ih hx.2
    unfold uncommented at hrest ⊢
    rw [List.cons_append, uncommentedFrom, if_neg hc.1, hrest]
    simp [hc.2]

/-- A comment is deleted up to the line end. -/
theorem uncommented_commented (hw : w.all inLine) (hrest : ∀ c ∈ rest.head?, c = '\n') :
    uncommented (commented w ++ rest) = uncommented rest := by
  have hinside : uncommentedFrom true (w ++ rest) = uncommented rest := by
    induction w with
    | nil =>
      cases rest with
      | nil => rfl
      | cons c rest =>
        obtain rfl := hrest c rfl
        rfl
    | cons c w ih =>
      rw [List.all_cons, Bool.and_eq_true] at hw
      have hc : c ≠ '\n' := by simpa [inLine] using hw.1
      rw [List.cons_append, uncommentedFrom, if_neg hc]
      exact ih hw.2
  exact hinside

example : "K:C % key\nC D%x\nw: a%b".text.uncommented = "K:C \nC D\nw: a".text := by
  decide

/-- A text with a comment before it is longer. -/
theorem length_lt_commented (w rest : Text) : rest.length < (commented w ++ rest).length := by
  rw [List.length_append]
  exact Nat.lt_add_of_pos_left (Nat.succ_pos w.length)

/-- The end of a line: a line end, a comment up to the line end, or nothing. -/
theorem end_cases {t : Text} (ht : ∀ c ∈ t.head?, Rule.inField c = false) :
    t = [] ∨ (∃ u, t = lineEnd ++ u) ∨
      ∃ w rest : Text, t = commented w ++ rest ∧ w.all inLine ∧ ∀ c ∈ rest.head?, c = '\n' := by
  cases t with
  | nil => exact .inl rfl
  | cons c t =>
    rcases Rule.inField_eq_false (ht c rfl) with rfl | rfl
    · exact .inr (.inl ⟨t, rfl⟩)
    · refine .inr (.inr ⟨t.takeWhile inLine, t.dropWhile inLine, ?_, List.all_takeWhile,
        fun c hc => ?_⟩)
      · exact congrArg (_ :: ·) List.takeWhile_append_dropWhile.symm
      · simpa [inLine] using Rule.head_dropWhile (p := inLine) c hc

/-- A text starts with the end of a line or with a text within the line, which the end follows. -/
theorem line_cases (t : Text) : (∀ c ∈ t.head?, Rule.inField c = false) ∨
    ∃ x u : Text, t = x ++ u ∧ x ≠ [] ∧ x.all Rule.inField ∧
      ∀ c ∈ u.head?, Rule.inField c = false := by
  cases t with
  | nil => exact .inl nofun
  | cons c t =>
    by_cases hc : Rule.inField c
    · refine .inr ⟨_, _, List.takeWhile_append_dropWhile.symm, ?_, List.all_takeWhile,
        Rule.head_dropWhile⟩
      rw [List.takeWhile_cons_of_pos hc]
      exact List.cons_ne_nil _ _
    · rw [Bool.not_eq_true] at hc
      exact .inl fun d hd => by cases hd; exact hc

/-- After the end of a line without its comment comes a line end, or nothing. -/
theorem head_uncommented (hu : ∀ c ∈ u.head?, Rule.inField c = false) :
    ∀ c ∈ (uncommented u).head?, c = '\n' := by
  rcases end_cases hu with rfl | ⟨v, rfl⟩ | ⟨w, rest, rfl, hw, hrest⟩
  · exact nofun
  · rintro c ⟨⟩
    rfl
  · rw [uncommented_commented hw hrest]
    cases rest with
    | nil => exact nofun
    | cons d rest =>
      obtain rfl := hrest d rfl
      rintro c ⟨⟩
      rfl

end Text

/-! ## Texts within a line -/

namespace Region

/-- A text within a line is read in the region without what follows. -/
def ReadsLocally (r : Region) (x : Text) : Prop :=
  ∀ u : Text, (∀ c ∈ u.head?, Rule.inField c = false) →
    r.current (x ++ u) = r.current x ∧ (r.current (x ++ u)).next (x ++ u) = (r.current x).next x

/-- After the header every text within a line is. -/
theorem readsLocally {r : Region} {x : Text} (hr : r ≠ .header) (hne : x ≠ [])
    (hx : x.all Rule.inField) : r.ReadsLocally x :=
  fun _ hu => ⟨current_append hne hx hu hr, next_append hne hx hu hr⟩

/-- The header is not read on as another region. -/
theorem current_header (t : Text) : Region.header.current t = .header :=
  if_neg fun h => nomatch h.1

/-- Only a text that starts like a key field is one, also with what follows its line. -/
theorem keyField_append_eq_none {x u : Text} (hne : x ≠ []) (hkey : ∀ v, x ≠ Field.written 'K' v)
    (hu : ∀ c ∈ u.head?, Rule.inField c = false) : Rule.keyField (x ++ u) = none := by
  obtain ⟨c, y, rfl⟩ := List.exists_cons_of_ne_nil hne
  by_cases hc : c = 'K'
  · subst hc
    refine Rule.keyField_eq_none fun rest hrest => ?_
    cases y with
    | nil => exact Rule.ne_colon hu rest hrest
    | cons d y =>
      obtain ⟨rfl, -⟩ := List.cons.inj hrest
      exact hkey y rfl
  · exact Rule.keyField_cons hc

section

variable {x u : Text} (hne : x ≠ []) (hx : x.all Rule.inField)
  (hu : ∀ c ∈ u.head?, Rule.inField c = false)
include hne hx hu

/-- What starts neither with a blank nor like a key field is recognised in the header without what
follows its line: the rules for these two are not local. -/
theorem recognise_header_append (hblank : ∀ c ∈ x.head?, isBlank c = false)
    (hkey : ∀ v, x ≠ Field.written 'K' v) :
    Region.header.recognise (x ++ u) = Region.header.recognise x := by
  have hkeyField := keyField_append_eq_none hne hkey hu
  have hkeyField' := keyField_append_eq_none (u := []) hne hkey nofun
  have hfield := Rule.field_local (p := isPlainLetter) (r := .header) .field x u hne hx hu
  have hcomment := Rule.comment_local (r := .header) x u hne hx hu
  obtain ⟨c, y, rfl⟩ := List.exists_cons_of_ne_nil hne
  have hskip (t : Text) : Rule.skipping isBlank (c :: t) = none := Rule.many_cons (hblank c rfl)
  rw [List.append_nil] at hkeyField'
  unfold recognise rules
  simp only [List.findSome?_cons]
  rw [hkeyField, hkeyField', hfield, hcomment, hskip, List.cons_append, hskip]
  rfl

/-- What is recognised in the header or not is so without what follows its line. -/
theorem isSome_recognise_header :
    (Region.header.recognise (x ++ u)).isSome = (Region.header.recognise x).isSome := by
  by_cases hkey : ∃ v, x = Field.written 'K' v
  · obtain ⟨v, rfl⟩ := hkey
    rfl
  · obtain ⟨c, y, rfl⟩ := List.exists_cons_of_ne_nil hne
    by_cases hblank : isBlank c
    · rw [List.cons_append, recognise_header_blank c _ hblank, recognise_header_blank c _ hblank]
      rfl
    · rw [recognise_header_append hne hx hu _ fun v hv => hkey ⟨v, hv⟩]
      rintro _ ⟨⟩
      exact Bool.eq_false_iff.2 hblank

end

/-- What starts neither with a blank nor like a key field is read in the header without what follows
its line. -/
theorem readsLocally_header {x : Text} (hne : x ≠ []) (hx : x.all Rule.inField)
    (hblank : ∀ c ∈ x.head?, isBlank c = false) (hkey : ∀ v, x ≠ Field.written 'K' v) :
    Region.header.ReadsLocally x := by
  intro u hu
  have hend (hu' : u ≠ []) : (Region.header.recognise u).isSome := by
    obtain ⟨c, v, rfl⟩ := List.exists_cons_of_ne_nil hu'
    rcases Rule.inField_eq_false (hu c rfl) with rfl | rfl
    · exact recognise_lineEnd (.inl rfl) v
    · exact congrArg Option.isSome (recognise_comment (r := .header) nofun v)
  have hunknown := unknown_append (fun y hy hyx => isSome_recognise_header hy hyx hu) hend hx
  rw [current_header, current_header]
  unfold next
  rw [recognise_header_append hne hx hu hblank hkey, hunknown]
  exact ⟨rfl, rfl⟩

end Region

/-- The first lexeme of a text within a line, or the blanks at its front, with what is left of the
line, whatever follows it. -/
theorem lex_readsLocally {r : Region} {x : Text} (hne : x ≠ []) (h : r.ReadsLocally x) :
    (∃ (l : Lexeme) (own next : Region) (y : Text), x = l.text ++ y ∧
      (r.current x).Finds x (.lexeme l own next) ∧
      ∀ u : Text, (∀ c ∈ u.head?, Rule.inField c = false) →
        lex r (x ++ u) = (l, own) :: lex next (y ++ u)) ∨
    ∃ b y : Text, x = b ++ y ∧ b ≠ [] ∧
      ∀ u : Text, (∀ c ∈ u.head?, Rule.inField c = false) →
        lex r (x ++ u) = lex (r.current x) (y ++ u) := by
  have hfinds := Region.next_finds (r := r.current x) hne
  cases hnext : (r.current x).next x with
  | lexeme l own next =>
    rw [hnext] at hfinds
    obtain ⟨-, hl, ⟨y, rfl⟩, -⟩ := id hfinds
    refine .inl ⟨l, own, next, y, rfl, hfinds, fun u hu => ?_⟩
    have hfound := (h u hu).2
    rw [hnext, List.append_assoc] at hfound
    unfold lex
    rw [List.append_assoc, tokensFrom_lexeme hfound hl, List.map_cons, map_bare_eq_lex]
    rfl
  | blanks b =>
    rw [hnext] at hfinds
    obtain ⟨hb, y, rfl⟩ := hfinds
    refine .inr ⟨b, y, rfl, hb, fun u hu => ?_⟩
    obtain ⟨hcurrent, hfound⟩ := h u hu
    rw [hnext, List.append_assoc] at hfound
    rw [List.append_assoc] at hcurrent
    unfold lex
    rw [List.append_assoc, tokensFrom_blanks hfound hb, hcurrent, map_bare_eq_lex]
    rfl

/-! ## The lexemes other than comments -/

/-- Is it a comment? -/
def Lexeme.isComment : Lexeme → Bool
  | comment _ => true
  | _ => false

/-- A comment has its text. -/
theorem Lexeme.exists_of_isComment {l : Lexeme} (h : l.isComment) : ∃ text, l = .comment text := by
  cases l <;> first | exact ⟨_, rfl⟩ | cases h

/-- Lexemes without the comments among them. -/
def dropComments (es : List (Lexeme × Region)) : List (Lexeme × Region) :=
  es.filter fun e => !e.1.isComment

/-- A lexeme within a line is no comment. -/
theorem Region.Finds.not_comment {r own next : Region} {x : Text} {l : Lexeme}
    (h : r.Finds x (.lexeme l own next)) (hx : x.all Rule.inField) : l.isComment = false := by
  obtain ⟨hl, -, ⟨y, rfl⟩, -⟩ := h
  cases l with
  | comment text =>
    obtain ⟨rest, -, rfl⟩ := hl
    cases hx
  | _ => rfl

/-- At the end of its line a chord is read on as the body. -/
theorem lex_chord_end {u : Text} (hu : ∀ c ∈ u.head?, Rule.inField c = false) :
    lex .chord u = lex .body u := by
  cases u with
  | nil => rfl
  | cons c u =>
    have hnone : Region.chord.recognise (c :: u) = none := by
      rcases Rule.inField_eq_false (hu c rfl) with rfl | rfl <;> rfl
    exact congrArg (List.map Token.bare) (tokensFrom_chord hnone 0)

/-- A newline after the header leads to the body. -/
theorem lex_lineEnd {r : Region} (hr : r = .body ∨ r = .lyric) (u : Text) :
    lex r (Text.lineEnd ++ u) = (.newline, r) :: lex .body u := by
  rcases hr with rfl | rfl
  · exact Score.lex_newline u
  · exact lex_recognised (l := .newline) rfl (List.cons_ne_nil _ _)
      (Region.recognise_newline_lyric u)

/-- At the end of a line the lexemes other than comments stay when comments are deleted, if they do
so after it. -/
theorem lex_uncommented_end {r : Region} {t : Text} (hr : r ≠ .header)
    (ht : ∀ c ∈ t.head?, Rule.inField c = false)
    (ih : ∀ (s : Text) (r : Region), s.length < t.length → r ≠ .header →
      dropComments (lex r s) = lex r s.uncommented) :
    dropComments (lex r t) = lex r t.uncommented := by
  have hline (r : Region) (hr : r = .body ∨ r = .lyric) :
      dropComments (lex r t) = lex r t.uncommented := by
    have hheader : r ≠ .header := by rcases hr with rfl | rfl <;> nofun
    have hchord : r ≠ .chord := by rcases hr with rfl | rfl <;> nofun
    rcases Text.end_cases ht with rfl | ⟨u, rfl⟩ | ⟨w, rest, rfl, hw, hrest⟩
    · rfl
    · have hrest := ih u .body (by simp [Text.lineEnd]) nofun
      rw [Text.uncommented_lineEnd, lex_lineEnd hr, lex_lineEnd hr, ← hrest]
      rfl
    · have hafter := ih rest r (Text.length_lt_commented w rest) hheader
      rw [Text.uncommented_commented hw hrest, ← hafter]
      rw [show lex r (Text.commented w ++ rest) = _ from Score.lex_comment hchord ⟨w, hw⟩ hrest]
      rfl
  cases r with
  | header => exact absurd rfl hr
  | body => exact hline .body (.inl rfl)
  | lyric => exact hline .lyric (.inr rfl)
  | chord =>
    have hend := Text.head_uncommented ht
    rw [lex_chord_end ht, lex_chord_end fun c hc => by rw [hend c hc]; rfl]
    exact hline .body (.inl rfl)

/-- What comes first in a line comes first as well when comments are deleted: a lexeme, or blanks,
with a shorter text after it. -/
theorem lex_line {r : Region} {x u : Text} (hne : x ≠ []) (hx : x.all Rule.inField)
    (hu : ∀ c ∈ u.head?, Rule.inField c = false) (h : r.ReadsLocally x) :
    (∃ (l : Lexeme) (own next : Region) (s : Text), s.length < (x ++ u).length ∧
      (r.current x).Finds x (.lexeme l own next) ∧ lex r (x ++ u) = (l, own) :: lex next s ∧
      lex r (Text.uncommented (x ++ u)) = (l, own) :: lex next s.uncommented) ∨
    ∃ s : Text, s.length < (x ++ u).length ∧ lex r (x ++ u) = lex (r.current x) s ∧
      lex r (Text.uncommented (x ++ u)) = lex (r.current x) s.uncommented := by
  have hu' : ∀ c ∈ u.uncommented.head?, Rule.inField c = false := fun c hc => by
    rw [Text.head_uncommented hu c hc]
    rfl
  have hlt {y z : Text} (hz : z ≠ []) : (y ++ u).length < (z ++ y ++ u).length := by
    have := List.length_pos_iff.2 hz
    simp only [List.length_append]
    omega
  rw [Text.uncommented_append hx]
  rcases lex_readsLocally hne h with ⟨l, own, next, y, rfl, hfinds, hlex⟩ | ⟨b, y, rfl, hb, hlex⟩
  · rw [List.all_append, Bool.and_eq_true] at hx
    refine .inl ⟨l, own, next, y ++ u, hlt hfinds.2.1, hfinds, hlex u hu, ?_⟩
    rw [Text.uncommented_append hx.2, hlex _ hu']
  · rw [List.all_append, Bool.and_eq_true] at hx
    refine .inr ⟨y ++ u, hlt hb, hlex u hu, ?_⟩
    rw [Text.uncommented_append hx.2, hlex _ hu']

/-- After the header the lexemes other than comments are those of the text without its comments. -/
theorem lex_uncommented {r : Region} (hr : r ≠ .header) (t : Text) :
    dropComments (lex r t) = lex r t.uncommented := by
  -- The induction is on the length of the text: what is found at its front is not empty.
  induction hn : t.length using Nat.strong_induction_on generalizing r t with
  | h n ih =>
    subst hn
    rcases t.line_cases with ht | ⟨x, u, rfl, hne, hx, hu⟩
    · exact lex_uncommented_end hr ht fun s r hs hr => ih s.length hs hr s rfl
    · have hcurrent := Region.current_ne_header hr x
      rcases lex_line hne hx hu (Region.readsLocally hr hne hx) with
        ⟨l, own, next, s, hlt, hfinds, hlex, hlex'⟩ | ⟨s, hlt, hlex, hlex'⟩
      · have hplain := hfinds.not_comment hx
        obtain ⟨-, -, -, ⟨-, hm⟩, -⟩ := hfinds
        have hmove := Region.move_ne_header (l := l) hcurrent
        rw [← hm] at hmove
        rw [hlex, hlex', ← ih _ hlt hmove.2 s rfl]
        exact List.filter_cons_of_pos (by rw [hplain]; rfl)
      · rw [hlex, hlex', ih _ hlt hcurrent s rfl]

/-! ## The header -/

/-- Does the lexeme belong to the header? -/
def inHeader (e : Lexeme × Region) : Bool :=
  e.2 = .header

/-- A lexeme with its region, but without the blanks at the end of a field. -/
def plainEntry (e : Lexeme × Region) : Lexeme × Region :=
  (e.1.plain, e.2)

/-- The lexemes of a source, and those of the source without its comments: the header has plainly
the same lexemes other than comments, and the body has the same, except that a newline may come
before them. -/
structure Uncommented (es es' : List (Lexeme × Region)) : Prop where
  header : (dropComments (es.takeWhile inHeader)).map plainEntry =
    (es'.takeWhile inHeader).map plainEntry
  body : ∃ lead, (lead = [] ∨ lead = [(.newline, .body)]) ∧
    dropComments (es.dropWhile inHeader) = lead ++ es'.dropWhile inHeader

namespace Uncommented

variable {es es' : List (Lexeme × Region)}

/-- A comment of the header is deleted. -/
theorem comment (h : Uncommented es es') (text : Text) :
    Uncommented ((.comment text, .header) :: es) es' :=
  ⟨h.header, h.body⟩

/-- Another lexeme of the header stays. -/
theorem cons (h : Uncommented es es') {l : Lexeme} (hl : l.isComment = false) :
    Uncommented ((l, .header) :: es) ((l, .header) :: es') := by
  refine ⟨?_, h.body⟩
  have hfront (es : List (Lexeme × Region)) :
      ((l, Region.header) :: es).takeWhile inHeader = (l, .header) :: es.takeWhile inHeader := rfl
  rw [hfront, hfront, dropComments, List.filter_cons_of_pos (by rw [hl]; rfl), List.map_cons,
    List.map_cons]
  exact congrArg (_ :: ·) h.header

/-- The key field is the last lexeme of the header. -/
theorem key {text text' v v' : Text} (htext : Text.trimEnd text = Text.trimEnd text')
    (hbody : ∃ lead, (lead = [] ∨ lead = [(.newline, .body)]) ∧
      dropComments (lex .body v) = lead ++ lex .body v') :
    Uncommented ((.keyField text, .header) :: lex .body v)
      ((.keyField text', .header) :: lex .body v') := by
  have hout (v : Text) : (lex .body v).takeWhile inHeader = [] ∧
      (lex .body v).dropWhile inHeader = lex .body v := by
    have hregion : ∀ e ∈ lex .body v, inHeader e = false := by
      intro e he
      obtain ⟨k, hk, rfl⟩ := List.mem_map.1 he
      exact decide_eq_false (tokensFrom_ne_header (r := .body) nofun k hk)
    cases hes : lex .body v with
    | nil => exact ⟨rfl, rfl⟩
    | cons e es =>
      have he := hregion e (by rw [hes]; exact List.mem_cons_self)
      rw [List.takeWhile_cons, List.dropWhile_cons, he]
      exact ⟨rfl, rfl⟩
  have hfront (text v : Text) :
      ((Lexeme.keyField text, Region.header) :: lex .body v).takeWhile inHeader =
          [(.keyField text, .header)] ∧
        ((Lexeme.keyField text, Region.header) :: lex .body v).dropWhile inHeader =
          lex .body v := by
    obtain ⟨hnone, hall⟩ := hout v
    rw [List.takeWhile_cons_of_pos rfl, List.dropWhile_cons_of_pos rfl, hnone, hall]
    exact ⟨rfl, rfl⟩
  refine ⟨?_, ?_⟩
  · rw [(hfront text v).1, (hfront text' v').1]
    exact congrArg (fun x : Text => [(Lexeme.keyField x, Region.header)]) htext
  · rwa [(hfront text v).2, (hfront text' v').2]

end Uncommented

section KeyField

variable {v : Text} (hv : v.all Rule.inField)
include hv

/-- The key field is recognised with the line end if that comes next. -/
theorem Region.recognise_keyField {u : Text} (hu : ∀ c ∈ u.head?, Rule.inField c = false) :
    Region.header.recognise (Field.written 'K' v ++ u) =
      some (.lexeme (.keyField (Field.written 'K' (v ++
        if u.take 1 = Text.lineEnd then Text.lineEnd else []))) .header .body) := by
  have htake : (v ++ u).takeWhile Rule.inField = v :=
    (takeWhile_append_text hu fun _ hc => hc).trans
      (List.takeWhile_eq_self_iff.2 (List.all_eq_true.1 hv))
  have hdrop : (v ++ u).dropWhile Rule.inField = u := by
    have hsplit := List.takeWhile_append_dropWhile (p := Rule.inField) (l := v ++ u)
    rw [htake] at hsplit
    exact List.append_cancel_left hsplit
  have hkey := Rule.keyField_written (v ++ u)
  rw [htake, hdrop] at hkey
  unfold recognise rules
  rw [List.findSome?_cons, show Field.written 'K' v ++ u = Field.written 'K' (v ++ u) from rfl,
    hkey]

/-- The key field takes the line end after it. -/
theorem lex_keyField_lineEnd (u : Text) :
    lex .header (Field.written 'K' v ++ (Text.lineEnd ++ u)) =
      (.keyField (Field.written 'K' (v ++ Text.lineEnd)), .header) :: lex .body u := by
  have hfound := Region.recognise_keyField hv (u := Text.lineEnd ++ u) fun c hc => by cases hc; rfl
  rw [if_pos (show (Text.lineEnd ++ u).take 1 = Text.lineEnd from rfl)] at hfound
  have hsplit : Field.written 'K' v ++ (Text.lineEnd ++ u) =
      Field.written 'K' (v ++ Text.lineEnd) ++ u := by
    rw [← List.append_assoc]
    rfl
  rw [hsplit] at hfound ⊢
  exact lex_recognised rfl (List.cons_ne_nil _ _) hfound

/-- A comment after the key field, or the end of the text, leaves the line end to the body. -/
theorem lex_keyField_apart {u : Text} (hu : ∀ c ∈ u.head?, c = '%') :
    lex .header (Field.written 'K' v ++ u) =
      (.keyField (Field.written 'K' v), .header) :: lex .body u := by
  have hfound := Region.recognise_keyField hv (u := u) fun c hc => by rw [hu c hc]; rfl
  have hapart : u.take 1 ≠ Text.lineEnd := by
    cases u with
    | nil => exact nofun
    | cons c u =>
      obtain rfl := hu c rfl
      exact nofun
  rw [if_neg hapart, List.append_nil] at hfound
  exact lex_recognised rfl (List.cons_ne_nil _ _) hfound

/-- The key field is read with and without the comment after it; the comment makes its line end a
newline of the body. -/
theorem uncommented_keyField {u : Text} (hu : ∀ c ∈ u.head?, Rule.inField c = false) :
    Uncommented (lex .header (Field.written 'K' v ++ u))
      (lex .header (Field.written 'K' v ++ u.uncommented)) := by
  have htrim : Text.trimEnd (Field.written 'K' v) =
      Text.trimEnd (Field.written 'K' (v ++ Text.lineEnd)) :=
    (Text.trimEnd_append (t := Field.written 'K' v) (b := Text.lineEnd) rfl).symm
  rcases Text.end_cases hu with rfl | ⟨rest, rfl⟩ | ⟨w, rest, rfl, hw, hrest⟩
  · rw [Text.uncommented_nil, lex_keyField_apart hv (u := []) nofun]
    exact .key rfl ⟨[], .inl rfl, rfl⟩
  · rw [Text.uncommented_lineEnd, lex_keyField_lineEnd hv, lex_keyField_lineEnd hv]
    exact .key rfl ⟨[], .inl rfl, lex_uncommented (r := .body) nofun rest⟩
  · rw [lex_keyField_apart hv (u := Text.commented w ++ rest) fun c hc => by cases hc; rfl,
      Text.uncommented_commented hw hrest]
    have hbody := lex_uncommented (r := .body) nofun (Text.commented w ++ rest)
    rw [Text.uncommented_commented hw hrest] at hbody
    -- The comment reaches to the end of the text or to a line end.
    have hend : ∀ c ∈ rest.head?, Rule.inField c = false := fun c hc => by rw [hrest c hc]; rfl
    rcases Text.end_cases hend with rfl | ⟨after, rfl⟩ | ⟨w', v, rfl, -⟩
    · rw [Text.uncommented_nil, lex_keyField_apart hv (u := []) nofun]
      exact .key rfl ⟨[], .inl rfl, hbody⟩
    · rw [Text.uncommented_lineEnd, lex_keyField_lineEnd hv]
      refine .key htrim ⟨_, .inr rfl, hbody.trans ?_⟩
      rw [Text.uncommented_lineEnd]
      exact lex_lineEnd (.inl rfl) _
    · cases hrest '%' rfl

end KeyField

/-- Only the key field leads out of the header. -/
theorem Region.Finds.header_stays {x : Text} {l : Lexeme} {own next : Region}
    (h : (Region.header.current x).Finds x (.lexeme l own next))
    (hx : ¬∃ v, x = Field.written 'K' v) : (own, next) = (.header, .header) := by
  obtain ⟨hgenuine, -, ⟨y, rfl⟩, ⟨-, hm⟩, -⟩ := h
  rw [hm, Region.current_header]
  cases l with
  | keyField text =>
    obtain ⟨value, -, rfl | rfl⟩ := hgenuine
    · exact absurd ⟨value ++ y, rfl⟩ hx
    · exact absurd ⟨value ++ Text.lineEnd ++ y, rfl⟩ hx
  | _ => rfl

/-- The lexemes of a source without its comments are those of the source, but for a newline in front
of the body. -/
theorem uncommented_header (t : Text) :
    Uncommented (lex .header t) (lex .header t.uncommented) := by
  -- The induction is on the length of the text: what is found at its front is not empty.
  induction hn : t.length using Nat.strong_induction_on generalizing t with
  | h n ih =>
    subst hn
    rcases t.line_cases with ht | ⟨x, u, rfl, hne, hx, hu⟩
    · rcases Text.end_cases ht with rfl | ⟨u, rfl⟩ | ⟨w, rest, rfl, hw, hrest⟩
      · exact ⟨rfl, [], .inl rfl, rfl⟩
      · rw [Text.uncommented_lineEnd, lex_header_lineEnd, lex_header_lineEnd]
        exact ih u.length (by simp [Text.lineEnd]) u rfl
      · rw [Text.uncommented_commented hw hrest,
          show lex .header (Text.commented w ++ rest) = _ from
            Score.lex_comment (r := .header) nofun ⟨w, hw⟩ hrest]
        exact (ih rest.length (Text.length_lt_commented w rest) rest rfl).comment _
    · by_cases hkey : ∃ v, x = Field.written 'K' v
      · obtain ⟨v, rfl⟩ := hkey
        rw [Text.uncommented_append hx]
        exact uncommented_keyField (v := v) hx hu
      · by_cases hblank : ∃ c y, x = c :: y ∧ isBlank c
        · obtain ⟨c, y, rfl, hc⟩ := hblank
          have hrest := ih (y ++ u).length (by simp) (y ++ u) rfl
          rw [Text.uncommented_append hx]
          rw [List.all_cons, Bool.and_eq_true] at hx
          rw [Text.uncommented_append hx.2] at hrest
          rwa [List.cons_append, List.cons_append, lex_cons_blank Region.recognise_header_blank hc,
            lex_cons_blank Region.recognise_header_blank hc]
        · have hlocal := Region.readsLocally_header hne hx
            (fun c hc => Bool.eq_false_iff.2 fun hb => hblank
              ⟨c, x.tail, (List.cons_head?_tail hc).symm, hb⟩) fun v hv => hkey ⟨v, hv⟩
          rcases lex_line hne hx hu hlocal with
            ⟨l, own, next, s, hlt, hfinds, hlex, hlex'⟩ | ⟨s, hlt, hlex, hlex'⟩
          · have hstays := hfinds.header_stays hkey
            cases hstays
            rw [hlex, hlex']
            exact (ih _ hlt s rfl).cons (hfinds.not_comment hx)
          · rw [hlex, hlex', Region.current_header]
            exact ih _ hlt s rfl

end SingAlong
