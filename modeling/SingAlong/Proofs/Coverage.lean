import SingAlong.Proofs.Positions

/-!
# What the tokens of a source cover

Reading a source as tokens ends, and loses nothing but blanks (`tokens_cover`).

`Scan` is a scan of a source that takes one step at a time. One kind of step takes no character: a
chord that recognises nothing is left, and the body reads on at the same position. `Scan.potential`
falls with every step, as only a chord can be left in this way; so a scan is over after at most two
steps for each character, and has found the tokens of the source (`Scan.run_complete`).

Each token is the text of the source at its position (`tokensFrom_prefix`), and a character in no
token is blank (`tokensFrom_covers`), since blanks are all that a rule passes over.
-/

namespace SingAlong

/-! ## Scanning step by step -/

/-- Where a scan of a source stands: the region, the position, and the text that is left. -/
structure Scan where
  region : Region
  pos : Nat
  rest : Text

namespace Scan

/-- The scan of a source before its first step. -/
def start (source : Text) : Scan :=
  ⟨.header, 0, source⟩

/-- A step takes what is found at the front, which may be a token. A chord that recognises nothing
there is left, and nothing is taken. No step is left at the end of the source. -/
def step? (s : Scan) : Option (Option Token × Scan) :=
  if s.rest.isEmpty then none
  else if s.region = .chord ∧ (s.region.recognise s.rest).isNone then
    some (none, { s with region := .body })
  else match s.region.next s.rest with
    | .lexeme l own next =>
      some (some ⟨s.pos, l, own⟩, ⟨next, s.pos + l.text.length, s.rest.drop l.text.length⟩)
    | .blanks b => some (none, ⟨s.region, s.pos + b.length, s.rest.drop b.length⟩)

/-- The tokens that a number of steps find, fewer when the source ends, and where the scan stands
then. -/
def run : Nat → Scan → List Token × Scan
  | 0, s => ([], s)
  | n + 1, s =>
    match s.step? with
    | none => ([], s)
    | some (found, s') => (found.toList ++ (run n s').1, (run n s').2)

/-- How many steps can be left: two for each character, as a chord may be left before it is taken,
and one to leave the chord that the scan stands in. -/
def potential (s : Scan) : Nat :=
  2 * s.rest.length + if s.region = .chord then 1 else 0

/-- The tokens of the text that is left. -/
def tokensLeft (s : Scan) : List Token :=
  tokensFrom s.region s.pos 0 s.rest

variable {s s' : Scan} {found : Option Token}

/-- A scan is over at the end of the source only. -/
theorem step?_eq_none_iff : s.step? = none ↔ s.rest = [] := by
  unfold step?
  constructor
  · intro h
    split_ifs at h with hrest
    · exact List.isEmpty_iff.1 hrest
    · split at h <;> cases h
  · intro h
    rw [h, List.isEmpty_nil, if_pos rfl]

/-- A step brings the end nearer, and the tokens that were left are what it finds and the tokens
that are left after it. -/
theorem step?_spec (h : s.step? = some (found, s')) :
    s'.potential < s.potential ∧ s.tokensLeft = found.toList ++ s'.tokensLeft := by
  obtain ⟨region, pos, rest⟩ := s
  unfold step? at h
  dsimp only at h
  split_ifs at h with hempty hchord
  · -- The chord is left: the body reads on in the same way.
    obtain ⟨rfl, hnone⟩ := hchord
    cases h
    refine ⟨?_, ?_⟩
    · simp [potential]
    · have hne : rest ≠ [] := fun hnil => hempty (by rw [hnil]; rfl)
      obtain ⟨c, t, rfl⟩ := List.exists_cons_of_ne_nil hne
      unfold tokensLeft
      have hcurrent : Region.chord.current (c :: t) = .body := if_pos ⟨rfl, hnone⟩
      rw [tokensFrom, tokensFrom, hcurrent]
      rfl
  · have hcurrent : region.current rest = region := if_neg hchord
    have hne : rest ≠ [] := fun hnil => hempty (by rw [hnil]; rfl)
    have hfinds := Region.next_finds (r := region) hne
    split at h
    next l own next hnext =>
      -- A token takes at least one character.
      rw [hnext] at hfinds
      cases h
      obtain ⟨-, hl, ⟨rest, rfl⟩, -⟩ := hfinds
      have hpos := List.length_pos_iff.2 hl
      refine ⟨?_, ?_⟩
      · unfold potential
        dsimp only
        rw [List.drop_left, List.length_append]
        split_ifs <;> omega
      · unfold tokensLeft
        dsimp only
        rw [List.drop_left]
        exact tokensFrom_lexeme (by rwa [hcurrent]) hl
    next b hnext =>
      -- So do blanks, in which no token is found.
      rw [hnext] at hfinds
      cases h
      obtain ⟨hb, rest, rfl⟩ := hfinds
      have hpos := List.length_pos_iff.2 hb
      refine ⟨?_, ?_⟩
      · unfold potential
        dsimp only
        rw [List.drop_left, List.length_append]
        split_ifs <;> omega
      · unfold tokensLeft
        dsimp only
        rw [List.drop_left, tokensFrom_blanks (by rwa [hcurrent]) hb, hcurrent]
        rfl

/-- As many steps as can be left read the text that is left to its end, and find its tokens. -/
theorem run_complete {n : Nat} (h : s.potential ≤ n) :
    (s.run n).1 = s.tokensLeft ∧ (s.run n).2.rest = [] := by
  induction n generalizing s with
  | zero =>
    have hrest : s.rest = [] := by
      unfold potential at h
      exact List.length_eq_zero_iff.1 (by omega)
    exact ⟨by rw [tokensLeft, hrest]; rfl, hrest⟩
  | succ n ih =>
    unfold run
    cases hstep : s.step? with
    | none =>
      have hrest := step?_eq_none_iff.1 hstep
      exact ⟨by rw [tokensLeft, hrest]; rfl, hrest⟩
    | some next =>
      obtain ⟨found, s'⟩ := next
      obtain ⟨hlt, htokens⟩ := step?_spec hstep
      obtain ⟨hfound, hrest⟩ := ih (s := s') (by omega)
      exact ⟨by rw [htokens, ← hfound], hrest⟩

end Scan

/-! ## Blanks -/

/-- What a rule passes over is blank. -/
def Recognised.Passes : Recognised → Prop
  | lexeme _ _ _ => True
  | blanks b => b.all isBlank

namespace Rule

/-- The rule passes over blanks only. -/
def Careful (rule : Rule) : Prop :=
  ∀ t f, rule t = some f → f.Passes

variable {r own next : Region} {l : Lexeme}

/-- A spelled lexeme is taken. -/
theorem spelled_careful : Careful (spelled l own next) := by
  intro t f h
  unfold spelled at h
  split_ifs at h
  cases h
  trivial

/-- A class of blanks is passed over. -/
theorem skipping_careful {p : CodePoint → Bool} (hp : ∀ c, p c → isBlank c) :
    Careful (skipping p) := by
  intro t f h
  obtain ⟨-, rfl⟩ := many_eq_some h
  exact List.all_eq_true.2 fun c hc => hp c (List.mem_takeWhile_imp hc)

/-- A field is taken. -/
theorem field_careful {p : CodePoint → Bool} {label : Text → Lexeme} :
    Careful (field p label r) := by
  intro t f h
  obtain ⟨letter, rest, -, -, rfl⟩ := field_eq_some h
  trivial

/-- A key field is taken. -/
theorem keyField_careful : Careful keyField := by
  intro t f h
  unfold keyField at h
  split at h <;> cases h
  trivial

/-- A comment is taken. -/
theorem comment_careful : Careful (comment r) := by
  intro t f h
  unfold comment at h
  split at h <;> cases h
  trivial

/-- The parts of notes and rests are taken. -/
theorem music_careful : ∀ rule ∈ music r, Careful rule := by
  intro rule h
  unfold music at h
  simp only [List.mem_append, List.mem_map, List.mem_cons, List.not_mem_nil, or_false] at h
  rcases h with ⟨a, -, rfl⟩ | rfl | rfl | rfl | rfl
  · exact spelled_careful
  · intro t f h
    unfold note at h
    split at h
    · obtain ⟨n, -, rfl⟩ := Option.map_eq_some_iff.1 h
      trivial
    · cases h
  · intro t f h
    unfold octave at h
    dsimp only at h
    split_ifs at h
    cases h
    trivial
  · exact spelled_careful
  · intro t f h
    unfold length at h
    dsimp only at h
    split_ifs at h
    cases h
    trivial

end Rule

namespace Region

variable {r : Region}

/-- The rules of the header, the body and chords pass over blanks only. -/
theorem rules_careful (hr : r ≠ .lyric) : ∀ rule ∈ r.rules, Rule.Careful rule := by
  intro rule h
  cases r with
  | header =>
    simp only [rules, List.mem_cons, List.not_mem_nil, or_false] at h
    rcases h with rfl | rfl | rfl | rfl
    · exact Rule.keyField_careful
    · exact Rule.field_careful
    · exact Rule.comment_careful
    · exact Rule.skipping_careful fun _ => id
  | body =>
    simp only [rules, List.mem_append, List.mem_cons, List.not_mem_nil, or_false,
      List.mem_map] at h
    rcases h with ((((rfl | rfl | rfl | rfl | rfl) | ⟨b, -, rfl⟩) | rfl) | ⟨size, -, rfl⟩) | h
    · exact Rule.spelled_careful
    · exact Rule.field_careful
    · exact Rule.comment_careful
    · exact Rule.spelled_careful
    · refine Rule.skipping_careful fun c hc => ?_
      simp only [Bool.or_eq_true, beq_iff_eq] at hc
      rcases hc with (rfl | rfl) | rfl <;> rfl
    · exact Rule.spelled_careful
    · exact Rule.spelled_careful
    · exact Rule.spelled_careful
    · exact Rule.music_careful rule h
  | chord =>
    simp only [rules, List.mem_append, List.mem_cons, List.not_mem_nil, or_false] at h
    rcases h with (rfl | rfl) | h
    · exact Rule.spelled_careful
    · refine Rule.skipping_careful fun c hc => ?_
      simp only [Bool.or_eq_true, beq_iff_eq] at hc
      rcases hc with rfl | rfl <;> rfl
    · exact Rule.music_careful rule h
  | lyric => exact absurd rfl hr

/-- What is passed over at the front of a text is blank. -/
theorem next_passes {t : Text} (ht : t ≠ []) : (r.next t).Passes := by
  unfold next
  split
  next f hf =>
    by_cases hr : r = .lyric
    · -- The rules of the lyrics pass over nothing.
      subst hr
      cases f with
      | lexeme => trivial
      | blanks b => exact absurd hf (recognise_lyric_ne_blanks t b)
    · obtain ⟨rule, hmem, hrule⟩ := List.exists_of_findSome?_eq_some hf
      exact rules_careful hr rule hmem t f hrule
  next hnone =>
    split_ifs with hr
    · -- Only a blank is unknown to the lyrics.
      subst hr
      obtain ⟨c, rest, rfl⟩ := List.exists_cons_of_ne_nil ht
      have hc := isBlank_of_recognise_lyric hnone
      exact List.all_eq_true.2 (List.forall_mem_singleton.2 hc)
    · trivial

end Region

/-! ## The tokens of a source -/

/-- Each token has the text of the source at its position. -/
theorem tokensFrom_prefix (source : Text) (r : Region) (pos : Nat) :
    ∀ k ∈ tokensFrom r pos 0 (source.drop pos), k.text <+: source.drop k.pos := by
  refine tokensFrom_induction (motive := fun _ pos t ts => source.drop pos = t →
    ∀ k ∈ ts, k.text <+: source.drop k.pos) ?nil ?lexeme ?blanks r pos _ rfl
  case nil =>
    intro r pos hsource k hk
    cases hk
  case lexeme =>
    rintro r pos l own next rest hnext - ih hsource
    have hrest : source.drop (pos + l.text.length) = rest := by
      rw [← List.drop_drop, hsource, List.drop_left]
    refine List.forall_mem_cons.2 ⟨?_, ih hrest⟩
    exact ⟨rest, hsource.symm⟩
  case blanks =>
    intro r pos b rest hnext hb r' hr' ih hsource
    exact ih (by rw [← List.drop_drop, hsource, List.drop_left])

/-- A character of a text is in one of its tokens, or it is blank. -/
theorem tokensFrom_covers (r : Region) (pos : Nat) (t : Text) :
    ∀ i c, t[i]? = some c →
      isBlank c ∨ ∃ k ∈ tokensFrom r pos 0 t, k.pos ≤ pos + i ∧ pos + i < k.stop := by
  refine tokensFrom_induction (motive := fun _ pos t ts => ∀ i c, t[i]? = some c →
    isBlank c ∨ ∃ k ∈ ts, k.pos ≤ pos + i ∧ pos + i < k.stop) ?nil ?lexeme ?blanks r pos t
  case nil =>
    intro r pos i c hc
    cases hc
  case lexeme =>
    intro r pos l own next rest hnext hfinds ih i c hc
    rcases Nat.lt_or_ge i l.text.length with hi | hi
    · refine .inr ⟨_, List.mem_cons_self, Nat.le_add_right pos i, ?_⟩
      exact Nat.add_lt_add_left hi pos
    · -- The character comes after the lexeme.
      rw [List.getElem?_append_right hi] at hc
      rcases ih _ c hc with hblank | ⟨k, hk, hle, hlt⟩
      · exact .inl hblank
      · exact .inr ⟨k, List.mem_cons_of_mem _ hk, by omega, by omega⟩
  case blanks =>
    intro r pos b rest hnext hb r' hr' ih i c hc
    rcases Nat.lt_or_ge i b.length with hi | hi
    · have hpasses := Region.next_passes (r := r.current (b ++ rest))
        (List.append_ne_nil_of_left_ne_nil hb rest)
      rw [hnext] at hpasses
      rw [List.getElem?_append_left hi] at hc
      exact .inl (List.all_eq_true.1 hpasses c (List.mem_of_getElem? hc))
    · rw [List.getElem?_append_right hi] at hc
      rcases ih _ c hc with hblank | ⟨k, hk, hle, hlt⟩
      · exact .inl hblank
      · exact .inr ⟨k, hk, by omega, by omega⟩

/-- Reading a source as tokens is over after at most two steps for each of its characters. The
tokens are not empty and stand in the source one after the other, each is the text of the source at
its position, and every character that is in none of them is blank. -/
theorem tokens_cover (source : Text) :
    (((Scan.start source).run (2 * source.length)).1 = tokens source ∧
      ((Scan.start source).run (2 * source.length)).2.rest = []) ∧
    ((tokens source).Pairwise fun a b => a.pos < b.pos ∧ a.stop ≤ b.pos) ∧
    (∀ k ∈ tokens source, k.text ≠ [] ∧ k.stop ≤ source.length ∧ k.text <+: source.drop k.pos) ∧
    ∀ i c, source[i]? = some c →
      isBlank c ∨ ∃ k ∈ tokens source, k.pos ≤ i ∧ i < k.stop := by
  have hplaced := tokens_placed source
  have hends := Scan.run_complete (s := Scan.start source) (n := 2 * source.length) (le_refl _)
  refine ⟨hends, ?ordered, ?slices, ?covered⟩
  case ordered =>
    refine hplaced.ordered.imp_of_mem fun {a b} ha hb hab => ⟨?_, hab⟩
    obtain ⟨-, hlt, -⟩ := hplaced.within a ha
    omega
  case slices =>
    intro k hk
    obtain ⟨-, hlt, hstop⟩ := hplaced.within k hk
    refine ⟨fun htext => ?_, hstop, tokensFrom_prefix source .header 0 k hk⟩
    rw [Token.stop, htext] at hlt
    exact absurd hlt (lt_irrefl _)
  case covered =>
    intro i c hc
    have hcovers := tokensFrom_covers .header 0 source i c hc
    rwa [Nat.zero_add] at hcovers

/-- A chord that recognises nothing is left at the same position, and opened anew there. -/
example : (tokens "K:C\n[C[D".text).map Token.pos = [0, 4, 5, 6, 7] := by decide +kernel

end SingAlong
