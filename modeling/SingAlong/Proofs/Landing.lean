import SingAlong.Proofs.Words

/-!
# Where syllables land

Lyrics of syllables, spaces and hyphens are sung on the elements that take time, one after the
other. Each token passes over at most one element that takes no time, so before a syllable there
must be as many separators as there are such elements, but for one, which the syllable itself
passes over (`LyricToken.Bridges`). Then the slots up to the last syllable are those of
`Slot.landed`: the texts in order on the elements that take time, with blank slots between them.
One lemma says this for each way in which a token and the next element meet (`LyricToken.Lands`), a
whole line of lyrics follows by induction on its tokens (`LyricToken.Bridges.lands`), and
`align_landed` says which text each element has in the alignment.
-/

namespace SingAlong

/-- A token that only separates syllables: a space or a hyphen. -/
def LyricToken.IsSeparator (t : LyricToken) : Prop :=
  t.kind = .space ∨ t.kind = .hyphen

instance : DecidablePred LyricToken.IsSeparator := fun _ =>
  inferInstanceAs (Decidable (_ ∨ _))

/-- A separator is not a syllable. -/
theorem LyricToken.IsSeparator.ne_syllable {t : LyricToken} (h : t.IsSeparator) :
    t.kind ≠ .syllable := by
  rcases h with h | h <;> rw [h] <;> nofun

/-- Does the element take time? -/
def Seat.sounds (s : Seat) : Bool :=
  !decide s.IsSilent

/-- The elements that take no time before each element that takes time, and after the last one. -/
def Seat.silentRuns (seats : List Seat) : List (List Seat) :=
  seats.splitOnP Seat.sounds

/-- The tokens before each syllable, and after the last one. -/
def LyricToken.separatorRuns (tokens : List LyricToken) : List (List LyricToken) :=
  tokens.splitOnP fun t => t.kind = .syllable

/-- Each of the first runs of elements is at most one longer than the run of tokens. -/
def LyricToken.BridgesRuns (n : Nat) (separators : List (List LyricToken))
    (silent : List (List Seat)) : Prop :=
  ∀ k < n, ∀ run ∈ separators[k]?, ∀ gap ∈ silent[k]?, gap.length ≤ run.length + 1

/-- The tokens before each syllable are enough for the elements that take no time before its
element: these are at most one more. -/
def LyricToken.Bridges (tokens : List LyricToken) (seats : List Seat) : Prop :=
  BridgesRuns (syllables tokens).length (separatorRuns tokens) (Seat.silentRuns seats)

instance (tokens : List LyricToken) (seats : List Seat) :
    Decidable (LyricToken.Bridges tokens seats) :=
  inferInstanceAs (Decidable (∀ k < _, ∀ run ∈ _, ∀ gap ∈ _, _ ≤ _))

/-- The slots up to the last text, when the elements that take time get one text each. -/
def Slot.landed : List Text → List Seat → List Slot
  | [], _ | _ :: _, [] => []
  | t :: texts, s :: seats =>
    if s.IsSilent then .blank :: landed (t :: texts) seats else .ofText t :: landed texts seats

/-! ## Gaps that are bridged -/

namespace Seat

variable {s : Seat}

/-- An element that takes no time belongs to the first run. -/
theorem silentRuns_cons_of_silent (hs : s.IsSilent) (seats : List Seat) :
    ∃ gap gaps, silentRuns seats = gap :: gaps ∧ silentRuns (s :: seats) = (s :: gap) :: gaps :=
  splitOnP_cons_of_neg (by simpa [sounds] using hs) seats

/-- Before an element that takes time the first run is empty. -/
theorem silentRuns_cons_of_sounds (hs : ¬s.IsSilent) (seats : List Seat) :
    silentRuns (s :: seats) = [] :: silentRuns seats :=
  splitOnP_cons_of_pos (by simpa [sounds] using hs) seats

/-- An element that takes no time does not count. -/
theorem countP_cons_of_silent (hs : s.IsSilent) (seats : List Seat) :
    (s :: seats).countP sounds = seats.countP sounds :=
  List.countP_cons_of_neg (by simpa [sounds] using hs)

/-- An element that takes time counts. -/
theorem countP_cons_of_sounds (hs : ¬s.IsSilent) (seats : List Seat) :
    (s :: seats).countP sounds = seats.countP sounds + 1 :=
  List.countP_cons_of_pos (by simpa [sounds] using hs)

end Seat

namespace LyricToken

open Seat (silentRuns_cons_of_silent silentRuns_cons_of_sounds)

variable {t : LyricToken} {tokens : List LyricToken} {s : Seat} {seats : List Seat}

/-- Another token than a syllable has no text to sing. -/
theorem syllables_cons_of_ne (ht : t.kind ≠ .syllable) (tokens : List LyricToken) :
    syllables (t :: tokens) = syllables tokens := by
  rw [syllables, List.filter_cons_of_neg (by simpa using ht)]
  rfl

/-- A syllable is the first one. -/
theorem syllables_cons_of_eq (ht : t.kind = .syllable) (tokens : List LyricToken) :
    syllables (t :: tokens) = t.text :: syllables tokens := by
  rw [syllables, List.filter_cons_of_pos (by simpa using ht)]
  rfl

/-- Another token than a syllable belongs to the first run. -/
theorem separatorRuns_cons_of_ne (ht : t.kind ≠ .syllable) (tokens : List LyricToken) :
    ∃ run runs, separatorRuns tokens = run :: runs ∧
      separatorRuns (t :: tokens) = (t :: run) :: runs :=
  splitOnP_cons_of_neg (by simpa using ht) tokens

/-- Before a syllable the first run is empty. -/
theorem separatorRuns_cons_of_eq (ht : t.kind = .syllable) (tokens : List LyricToken) :
    separatorRuns (t :: tokens) = [] :: separatorRuns tokens :=
  splitOnP_cons_of_pos (by simpa using ht) tokens

/-- The first run and the others. -/
theorem bridgesRuns_cons {n : Nat} {run : List LyricToken} {gap : List Seat}
    {runs : List (List LyricToken)} {gaps : List (List Seat)} :
    BridgesRuns (n + 1) (run :: runs) (gap :: gaps) ↔
      gap.length ≤ run.length + 1 ∧ BridgesRuns n runs gaps := by
  constructor
  · exact fun h => ⟨h 0 (Nat.succ_pos n) run rfl gap rfl,
      fun k hk => h (k + 1) (Nat.succ_lt_succ hk)⟩
  · rintro ⟨hfirst, hrest⟩ k hk run' hrun gap' hgap
    cases k with
    | zero =>
      cases hrun
      cases hgap
      exact hfirst
    | succ k => exact hrest k (Nat.lt_of_succ_lt_succ hk) run' hrun gap' hgap

/-- An element that takes no time is passed over with a separator. -/
theorem Bridges.pass (h : Bridges (t :: tokens) (s :: seats)) (ht : t.IsSeparator)
    (hne : syllables tokens ≠ []) (hs : s.IsSilent) : Bridges tokens seats := by
  obtain ⟨run, runs, hruns, hcons⟩ := separatorRuns_cons_of_ne ht.ne_syllable tokens
  obtain ⟨gap, gaps, hgaps, hgaps'⟩ := silentRuns_cons_of_silent hs seats
  obtain ⟨n, hn⟩ := Nat.exists_eq_add_one.2 (List.length_pos_iff.2 hne)
  rw [Bridges, syllables_cons_of_ne ht.ne_syllable, hn, hcons, hgaps', bridgesRuns_cons] at h
  rw [Bridges, hn, hruns, hgaps, bridgesRuns_cons]
  exact ⟨Nat.le_of_succ_le_succ h.1, h.2⟩

/-- A separator before an element that takes time is not needed. -/
theorem Bridges.spare (h : Bridges (t :: tokens) (s :: seats)) (ht : t.IsSeparator)
    (hne : syllables tokens ≠ []) (hs : ¬s.IsSilent) : Bridges tokens (s :: seats) := by
  obtain ⟨run, runs, hruns, hcons⟩ := separatorRuns_cons_of_ne ht.ne_syllable tokens
  obtain ⟨n, hn⟩ := Nat.exists_eq_add_one.2 (List.length_pos_iff.2 hne)
  rw [Bridges, syllables_cons_of_ne ht.ne_syllable, hn, hcons, silentRuns_cons_of_sounds hs,
    bridgesRuns_cons] at h
  rw [Bridges, hn, hruns, silentRuns_cons_of_sounds hs, bridgesRuns_cons]
  exact ⟨Nat.zero_le _, h.2⟩

/-- A syllable is sung on an element that takes time. -/
theorem Bridges.sing (h : Bridges (t :: tokens) (s :: seats)) (ht : t.kind = .syllable)
    (hs : ¬s.IsSilent) : Bridges tokens seats := by
  rw [Bridges, syllables_cons_of_eq ht, separatorRuns_cons_of_eq ht, silentRuns_cons_of_sounds hs,
    List.length_cons, bridgesRuns_cons] at h
  exact h.2

/-- A syllable itself passes over one element that takes no time, and the next one takes time. -/
theorem Bridges.next (h : Bridges (t :: tokens) (s :: seats)) (ht : t.kind = .syllable)
    (hs : s.IsSilent) (hroom : 0 < seats.countP Seat.sounds) :
    ∃ s' rest, seats = s' :: rest ∧ ¬s'.IsSilent ∧ Bridges tokens rest := by
  obtain ⟨gap, gaps, hgaps, hgaps'⟩ := silentRuns_cons_of_silent hs seats
  rw [Bridges, syllables_cons_of_eq ht, separatorRuns_cons_of_eq ht, hgaps', List.length_cons,
    bridgesRuns_cons] at h
  obtain ⟨hfirst, hrest⟩ := h
  -- No separator is left before the syllable, so there is no other such element.
  obtain rfl : gap = [] := List.length_eq_zero_iff.1 (Nat.le_zero.1 (Nat.le_of_succ_le_succ hfirst))
  cases seats with
  | nil => exact absurd hroom (Nat.lt_irrefl 0)
  | cons s' rest =>
    have hs' : ¬s'.IsSilent := fun hs' => by
      obtain ⟨_, _, -, hcons'⟩ := silentRuns_cons_of_silent hs' rest
      cases hgaps.symm.trans hcons'
    cases hgaps.symm.trans (silentRuns_cons_of_sounds hs' rest)
    exact ⟨s', rest, rfl, hs', hrest⟩

end LyricToken

/-! ## Filling slots up to the last syllable -/

namespace LyricStep

variable {t : LyricToken} {tokens : List LyricToken}

/-- A separator is taken as a step that adds no slot, unless the lyrics end. -/
theorem ofTokens_separator (ht : t.IsSeparator) (tokens : List LyricToken) :
    ∃ step, ofTokens (t :: tokens) = step :: ofTokens tokens ∧
      ∀ seats slots rest, rest.all isTrailing = false → takeStep seats slots step rest = slots := by
  obtain ⟨kind, text⟩ := t
  rcases ht with rfl | rfl
  · exact ⟨.space, rfl, fun seats slots rest _ => rfl⟩
  · refine ⟨.hyphen, rfl, fun seats slots rest hrest => ?_⟩
    rw [takeStep, hrest]
    rfl

/-- A syllable is taken as a text. -/
theorem ofTokens_syllable (ht : t.kind = .syllable) (tokens : List LyricToken) :
    ofTokens (t :: tokens) = .text t.text true :: ofTokens tokens := by
  rw [ofTokens, ht]

/-- Lyrics without ties and escaped hyphens do not join. -/
theorem join_not_mem_ofTokens (h : ∀ t ∈ tokens, t.kind ≠ .tie ∧ t.kind ≠ .escapedHyphen)
    (joint : Joint) (own : Text) (word : Option Text) :
    .join joint own word ∉ ofTokens tokens := by
  induction tokens with
  | nil => exact List.not_mem_nil
  | cons t tokens ih =>
    obtain ⟨⟨htie, hescaped⟩, htokens⟩ := List.forall_mem_cons.1 h
    obtain ⟨kind, text⟩ := t
    cases kind with
    | tie => exact absurd rfl htie
    | escapedHyphen => exact absurd rfl hescaped
    | _ => exact fun hmem => (List.mem_cons.1 hmem).elim nofun (ih htokens)

/-- Lyrics with a syllable do not end before it. -/
theorem all_isTrailing_ofTokens (h : ∀ t ∈ tokens, t.kind = .syllable ∨ t.IsSeparator)
    (hne : LyricToken.syllables tokens ≠ []) (ending : List LyricToken) :
    (ofTokens (tokens ++ ending)).all isTrailing = false := by
  induction tokens with
  | nil => exact absurd rfl hne
  | cons t tokens ih =>
    obtain ⟨ht, htokens⟩ := List.forall_mem_cons.1 h
    rw [List.cons_append]
    by_cases hkind : t.kind = .syllable
    · rw [ofTokens_syllable hkind]
      rfl
    · obtain ⟨step, hstep, -⟩ := ofTokens_separator (ht.resolve_left hkind) (tokens ++ ending)
      rw [LyricToken.syllables_cons_of_ne hkind] at hne
      rw [hstep, List.all_cons, ih htokens hne, Bool.and_false]

end LyricStep

/-- From any element on, the texts of the tokens land on the elements that take time. -/
def LyricToken.Lands (ending tokens : List LyricToken) (todo : List Seat) : Prop :=
  ∀ (done : List Seat) (slots : List Slot), slots.length = done.length →
    slots ++ Slot.landed (syllables tokens) todo <+:
      (fillSlots (done ++ todo) slots (LyricStep.ofTokens (tokens ++ ending))).1

namespace LyricToken

variable {t : LyricToken} {tokens ending : List LyricToken} {s : Seat} {todo : List Seat}

section

variable (htokens : ∀ t ∈ tokens, t.kind = .syllable ∨ t.IsSeparator)
include htokens

/-- No text is left to land. -/
theorem lands_of_none (hending : ∀ t ∈ ending, t.IsSeparator ∨ t.kind = .newline)
    (hnone : syllables tokens = []) (todo : List Seat) : Lands ending tokens todo := by
  intro done slots hlength
  rw [hnone, Slot.landed, List.append_nil]
  refine prefix_fillSlots (LyricStep.join_not_mem_ofTokens fun t ht => ?_)
  rcases List.mem_append.1 ht with ht | ht
  · rcases htokens t ht with h | h | h <;> rw [h] <;> exact ⟨nofun, nofun⟩
  · rcases hending t ht with (h | h) | h <;> rw [h] <;> exact ⟨nofun, nofun⟩

/-- A separator passes over an element that takes no time. -/
theorem Lands.pass (h : Lands ending tokens todo) (ht : t.IsSeparator)
    (hne : syllables tokens ≠ []) (hs : s.IsSilent) : Lands ending (t :: tokens) (s :: todo) := by
  intro done slots hlength
  obtain ⟨step, hstep, htake⟩ := LyricStep.ofTokens_separator ht (tokens ++ ending)
  have hpass := h (done ++ [s]) (slots ++ [.blank]) (by simp [hlength])
  rw [syllables_cons_of_ne ht.ne_syllable, List.cons_append, hstep,
    fillSlots_cons hlength, htake _ _ _ (LyricStep.all_isTrailing_ofTokens htokens hne ending),
    if_pos hs, List.append_cons done]
  obtain ⟨text, texts, htexts⟩ := List.exists_cons_of_ne_nil hne
  rw [htexts] at hpass ⊢
  rwa [Slot.landed, if_pos hs, List.append_cons]

/-- A separator does nothing at an element that takes time. -/
theorem Lands.spare (h : Lands ending tokens (s :: todo)) (ht : t.IsSeparator)
    (hne : syllables tokens ≠ []) (hs : ¬s.IsSilent) :
    Lands ending (t :: tokens) (s :: todo) := by
  intro done slots hlength
  obtain ⟨step, hstep, htake⟩ := LyricStep.ofTokens_separator ht (tokens ++ ending)
  rw [syllables_cons_of_ne ht.ne_syllable, List.cons_append, hstep,
    fillSlots_cons hlength, htake _ _ _ (LyricStep.all_isTrailing_ofTokens htokens hne ending),
    if_neg hs]
  exact h done slots hlength

end

/-- A syllable lands on an element that takes time. -/
theorem Lands.sing (h : Lands ending tokens todo) (ht : t.kind = .syllable)
    (hs : ¬s.IsSilent) : Lands ending (t :: tokens) (s :: todo) := by
  intro done slots hlength
  have hsung := h (done ++ [s]) (slots ++ [.ofText t.text]) (by simp [hlength])
  rw [syllables_cons_of_eq ht, List.cons_append, LyricStep.ofTokens_syllable ht,
    fillSlots_cons hlength, takeStep, if_neg hs, Slot.landed, if_neg hs, List.append_cons done,
    List.append_cons slots]
  exact hsung

/-- A syllable passes over an element that takes no time and lands on the next one. -/
theorem Lands.next {s' : Seat} (h : Lands ending tokens todo) (ht : t.kind = .syllable)
    (hs : s.IsSilent) (hs' : ¬s'.IsSilent) : Lands ending (t :: tokens) (s :: s' :: todo) := by
  intro done slots hlength
  have hsung := h (done ++ [s] ++ [s']) (slots ++ [.blank] ++ [.ofText t.text]) (by simp [hlength])
  rw [syllables_cons_of_eq ht, List.cons_append, LyricStep.ofTokens_syllable ht,
    fillSlots_cons hlength, takeStep, if_pos hs, Slot.landed, if_pos hs, Slot.landed, if_neg hs',
    List.append_cons done, List.append_cons (done ++ [s]), List.append_cons slots,
    List.append_cons (slots ++ [Slot.blank])]
  exact hsung

/-- All texts land where the separators are enough. -/
theorem Bridges.lands (htokens : ∀ t ∈ tokens, t.kind = .syllable ∨ t.IsSeparator)
    (hending : ∀ t ∈ ending, t.IsSeparator ∨ t.kind = .newline)
    (hroom : (syllables tokens).length ≤ todo.countP Seat.sounds)
    (hbridges : Bridges tokens todo) : Lands ending tokens todo := by
  induction tokens generalizing todo with
  | nil => exact lands_of_none htokens hending rfl todo
  | cons t tokens ih =>
    obtain ⟨ht, hrest⟩ := List.forall_mem_cons.1 htokens
    -- After the last syllable a hyphen gets a slot, so the step lemmas do not apply there.
    by_cases hnone : syllables (t :: tokens) = []
    · exact lands_of_none htokens hending hnone todo
    cases todo with
    | nil => exact absurd (List.length_eq_zero_iff.1 (Nat.le_zero.1 hroom)) hnone
    | cons s todo =>
      rcases ht with ht | ht
      · rw [syllables_cons_of_eq ht, List.length_cons] at hroom
        by_cases hs : s.IsSilent
        · rw [Seat.countP_cons_of_silent hs] at hroom
          obtain ⟨s', rest, rfl, hs', hnext⟩ :=
            hbridges.next ht hs ((Nat.succ_pos _).trans_le hroom)
          rw [Seat.countP_cons_of_sounds hs'] at hroom
          exact (ih hrest (Nat.le_of_succ_le_succ hroom) hnext).next ht hs hs'
        · rw [Seat.countP_cons_of_sounds hs] at hroom
          exact (ih hrest (Nat.le_of_succ_le_succ hroom) (hbridges.sing ht hs)).sing ht hs
      · rw [syllables_cons_of_ne ht.ne_syllable] at hnone hroom
        by_cases hs : s.IsSilent
        · rw [Seat.countP_cons_of_silent hs] at hroom
          exact (ih hrest hroom (hbridges.pass ht hnone hs)).pass hrest ht hnone hs
        · exact (ih hrest hroom (hbridges.spare ht hnone hs)).spare hrest ht hnone hs

end LyricToken

/-- Up to the last text each element has a slot: a blank one, or the next text. -/
theorem Slot.landed_getElem? {texts : List Text} {seats : List Seat} {i : Nat} {s : Seat} {t : Text}
    (hs : seats[i]? = some s) (ht : texts[(seats.take i).countP Seat.sounds]? = some t) :
    (landed texts seats)[i]? = some (if s.IsSilent then blank else ofText t) := by
  induction seats generalizing texts i with
  | nil => cases hs
  | cons first seats ih =>
    cases texts with
    | nil => cases ht
    | cons text texts =>
      cases i with
      | zero =>
        cases hs
        cases ht
        rw [landed]
        split_ifs <;> rfl
      | succ i =>
        rw [List.take_succ_cons] at ht
        rw [landed]
        by_cases hfirst : first.IsSilent
        · rw [Seat.countP_cons_of_silent hfirst] at ht
          rw [if_pos hfirst]
          exact ih hs ht
        · rw [Seat.countP_cons_of_sounds hfirst] at ht
          rw [if_neg hfirst]
          exact ih hs ht

/-- Where syllables land. When the music has an element that takes time for each syllable, and
before each syllable the lyrics have enough separators, the elements that take time get the
syllables in order: each gets the one with as many syllables before it as there are such elements
before the element. Up to the last syllable all other elements have blank slots. -/
theorem align_landed {tokens ending : List LyricToken} {seats : List Seat}
    (htokens : ∀ t ∈ tokens, t.kind = .syllable ∨ t.IsSeparator)
    (hending : ∀ t ∈ ending, t.IsSeparator ∨ t.kind = .newline)
    (hroom : (LyricToken.syllables tokens).length ≤ seats.countP Seat.sounds)
    (hbridges : LyricToken.Bridges tokens seats) :
    (∀ i s t, seats[i]? = some s → ¬s.IsSilent →
      (LyricToken.syllables tokens)[(seats.take i).countP Seat.sounds]? = some t →
      (align (tokens ++ ending) seats).slots[i]? = some (.ofText t)) ∧
    ∀ i s, seats[i]? = some s → s.IsSilent →
      (seats.take i).countP Seat.sounds < (LyricToken.syllables tokens).length →
      (align (tokens ++ ending) seats).slots[i]? = some .blank := by
  obtain ⟨more, hmore⟩ := hbridges.lands htokens hending hroom [] [] rfl
  rw [List.nil_append, List.nil_append] at hmore
  have hslot {i : Nat} {s : Seat} {t : Text} (hs : seats[i]? = some s)
      (ht : (LyricToken.syllables tokens)[(seats.take i).countP Seat.sounds]? = some t) :
      (align (tokens ++ ending) seats).slots[i]? =
        some (if s.IsSilent then .blank else .ofText t) := by
    have hlanded := Slot.landed_getElem? hs ht
    rw [align_getElem? _ _ (List.getElem?_eq_some_iff.1 hs).1, ← hmore,
      List.getElem?_append_left (List.getElem?_eq_some_iff.1 hlanded).1, hlanded]
    rfl
  constructor
  · intro i s t hs hsounds ht
    rw [hslot hs ht, if_neg hsounds]
  · intro i s hs hsilent hlt
    rw [hslot hs (List.getElem?_eq_getElem hlt), if_pos hsilent]

/-- Lyrics with a word of two syllables. -/
def LyricToken.hello : List LyricToken :=
  [⟨.syllable, "hel".text⟩, ⟨.hyphen, "-".text⟩, ⟨.syllable, "lo".text⟩]

/-- Two notes, with a repeat mark before them and a bar and the end of the line between them. -/
def Seat.twoLines : List Seat :=
  [⟨.bar .startRepeat, .fraction 0⟩, ⟨.note ⟨.C, false⟩, .fraction (1 / 4)⟩,
    ⟨.bar .single, .fraction 0⟩, ⟨.endOfLine "\n".text, .fraction 0⟩,
    ⟨.note ⟨.D, false⟩, .fraction (1 / 4)⟩, ⟨.bar .single, .fraction 0⟩]

/-- The second syllable passes over a bar and the end of a line. -/
theorem align_twoLines :
    LyricToken.Bridges LyricToken.hello Seat.twoLines ∧
      (align (LyricToken.hello ++ [⟨.newline, Text.lineEnd⟩]) Seat.twoLines).slots[4]? =
        some (.syllable "lo".text) ∧
      (align (LyricToken.hello ++ [⟨.newline, Text.lineEnd⟩]) Seat.twoLines).slots[3]? =
        some .blank := by
  have hbridges : LyricToken.Bridges LyricToken.hello Seat.twoLines := by decide +kernel
  have htokens : ∀ t ∈ LyricToken.hello, t.kind = .syllable ∨ t.IsSeparator := by decide
  have hending : ∀ t ∈ [(⟨.newline, Text.lineEnd⟩ : LyricToken)],
      t.IsSeparator ∨ t.kind = .newline := by decide
  obtain ⟨hsung, hblank⟩ := align_landed htokens hending (by decide +kernel) hbridges
  exact ⟨hbridges, hsung 4 _ "lo".text rfl (by decide +kernel) (by decide +kernel),
    hblank 3 _ rfl (by decide +kernel) (by decide +kernel)⟩

end SingAlong
