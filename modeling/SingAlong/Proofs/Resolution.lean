import SingAlong.Proofs.FieldTexts

/-!
# Resolving a header

A header is resolved from the texts of its fields, or refused because one of them is missing or can
not be read. `Header.Meets` says for each way of being refused what the texts must be to avoid it,
and `Header.ResolvesTo` what is resolved from them. One case is left: a tempo mark counts beats in
default lengths, and nothing keeps the default length from being zero (`Header.CountsZero`).

`Header.Outcome` is the invariant of the stages. It goes through a sequence of stages by
`Outcome.bind`, so that `ofFields_outcome` needs one statement for each field.
-/

namespace SingAlong

/-! ## How a header is refused -/

/-- The ways in which a header is refused. -/
inductive Refusal where
  /-- The index, the title or the key is missing. -/
  | missingField
  /-- The index can not be read. -/
  | malformedField
  /-- The meter, the length or the tempo can not be read. -/
  | malformedFraction
  /-- The key is not a supported one. -/
  | unsupportedKey
  deriving DecidableEq, Repr

/-- The way in which an error refuses a header. -/
def HeaderError.refusal? : HeaderError → Option Refusal
  | missingField _ | emptyTitle => some .missingField
  | invalidIndex _ => some .malformedField
  | fraction _ | invalidTempo _ => some .malformedFraction
  | key _ => some .unsupportedKey
  | zeroLength => none

namespace Header

/-- A meter is common time or a ratio. -/
def IsMeter (t : Text) (q : Rat) : Prop :=
  t ∈ commonTime ∧ q = 1 ∨ t.IsRatio q

section

variable (value : Char → Option Text)

/-- What the texts of the fields must be for a header not to be refused in a given way. -/
def Meets : Refusal → Prop
  | .missingField => (∃ t, value 'X' = some t) ∧ (∃ t, value 'T' = some t ∧ t ≠ []) ∧
      ∃ t, value 'K' = some t
  | .malformedField => ∀ t ∈ value 'X', ∃ n, Text.toInt? t = some n
  | .malformedFraction => (∀ t ∈ value 'M', ∃ q, IsMeter t q) ∧
      (∀ t ∈ value 'L', ∃ q, t.IsRatio q) ∧
      ∀ t ∈ value 'Q', ∃ beat count, t.IsTempo beat count
  | .unsupportedKey => ∀ t ∈ value 'K', Text.trim t ∈ Key.all.map Key.name

/-- A tempo is counted in default lengths of zero. -/
def CountsZero : Prop :=
  (∃ t, value 'Q' = some t) ∧ ∃ t ∈ value 'L', t.IsRatio 0

/-- A header is what the texts of its fields say. -/
structure ResolvesTo (voices : List Text) (h : Header) : Prop where
  index : ∃ t ∈ value 'X', Text.toInt? t = some h.index
  title : value 'T' = some h.title
  titled : h.title ≠ []
  key : ∃ t ∈ value 'K', h.key.name = Text.trim t
  composer : h.composer = ((value 'C').filter (· ≠ [])).getD defaultComposer
  meter : (value 'M').elim (h.meter = 1) fun t => IsMeter t h.meter
  length : (value 'L').elim (h.length = if h.meter < 3 / 4 then 1 / 16 else 1 / 8) fun t =>
    t.IsRatio h.length
  tempo : (value 'Q').elim (h.tempo.value = 100) fun t => h.length ≠ 0 ∧
    ∃ beat count, t.IsTempo beat count ∧ h.tempo.value * h.length = beat * count
  voices : h.voices = voices

/-- How a stage of resolving a header ends: it reads something, refuses the header with an error
that the texts account for, or divides by zero though all texts can be read. -/
inductive Outcome {α : Type} (R : α → Prop) : Except HeaderError α → Prop
  | resolved {a : α} (ha : R a) : Outcome R (.ok a)
  | refused {e : HeaderError} {r : Refusal} (he : e.refusal? = some r) (hr : ¬Meets value r) :
      Outcome R (.error e)
  | divided (hmeets : ∀ r, Meets value r) (hzero : CountsZero value) :
      Outcome R (.error .zeroLength)

end

section

variable {value : Char → Option Text} {α β : Type} {R : α → Prop} {S : β → Prop}

/-- A stage that reads a text, or refuses the header because it can not be read. -/
theorem Outcome.of_read {x : Except HeaderError α} {r : Refusal} (hok : ∀ a, x = .ok a → R a)
    (herror : ∀ e, x = .error e → e.refusal? = some r ∧ ¬Meets value r) : Outcome value R x := by
  cases x with
  | ok a => exact .resolved (hok a rfl)
  | error e => exact .refused (herror e rfl).1 (herror e rfl).2

/-- A stage after another goes on with what the first one has read. -/
theorem Outcome.bind {x : Except HeaderError α} {f : α → Except HeaderError β}
    (hx : Outcome value R x) (hf : ∀ a, R a → Outcome value S (f a)) :
    Outcome value S (x >>= f) := by
  cases hx with
  | resolved ha => exact hf _ ha
  | refused he hr => exact .refused he hr
  | divided hmeets hzero => exact .divided hmeets hzero

/-- When all texts can be read, a header is not refused. -/
theorem meets_all (hindex : ∃ t ∈ value 'X', ∃ n, Text.toInt? t = some n)
    (htitle : ∃ t ∈ value 'T', t ≠ []) (hkey : ∃ t ∈ value 'K', ∃ k : Key, k.name = Text.trim t)
    (hmeter : ∀ t ∈ value 'M', ∃ q, IsMeter t q) (hlength : ∀ t ∈ value 'L', ∃ q, t.IsRatio q)
    (htempo : ∀ t ∈ value 'Q', ∃ beat count, t.IsTempo beat count) (r : Refusal) :
    Meets value r := by
  obtain ⟨x, hx, hindex⟩ := hindex
  obtain ⟨k, hk, key, hkey⟩ := hkey
  cases r with
  | missingField => exact ⟨⟨x, hx⟩, htitle, k, hk⟩
  | malformedField =>
    intro t ht
    cases hx.symm.trans ht
    exact hindex
  | malformedFraction => exact ⟨hmeter, hlength, htempo⟩
  | unsupportedKey =>
    intro t ht
    cases hk.symm.trans ht
    exact List.mem_map.2 ⟨key, key.mem_all, hkey⟩

end

/-! ## The stages -/

section

variable {t : Text} {e : HeaderError}

/-- A text that is not read as a ratio is a malformed fraction. -/
theorem readRat_error (h : readRat t = .error e) :
    e.refusal? = some .malformedFraction ∧ ¬∃ q, t.IsRatio q := by
  constructor
  · unfold readRat at h
    cases hread : readFraction t with
    | error =>
      rw [hread] at h
      cases h
      rfl
    | ok =>
      rw [hread] at h
      cases h
  · rintro ⟨q, hq⟩
    cases (readRat_eq_ok.2 hq).symm.trans h

/-- A tempo mark is counted in default lengths, unless they are zero. -/
theorem readTempo_cases (length : Rat) (t : Text) :
    (∃ beat count, t.IsTempo beat count ∧ length ≠ 0 ∧
      readTempo length (some t) = .ok (.marked (beat / length * count))) ∨
    (∃ beat count, t.IsTempo beat count) ∧ length = 0 ∧
      readTempo length (some t) = .error .zeroLength ∨
    (¬∃ beat count, t.IsTempo beat count) ∧
      ∃ e, readTempo length (some t) = .error e ∧ e.refusal? = some .malformedFraction := by
  simp only [isTempo_iff]
  unfold readTempo
  dsimp only
  cases hsplit : splitTempo? t with
  | none => exact .inr (.inr ⟨nofun, _, rfl, rfl⟩)
  | some mark =>
    obtain ⟨beat, count⟩ := mark
    dsimp only
    cases hbeat : readRat beat with
    | error e =>
      refine .inr (.inr ⟨?_, e, rfl, (readRat_error hbeat).1⟩)
      rintro ⟨q, n, _, ⟨⟩, hq⟩
      cases hbeat.symm.trans hq
    | ok q =>
      have htempo : ∃ b, some (beat, count) = some (b, count) ∧ readRat b = .ok q :=
        ⟨beat, rfl, hbeat⟩
      by_cases hzero : length = 0
      · exact .inr (.inl ⟨⟨q, count, htempo⟩, hzero, if_pos hzero⟩)
      · exact .inl ⟨q, count, htempo, hzero, if_neg hzero⟩

end

section

variable {fields : Fields}

/-- A field that must be there is found, or the header is refused for want of it. -/
theorem required_outcome {letter : Char}
    (hmeets : fields.get? letter = none → ¬Meets fields.get? .missingField) :
    Outcome fields.get? (fun t => fields.get? letter = some t) (required fields letter) := by
  unfold required
  split
  next t ht => exact .resolved ht
  next hnone => exact .refused rfl (hmeets hnone)

/-- The key field is the name of a key, or the header is refused. -/
theorem keyField_outcome {key : Text} (hkey : fields.get? 'K' = some key) :
    Outcome fields.get? (fun k : Key => k.name = Text.trim key)
      ((Key.read key).mapError .key) := by
  cases hread : Key.read key with
  | ok k => exact .resolved (Key.read_eq_ok.1 hread)
  | error e =>
    refine .refused (r := .unsupportedKey) rfl fun hmeets => ?_
    obtain ⟨k, -, hk⟩ := List.mem_map.1 (hmeets key hkey)
    cases (Key.read_eq_ok.2 hk).symm.trans hread

/-- The meter is a whole note unless there is a field that says another one. -/
theorem readMeter_outcome :
    Outcome fields.get? (fun q => (fields.get? 'M').elim (q = 1) fun t => IsMeter t q)
      (readMeter (fields.get? 'M')) := by
  cases hm : fields.get? 'M' with
  | none => exact .resolved rfl
  | some t =>
    unfold readMeter
    dsimp only
    split_ifs with hcommon
    · exact .resolved (.inl ⟨List.contains_iff_mem.1 hcommon, rfl⟩)
    · refine .of_read (r := .malformedFraction) (fun q hq => .inr (readRat_eq_ok.1 hq))
        fun e he => ⟨(readRat_error he).1, fun hmeets => ?_⟩
      obtain ⟨q, hq⟩ := hmeets.1 t hm
      rcases hq with ⟨hmem, -⟩ | hq
      · exact hcommon (List.contains_iff_mem.2 hmem)
      · exact (readRat_error he).2 ⟨q, hq⟩

/-- The default length depends on the meter unless there is a field that says it. -/
theorem readLength_outcome {meter : Rat} :
    Outcome fields.get?
      (fun q => (fields.get? 'L').elim (q = if meter < 3 / 4 then 1 / 16 else 1 / 8) fun t =>
        t.IsRatio q)
      (readLength meter (fields.get? 'L')) := by
  cases hl : fields.get? 'L' with
  | none => exact .resolved rfl
  | some t =>
    refine .of_read (fun q hq => readRat_eq_ok.1 hq) fun e he => ⟨(readRat_error he).1, ?_⟩
    exact fun hmeets => (readRat_error he).2 (hmeets.2.1 t hl)

/-- The tempo is the standard one unless there is a mark, which must not count lengths of zero. -/
theorem readTempo_outcome {meter length : Rat}
    (hlength : (fields.get? 'L').elim (length = if meter < 3 / 4 then 1 / 16 else 1 / 8) fun t =>
      t.IsRatio length)
    (hmeets : (∀ t ∈ fields.get? 'Q', ∃ beat count, t.IsTempo beat count) →
      ∀ r, Meets fields.get? r) :
    Outcome fields.get?
      (fun tempo => (fields.get? 'Q').elim (tempo.value = 100) fun t => length ≠ 0 ∧
        ∃ beat count, t.IsTempo beat count ∧ tempo.value * length = beat * count)
      (readTempo length (fields.get? 'Q')) := by
  cases hq : fields.get? 'Q' with
  | none => exact .resolved rfl
  | some t =>
    rcases readTempo_cases length t with ⟨beat, count, ht, hne, hread⟩ | ⟨ht, hzero, hread⟩ |
      ⟨hnot, e, hread, hrefusal⟩
    · rw [hread]
      refine .resolved ⟨hne, beat, count, ht, ?_⟩
      show beat / length * count * length = beat * count
      rw [mul_right_comm, div_mul_cancel₀ beat hne]
    · rw [hread]
      refine .divided (hmeets fun t' ht' => ?_) ⟨⟨t, hq⟩, ?_⟩
      · cases hq.symm.trans ht'
        exact ht
      · -- The lengths that go with a meter are not zero, so there is a field.
        cases hl : fields.get? 'L' with
        | none =>
          rw [hl] at hlength
          have hdefault : length = if meter < 3 / 4 then 1 / 16 else 1 / 8 := hlength
          rw [hzero] at hdefault
          split_ifs at hdefault <;> norm_num at hdefault
        | some u =>
          rw [hl, hzero] at hlength
          exact ⟨u, rfl, hlength⟩
    · rw [hread]
      exact .refused hrefusal fun hmeets => hnot (hmeets.2.2 t hq)

/-- What a field that is there says can be read. -/
theorem exists_of_elim {α : Type} {o : Option Text} {P : Prop} {R : Text → α → Prop} {a : α}
    (h : o.elim P fun t => R t a) : ∀ t ∈ o, ∃ a, R t a := by
  rintro t rfl
  exact ⟨a, h⟩

/-- An empty composer field counts as none. -/
theorem composer_eq (o : Option Text) :
    (if (o.getD []).isEmpty then defaultComposer else o.getD []) =
      (o.filter (· ≠ [])).getD defaultComposer := by
  rcases o with _ | _ | ⟨c, t⟩ <;> rfl

end

/-- A header is resolved to what its fields say, refused because a field can not be read, or its
tempo is counted in default lengths of zero. -/
theorem ofFields_outcome (fields : Fields) :
    Outcome fields.get? (ResolvesTo fields.get?
      ((Text.lines ((fields.get? 'V').getD defaultVoice)).map Text.trim)) (ofFields fields) := by
  unfold ofFields
  refine .bind (required_outcome fun h hmeets => ?_) fun index hindex => ?_
  · obtain ⟨⟨t, ht⟩, -⟩ := hmeets
    cases h.symm.trans ht
  refine .bind (required_outcome fun h hmeets => ?_) fun title htitle => ?_
  · obtain ⟨-, ⟨t, ht, -⟩, -⟩ := hmeets
    cases h.symm.trans ht
  refine .bind (required_outcome fun h hmeets => ?_) fun key hkey => ?_
  · obtain ⟨-, -, t, ht⟩ := hmeets
    cases h.symm.trans ht
  dsimp only
  cases hn : Text.toInt? index with
  | none =>
    refine .refused (r := .malformedField) rfl fun hmeets => ?_
    obtain ⟨n, h⟩ := hmeets index hindex
    cases hn.symm.trans h
  | some n =>
    -- The title is looked at before the other fields.
    change Outcome _ _ (ite _ _ _)
    by_cases hempty : title.isEmpty
    · rw [if_pos hempty]
      refine .refused (r := .missingField) rfl fun hmeets => ?_
      obtain ⟨-, ⟨t, ht, hne⟩, -⟩ := hmeets
      cases htitle.symm.trans ht
      exact hne (List.isEmpty_iff.1 hempty)
    rw [if_neg hempty]
    have htitled : title ≠ [] := fun h => hempty (List.isEmpty_iff.2 h)
    refine .bind (keyField_outcome hkey) fun k hk => ?_
    refine .bind readMeter_outcome fun meter hmeter => ?_
    refine .bind readLength_outcome fun length hlength => ?_
    -- Only the tempo mark is not read yet.
    have hmeets : (∀ t ∈ fields.get? 'Q', ∃ beat count, t.IsTempo beat count) →
        ∀ r, Meets fields.get? r :=
      meets_all ⟨index, hindex, n, hn⟩ ⟨title, htitle, htitled⟩ ⟨key, hkey, k, hk⟩
        (exists_of_elim hmeter) (exists_of_elim hlength)
    refine .bind (readTempo_outcome hlength hmeets) fun tempo htempo => .resolved ?_
    exact {
      index := ⟨index, hindex, hn⟩
      title := htitle
      titled := htitled
      key := ⟨key, hkey, hk⟩
      composer := composer_eq _
      meter := hmeter
      length := hlength
      tempo := htempo
      voices := rfl }

/-! ## What is resolved -/

/-- A header that is resolved is what its fields say. -/
theorem resolvesTo_ofFields {fields : Fields} {h : Header} (hh : ofFields fields = .ok h) :
    ResolvesTo fields.get?
      ((Text.lines ((fields.get? 'V').getD defaultVoice)).map Text.trim) h := by
  have houtcome := ofFields_outcome fields
  rw [hh] at houtcome
  cases houtcome with
  | resolved hresolved => exact hresolved

section

variable {value : Char → Option Text} {voices : List Text} {h : Header}

/-- Common time is not written as a fraction. -/
theorem not_isRatio_of_commonTime {t : Text} (ht : t ∈ commonTime) {q : Rat} : ¬t.IsRatio q := by
  have hnone : ∀ t ∈ commonTime, (readRat t).toOption = none := by decide +kernel
  intro hq
  have hread := hnone t ht
  rw [readRat_eq_ok.2 hq] at hread
  cases hread

/-- A ratio that is read is not negative, and zero only if it is written so. -/
theorem isRatio_nonneg {t : Text} {q : Rat} (hratio : t.IsRatio q) :
    0 ≤ q ∧ (q = 0 ↔ ∃ u ∈ some t, Text.IsRatio u 0) := by
  refine ⟨hratio.nonneg, fun hzero => ⟨t, rfl, hzero ▸ hratio⟩, ?_⟩
  rintro ⟨u, ⟨⟩, hzero⟩
  exact isRatio_unique hratio hzero

/-- The meter that is resolved is not negative, and zero only if it is written so. -/
theorem ResolvesTo.meter_nonneg (hh : ResolvesTo value voices h) :
    0 ≤ h.meter ∧ (h.meter = 0 ↔ ∃ t ∈ value 'M', t.IsRatio 0) := by
  have hmeter := hh.meter
  cases hm : value 'M' with
  | none =>
    rw [hm] at hmeter
    have hone : h.meter = 1 := hmeter
    rw [hone]
    exact ⟨zero_le_one, iff_of_false one_ne_zero nofun⟩
  | some t =>
    rw [hm] at hmeter
    rcases hmeter with ⟨hcommon, hone⟩ | hratio
    · rw [hone]
      refine ⟨zero_le_one, iff_of_false one_ne_zero ?_⟩
      rintro ⟨u, ⟨⟩, hzero⟩
      exact not_isRatio_of_commonTime hcommon hzero
    · exact isRatio_nonneg hratio

/-- The default length that is resolved is not negative, and zero only if it is written so. -/
theorem ResolvesTo.length_nonneg (hh : ResolvesTo value voices h) :
    0 ≤ h.length ∧ (h.length = 0 ↔ ∃ t ∈ value 'L', t.IsRatio 0) := by
  have hlength := hh.length
  cases hl : value 'L' with
  | none =>
    rw [hl] at hlength
    have hpos : 0 < h.length := by
      rw [show h.length = if h.meter < 3 / 4 then 1 / 16 else 1 / 8 from hlength]
      split_ifs <;> norm_num
    exact ⟨hpos.le, iff_of_false hpos.ne' nofun⟩
  | some t =>
    rw [hl] at hlength
    exact isRatio_nonneg hlength

/-- The texts of a header that is resolved give no reason to refuse it. -/
theorem ResolvesTo.meets (hh : ResolvesTo value voices h) (r : Refusal) : Meets value r := by
  refine meets_all ?_ ⟨_, hh.title, hh.titled⟩ ?_ (exists_of_elim hh.meter)
    (exists_of_elim hh.length) ?_ r
  · obtain ⟨t, ht, hindex⟩ := hh.index
    exact ⟨t, ht, _, hindex⟩
  · obtain ⟨t, ht, hkey⟩ := hh.key
    exact ⟨t, ht, _, hkey⟩
  · intro t ht
    have htempo := hh.tempo
    rw [ht] at htempo
    obtain ⟨-, beat, count, hmark, -⟩ := htempo
    exact ⟨beat, count, hmark⟩

/-- The tempo of a header that is resolved is not counted in lengths of zero. -/
theorem ResolvesTo.not_countsZero (hh : ResolvesTo value voices h) : ¬CountsZero value := by
  rintro ⟨⟨t, ht⟩, hzero⟩
  have htempo := hh.tempo
  rw [ht] at htempo
  exact htempo.1 (hh.length_nonneg.2.2 hzero)

end

/-- A header is resolved if and only if its texts give no reason to refuse it, and its tempo is not
counted in lengths of zero. -/
theorem exists_ofFields_iff {fields : Fields} : (∃ h, ofFields fields = .ok h) ↔
    (∀ r, Meets fields.get? r) ∧ ¬CountsZero fields.get? := by
  constructor
  · rintro ⟨h, hh⟩
    exact ⟨(resolvesTo_ofFields hh).meets, (resolvesTo_ofFields hh).not_countsZero⟩
  · rintro ⟨hmeets, hzero⟩
    have houtcome := ofFields_outcome fields
    cases hread : ofFields fields with
    | ok h => exact ⟨h, rfl⟩
    | error e =>
      rw [hread] at houtcome
      cases houtcome with
      | refused _ hr => exact absurd (hmeets _) hr
      | divided _ hcounts => exact absurd hcounts hzero

/-- Whatever the fields are, the header is resolved, or refused for a reason that the fields give,
or its tempo is counted in lengths of zero. A header that is resolved has a title, a supported key
and voices; its meter and its default length are positive unless a fraction of zero is written
there. -/
theorem ofFields_valid (fields : Fields) :
    (∃ h, ofFields fields = .ok h ∧ h.title ≠ [] ∧ h.key.name ∈ Key.all.map Key.name ∧
      h.voices ≠ [] ∧ 0 ≤ h.meter ∧ (h.meter = 0 ↔ ∃ t ∈ fields.get? 'M', t.IsRatio 0) ∧
      0 ≤ h.length ∧ (h.length = 0 ↔ ∃ t ∈ fields.get? 'L', t.IsRatio 0)) ∨
    (∃ e r, ofFields fields = .error e ∧ e.refusal? = some r ∧ ¬Meets fields.get? r) ∨
    ofFields fields = .error .zeroLength ∧ (∀ r, Meets fields.get? r) ∧
      CountsZero fields.get? := by
  cases hread : ofFields fields with
  | ok h =>
    have hh := resolvesTo_ofFields hread
    obtain ⟨hmeter, hmeter'⟩ := hh.meter_nonneg
    obtain ⟨hlength, hlength'⟩ := hh.length_nonneg
    have hvoices : h.voices ≠ [] := by
      rw [hh.voices]
      exact fun hnil => Text.lines_ne_nil _ (List.map_eq_nil_iff.1 hnil)
    exact .inl ⟨h, rfl, hh.titled, List.mem_map_of_mem h.key.mem_all, hvoices, hmeter, hmeter',
      hlength, hlength'⟩
  | error e =>
    have houtcome := ofFields_outcome fields
    rw [hread] at houtcome
    cases houtcome with
    | refused he hr => exact .inr (.inl ⟨e, _, rfl, he, hr⟩)
    | divided hmeets hzero => exact .inr (.inr ⟨rfl, hmeets, hzero⟩)

/-- A tempo that is counted in lengths of zero is not refused in any of the documented ways, and
without a tempo mark a meter and a length of zero are accepted. -/
theorem ofFields_zeroLength :
    let fields : Fields := [("X".text, "1".text), ("T".text, "t".text), ("K".text, "C".text),
      ("L".text, "0/4".text)]
    let marked : Fields := fields ++ [("Q".text, "1/4=120".text)]
    ofFields marked = .error .zeroLength ∧
      ¬((∃ h, ofFields marked = .ok h) ∨
        ∃ e r, ofFields marked = .error e ∧ HeaderError.refusal? e = some r) ∧
      ∃ h, ofFields (("M".text, "0/4".text) :: fields) = .ok h ∧ h.meter = 0 ∧ h.length = 0 := by
  intro fields marked
  have hdivided : ofFields marked = .error .zeroLength := rfl
  refine ⟨hdivided, ?_, ?_⟩
  · rw [hdivided]
    rintro (⟨h, hh⟩ | ⟨e, r, he, hr⟩)
    · cases hh
    · cases he
      cases hr
  · have hresolved : (ofFields (("M".text, "0/4".text) :: fields)).toOption.any fun h =>
        h.meter = 0 ∧ h.length = 0 := by
      decide +kernel
    obtain ⟨h, hh, hzero⟩ := (Option.any_eq_true _ _).1 hresolved
    exact ⟨h, toOption_eq_some.1 hh, of_decide_eq_true hzero⟩

end Header

end SingAlong
