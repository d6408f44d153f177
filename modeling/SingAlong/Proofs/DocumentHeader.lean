import SingAlong.Proofs.Alteration
import SingAlong.Proofs.Resolution
import SingAlong.Proofs.TreeShape

/-!
# The header of a tune that is read

The fields of a header are collected letter by letter. The last field of a letter counts, apart from
voice fields, whose values are joined by newlines and taken apart again when the header is resolved.
So a header is resolved from the last values of its fields and from all values of its voice fields
(`Header.ofFields_readTune`).
-/

namespace SingAlong

/-! ## Lines and blanks -/

namespace Text

/-- A newline separates the lines before it from those after it. -/
theorem lines_append (t u : Text) : lines (t ++ ('\n' : CodePoint) :: u) = lines t ++ lines u := by
  induction t with
  | nil => rfl
  | cons c t ih =>
    rw [List.cons_append, lines, lines, ih]
    split_ifs
    · rfl
    · obtain ⟨line, others, hlines⟩ := List.exists_cons_of_ne_nil (lines_ne_nil t)
      rw [hlines]
      rfl

/-- A text without newlines is one line. -/
theorem lines_of_inLine {t : Text} (h : t.all inLine) : lines t = [t] := by
  induction t with
  | nil => rfl
  | cons c t ih =>
    rw [List.all_cons, Bool.and_eq_true] at h
    have hc : c ≠ '\n' := bne_iff_ne.1 h.1
    rw [lines, if_neg hc, ih h.2]

/-- A text that is trimmed has no blanks at its ends. -/
theorem trim_trim (t : Text) : trim (trim t) = trim t := by
  have hend : trimEnd (trim t) = trim t := List.rdropWhile_idempotent isBlank (trimStart t)
  have hstart : trimStart (trim t) = trim t := by
    unfold trim
    -- The first character is not blank, so the blanks that are dropped at the end come after it.
    cases hfront : trimStart t with
    | nil => rfl
    | cons c rest =>
      have hc := Rule.head_dropWhile (p := isBlank) (t := t) c
        (by rw [show t.dropWhile isBlank = c :: rest from hfront]; rfl)
      rw [show trimEnd (c :: rest) = c :: trimEnd rest from trimEnd_cons hc [] rest]
      exact List.dropWhile_cons_of_neg (Bool.eq_false_iff.1 hc)
  rw [trim, hstart, hend]

/-- The characters of a trimmed text are in the text. -/
theorem trim_subset (t : Text) : trim t ⊆ t :=
  List.Subset.trans (List.rdropWhile_prefix isBlank (trimStart t)).subset
    (List.dropWhile_subset isBlank)

end Text

/-! ## Collecting fields -/

namespace Fields

/-- The value of a field that is set again. -/
def joined (letter : Text) (old : Option Text) (value : Text) : Text :=
  if letter = "V".text then old.elim value fun t => t ++ "\n".text ++ value else value

/-- Setting a field changes that field only. -/
theorem lookup_put (letter value k : Text) (fields : Fields) :
    (put letter value fields).lookup k =
      if k = letter then some (joined letter (fields.lookup letter) value)
      else fields.lookup k := by
  induction fields with
  | nil =>
    unfold put joined
    rw [lookup_cons, List.lookup_nil, List.lookup_nil]
    split_ifs <;> rfl
  | cons field fields ih =>
    unfold put
    by_cases h : field.1 = letter
    · -- The field is found, and its new value stands in its place.
      rw [if_pos h, lookup_cons, lookup_cons, lookup_cons, if_pos h.symm, h]
      by_cases hk : k = letter
      · rw [if_pos hk, if_pos hk]
        unfold joined
        split_ifs <;> rfl
      · rw [if_neg hk, if_neg hk, if_neg hk]
    · rw [if_neg h, lookup_cons, lookup_cons, lookup_cons, if_neg (Ne.symm h), ih]
      split_ifs with h1 h2
      · exact absurd (h1.symm.trans h2) h
      · rfl
      · rfl
      · rfl

/-- The values of a letter among fields. -/
def valuesOf (letter : Text) (pairs : List (Text × Text)) : List Text :=
  (pairs.filter fun field => field.1 = letter).map Prod.snd

/-- A field that is collected is joined from its values one after the other. -/
theorem lookup_collected (k : Text) (pairs : List (Text × Text)) (fields : Fields) :
    (pairs.foldl (fun fields field => put field.1 field.2 fields) fields).lookup k =
      (valuesOf k pairs).foldl (fun old value => some (joined k old value)) (fields.lookup k) := by
  induction pairs generalizing fields with
  | nil => rfl
  | cons field pairs ih =>
    rw [List.foldl_cons, ih, lookup_put, valuesOf, valuesOf, List.filter_cons]
    by_cases h : field.1 = k
    · rw [if_pos h.symm, if_pos (decide_eq_true h), List.map_cons, List.foldl_cons, h]
    · rw [if_neg (Ne.symm h), if_neg (by simpa using h)]

/-- The last value of a field counts, unless it is a voice field. -/
theorem foldl_joined {letter : Text} (h : letter ≠ "V".text) (values : List Text)
    (old : Option Text) :
    values.foldl (fun old value => some (joined letter old value)) old =
      values.getLast?.or old := by
  induction values generalizing old with
  | nil => rfl
  | cons value values ih =>
    rw [List.foldl_cons, ih, List.getLast?_cons, joined, if_neg h]
    cases values.getLast? <;> rfl

/-- The values of voice fields are joined as lines. -/
theorem foldl_joined_voices (values : List Text) (old : Option Text) :
    ((values.foldl (fun old value => some (joined "V".text old value)) old).map Text.lines).getD
      [] = (old.map Text.lines).getD [] ++ values.flatMap Text.lines := by
  induction values generalizing old with
  | nil => exact (List.append_nil _).symm
  | cons value values ih =>
    rw [List.foldl_cons, ih, List.flatMap_cons, ← List.append_assoc, joined, if_pos rfl]
    cases old with
    | none => rfl
    | some t =>
      have hlines := Text.lines_append t value
      simp only [Option.map_some, Option.getD_some, Option.elim_some]
      rw [List.append_assoc, show "\n".text ++ value = ('\n' : CodePoint) :: value from rfl, hlines]

end Fields

/-! ## The fields of a node -/

namespace Node

variable {n : Node} {fields : Fields} {pairs : List (Text × Text)}

/-- The values of the fields of a letter, in order. -/
def fieldValues (n : Node) (letter : Char) : List Text :=
  (n.children.filterMap fun child => child.label.fieldText?).filterMap fun t =>
    if Field.code? t = some (letter : CodePoint) then some (Field.value t) else none

/-- They are those among all fields. -/
theorem valuesOf_fields (h : n.fields = .ok pairs) (letter : Char) :
    Fields.valuesOf [letter] pairs = n.fieldValues letter := by
  have hall := mapM_eq_ok.1 h
  clear h
  unfold fieldValues Fields.valuesOf
  generalize n.children.filterMap (fun child => child.label.fieldText?) = texts at hall
  induction hall with
  | nil => rfl
  | @cons t field texts pairs hfield _ ih =>
    rw [List.filterMap_cons, ← ih, List.filter_cons]
    cases hcode : Field.code? t with
    | none =>
      rw [hcode] at hfield
      cases hfield
    | some c =>
      rw [hcode] at hfield
      cases hfield
      by_cases hc : c = (letter : CodePoint)
      · rw [hc]
        simp
      · simp [hc]

/-- The last value of a letter is kept in the header fields. -/
theorem get?_headerFields (h : n.headerFields = .ok fields) {letter : Char}
    (hletter : letter ≠ 'V') : fields.get? letter = (n.fieldValues letter).getLast? := by
  obtain ⟨pairs, hpairs, h⟩ := bind_eq_ok.1 h
  cases h
  have hne : [(letter : CodePoint)] ≠ "V".text := fun h => hletter (by simpa [String.text] using h)
  unfold Fields.get?
  rw [Fields.lookup_collected, Fields.foldl_joined hne, List.lookup_nil, Option.or_none,
    valuesOf_fields hpairs]

/-- The lines of the voice field are those of all values. -/
theorem lines_headerFields (h : n.headerFields = .ok fields) :
    ((fields.get? 'V').map Text.lines).getD [] = (n.fieldValues 'V').flatMap Text.lines := by
  obtain ⟨pairs, hpairs, h⟩ := bind_eq_ok.1 h
  cases h
  unfold Fields.get?
  rw [Fields.lookup_collected, ← valuesOf_fields hpairs]
  exact Fields.foldl_joined_voices _ none

end Node

/-! ## The header of a source -/

/-- The parts of a document are found by their kinds, whatever their places. -/
theorem Node.first?_unplaced (n : Node) (k : Kind) :
    n.unplaced.first? k = (n.first? k).map Node.unplaced := by
  unfold first? kind
  rw [children_unplaced, List.find?_map]
  congr 2
  exact funext fun m => by rw [Function.comp_apply, label_unplaced]

/-- The fields of the header of a score are written with their letters and values. -/
theorem exists_written {header : Node} {s : Score} (h : header.unplaced = s.header) {n : Node}
    (hn : n ∈ header.children) {t : Text} (ht : n.label.fieldText? = some t) :
    ∃ (letter : CodePoint) (v : Score.Value), t = Field.written letter v.text := by
  have hnode := List.mem_map_of_mem (f := Node.unplaced) hn
  rw [← header.children_unplaced, h] at hnode
  rw [← n.label_unplaced] at ht
  -- It is one of the entries before the key, where comments have no field text, or the key.
  rcases List.mem_append.1 hnode with hnode | hnode
  · obtain ⟨e, -, he⟩ := List.mem_map.1 hnode
    rw [← he] at ht
    cases e with
    | field f =>
      cases ht
      exact ⟨f.letter, f.value, rfl⟩
    | comment c => cases ht
  · obtain ⟨v, -, hv⟩ := Option.map_eq_some_iff.1 (Option.mem_toList.1 hnode)
    rw [← hv] at ht
    cases ht
    exact ⟨'K', v, rfl⟩

/-- So they can be read. -/
theorem exists_headerFields {header : Node} {s : Score} (h : header.unplaced = s.header) :
    ∃ fields, header.headerFields = .ok fields := by
  have hfields : ∃ fields, header.fields = .ok fields := by
    refine exists_mapM.2 fun t ht => ?_
    obtain ⟨n, hn, ht⟩ := List.mem_filterMap.1 ht
    obtain ⟨letter, v, rfl⟩ := exists_written h hn ht
    exact ⟨_, rfl⟩
  obtain ⟨fields, hfields⟩ := hfields
  exact ⟨_, bind_eq_ok.2 ⟨fields, hfields, rfl⟩⟩

/-- The values of the fields of the header of a score are single lines, without blanks around
them. -/
theorem fieldValues_trimmed {header : Node} {s : Score} (h : header.unplaced = s.header)
    (letter : Char) : ∀ t ∈ header.fieldValues letter, t.all Text.inLine ∧ Text.trim t = t := by
  intro t ht
  obtain ⟨text, htext, hvalue⟩ := List.mem_filterMap.1 ht
  obtain ⟨n, hn, htext⟩ := List.mem_filterMap.1 htext
  obtain ⟨l, v, rfl⟩ := exists_written h hn htext
  split_ifs at hvalue
  obtain rfl := Option.some.inj hvalue
  refine ⟨List.all_eq_true.2 fun c hc => ?_, Text.trim_trim _⟩
  exact (Bool.and_eq_true_iff.1 (List.all_eq_true.1 v.inField c (Text.trim_subset _ hc))).1

/-- A tune that is read has the header of a score. -/
theorem exists_header {source : Text} {document : Node} (h : readTune source = .ok document) :
    ∃ (header : Node) (s : Score), document.first? .header = some header ∧
      header.unplaced = s.header := by
  obtain ⟨s, hs, -⟩ := readTune_score (L := fun _ => True) h fun _ _ _ => trivial
  have hheader : (document.first? .header).map Node.unplaced = some s.header := by
    rw [← document.first?_unplaced, hs]
    rfl
  obtain ⟨header, hheader, hscore⟩ := Option.map_eq_some_iff.1 hheader
  exact ⟨header, s, hheader, hscore⟩

/-! ## Resolving the header of a source -/

namespace Header

/-- The voices of a tune: the values of its voice fields, or the default voice if there are
none. -/
def voicesOf (values : List Text) : List Text :=
  if values = [] then [defaultVoice] else values

/-- The voices that are resolved are the values of the voice fields. -/
theorem voices_headerFields {header : Node} {fields : Fields}
    (h : header.headerFields = .ok fields)
    (hvalues : ∀ t ∈ header.fieldValues 'V', t.all Text.inLine ∧ Text.trim t = t) :
    (Text.lines ((fields.get? 'V').getD defaultVoice)).map Text.trim =
      voicesOf (header.fieldValues 'V') := by
  have hlines := Node.lines_headerFields h
  have hsingle : (header.fieldValues 'V').flatMap Text.lines = header.fieldValues 'V' := by
    rw [List.flatMap_congr (g := fun t => [t]) fun t ht => Text.lines_of_inLine (hvalues t ht).1]
    exact List.flatMap_singleton' _
  rw [hsingle] at hlines
  unfold voicesOf
  cases hv : fields.get? 'V' with
  | none =>
    rw [hv] at hlines
    have hnone : header.fieldValues 'V' = [] := hlines.symm
    rw [if_pos hnone]
    decide +kernel
  | some t =>
    rw [hv] at hlines
    have hjoined : Text.lines t = header.fieldValues 'V' := hlines
    rw [if_neg (hjoined ▸ Text.lines_ne_nil t), Option.getD_some, hjoined]
    exact (List.map_congr_left fun u hu => (hvalues u hu).2).trans (List.map_id _)

section

variable {value value' : Char → Option Text}
  (h : ∀ letter, letter ≠ 'V' → value letter = value' letter)

include h

/-- A header is not refused for what its voice fields say. -/
theorem Meets.congr (r : Refusal) : Meets value r ↔ Meets value' r := by
  cases r <;> simp only [Meets, h 'X' (by decide), h 'T' (by decide), h 'K' (by decide),
    h 'M' (by decide), h 'L' (by decide), h 'Q' (by decide)]

/-- The voice fields say nothing about the length. -/
theorem CountsZero.congr : CountsZero value ↔ CountsZero value' := by
  simp only [CountsZero, h 'L' (by decide), h 'Q' (by decide)]

/-- Only the voices are resolved from the voice fields. -/
theorem ResolvesTo.congr {voices : List Text} {resolved : Header}
    (hresolved : ResolvesTo value voices resolved) : ResolvesTo value' voices resolved where
  index := h 'X' (by decide) ▸ hresolved.index
  title := h 'T' (by decide) ▸ hresolved.title
  titled := hresolved.titled
  key := h 'K' (by decide) ▸ hresolved.key
  composer := h 'C' (by decide) ▸ hresolved.composer
  meter := h 'M' (by decide) ▸ hresolved.meter
  length := h 'L' (by decide) ▸ hresolved.length
  tempo := h 'Q' (by decide) ▸ hresolved.tempo
  voices := hresolved.voices

end

/-- The header of a tune that is read can be resolved if and only if the last fields of the letters
give no reason to refuse it, and the tempo is not counted in lengths of zero. It is resolved to what
the last fields say, with the values of all voice fields as the voices. -/
theorem ofFields_readTune {source : Text} {document header : Node}
    (h : readTune source = .ok document) (hheader : document.first? .header = some header) :
    ∃ fields, header.headerFields = .ok fields ∧
      (let value letter := (header.fieldValues letter).getLast?
      ((∃ resolved, ofFields fields = .ok resolved) ↔
          (∀ r, Meets value r) ∧ ¬CountsZero value) ∧
        ∀ resolved, ofFields fields = .ok resolved →
          ResolvesTo value (voicesOf (header.fieldValues 'V')) resolved) ∧
      ∀ letter, ∀ t ∈ header.fieldValues letter, t.all Text.inLine ∧ Text.trim t = t := by
  obtain ⟨header', s, hheader', hscore⟩ := exists_header h
  obtain rfl := Option.some.inj (hheader.symm.trans hheader')
  obtain ⟨fields, hfields⟩ := exists_headerFields hscore
  have hvalues := fieldValues_trimmed hscore
  have hlast : ∀ letter, letter ≠ 'V' →
      fields.get? letter = (header.fieldValues letter).getLast? :=
    fun letter hletter => Node.get?_headerFields hfields hletter
  refine ⟨fields, hfields, ⟨?_, fun resolved hresolved => ?_⟩, hvalues⟩
  · rw [exists_ofFields_iff, CountsZero.congr hlast]
    simp only [Meets.congr hlast]
  · have hh := resolvesTo_ofFields hresolved
    rw [voices_headerFields hfields (hvalues 'V')] at hh
    exact hh.congr hlast

/-- A tune with several fields of a letter, two voices, and blanks in its fields. -/
def overridden : Text :=
  "X:one\nX:2\nT:a\nT:b\nM:3/8\nM:2/4\nV:low\nL: 1 / 8\nQ:1/4 = 120 \nV: high\nK: Am \nCDE".text

/-- The last fields count, and both voices. -/
theorem ofFields_readTune_overridden : ∃ document header fields resolved,
    readTune overridden = .ok document ∧ document.first? .header = some header ∧
      header.headerFields = .ok fields ∧ ofFields fields = .ok resolved ∧
      ResolvesTo (fun letter => (header.fieldValues letter).getLast?)
        ["low".text, "high".text] resolved := by
  have hread : (readTune overridden).toOption.any fun document =>
      (document.first? .header).any fun header =>
        voicesOf (header.fieldValues 'V') = ["low".text, "high".text] ∧
        header.headerFields.toOption.any fun fields => (ofFields fields).toOption.isSome := by
    decide +kernel
  obtain ⟨document, hdocument, hread⟩ := (Option.any_eq_true _ _).1 hread
  have hok := toOption_eq_some.1 hdocument
  obtain ⟨header, hheader, hread⟩ := (Option.any_eq_true _ _).1 hread
  obtain ⟨hvoices, hread⟩ := of_decide_eq_true hread
  obtain ⟨fields, hfields, ⟨-, hresolves⟩, -⟩ := ofFields_readTune hok hheader
  rw [hfields] at hread
  obtain ⟨resolved, hresolved⟩ := Option.isSome_iff_exists.1 hread
  have hresolved := toOption_eq_some.1 hresolved
  refine ⟨document, header, fields, resolved, hok, hheader, hfields, hresolved, ?_⟩
  rw [← hvoices]
  exact hresolves resolved hresolved

end Header

end SingAlong
