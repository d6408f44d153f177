import SingAlong.Proofs.DocumentHeader
import SingAlong.Proofs.LengthTexts
import SingAlong.Proofs.TrailingBlanks
import SingAlong.Proofs.TreeShape
import SingAlong.Proofs.Voices

/-!
# When a tune that is read can be compiled

Once the fields of its header are resolved, a tune that is read is compiled to a song unless a
length in its body divides by zero; then it fails for such a length, and for nothing else
(`Song.ofDocument_readTune`).

`OkUnless` says this of one stage: it has a result of some kind when none of the given lengths
divides by zero, and fails for one that does otherwise. Stages that follow each other are joined by
`OkUnless.bind` and `Compiling.OkUnless.bind`. From notes and rests it is carried to chords and
tuplets, whose members fit because the tree is that of a score, and on to voices, whose lyrics can
always be aligned and displayed.
-/

namespace SingAlong

open Score (Suffix Note Chord Member Element Part)
open Music (IsMember IsCompiled)

/-! ## Length suffixes -/

/-- A length suffix that divides by zero: digits are written after its slash, and they are the
number zero. -/
def DividesByZero (t : Text) : Prop :=
  ∃ num den : Text, num.all isDigit ∧ den.all isDigit ∧ t = num ++ (('/' : CodePoint) :: den) ∧
    den ≠ [] ∧ Text.numeral den = 0

section Digits

variable {num den : Text}

/-- The parts of a length suffix without a slash. -/
theorem LengthSuffix.ofText?_digits (h : num.all isDigit) :
    ofText? num = some ⟨num, false, []⟩ :=
  ofText?_eq_some.2 (.single (Text.isSide_self h))

/-- The parts of a length suffix with a slash. -/
theorem LengthSuffix.ofText?_slash (hnum : num.all isDigit) (hden : den.all isDigit) :
    ofText? (num ++ (('/' : CodePoint) :: den)) = some ⟨num, true, den⟩ :=
  ofText?_eq_some.2 (.slash (Text.isSide_self hnum) (Text.isSide_self hden))

end Digits

namespace LengthSuffix

variable {s : LengthSuffix}

/-- The factor of a length suffix is not negative. -/
theorem factor?_nonneg {q : Rat} (h : s.factor? = some q) : 0 ≤ q := by
  unfold factor? at h
  dsimp only at h
  split_ifs at h
  all_goals
    obtain rfl := Option.some.inj h
    first
    | exact Rat.mkRat_nonneg (Int.natCast_nonneg _) _
    | exact Nat.cast_nonneg _

/-- There is no factor when a zero is written after the slash. -/
theorem factor?_eq_none_iff : s.factor? = none ↔
    s.slash = true ∧ s.denominator ≠ [] ∧ Text.numeral s.denominator = 0 := by
  unfold factor?
  by_cases hslash : s.slash
  · by_cases hden : s.denominator = []
    · simp [hslash, hden]
    · simp [hslash, hden]
  · simp [hslash]

end LengthSuffix

/-- A length suffix that divides by zero is not read. -/
theorem readSuffix_of_dividesByZero {t : Text} (h : DividesByZero t) :
    readSuffix t = .error (.zeroDenominator t) := by
  obtain ⟨num, den, hnum, hden, rfl, hzero⟩ := h
  unfold readSuffix
  rw [LengthSuffix.ofText?_slash hnum hden]
  dsimp only
  rw [LengthSuffix.factor?_eq_none_iff.2 ⟨rfl, hzero⟩]

/-- The other length suffixes of a score are read as a factor that is not negative. -/
theorem Score.Suffix.readSuffix_exists (s : Suffix) (h : ¬DividesByZero s.text) :
    ∃ q, readSuffix s.text = .ok q ∧ 0 ≤ q := by
  obtain ⟨parts, hparts, hfactor⟩ : ∃ parts, LengthSuffix.ofText? s.text = .some parts ∧
      parts.factor? ≠ .none := by
    rcases s.isLength with htext | ⟨-, num, den, hnum, hden, htext | htext⟩
    all_goals rw [htext]
    · exact ⟨⟨[], false, []⟩, LengthSuffix.ofText?_digits rfl, nofun⟩
    · exact ⟨⟨num, false, []⟩, LengthSuffix.ofText?_digits hnum, nofun⟩
    · refine ⟨_, LengthSuffix.ofText?_slash hnum hden, fun hnone => h ?_⟩
      exact ⟨num, den, hnum, hden, htext, (LengthSuffix.factor?_eq_none_iff.1 hnone).2⟩
  obtain ⟨q, hq⟩ := Option.ne_none_iff_exists'.1 hfactor
  refine ⟨q, ?_, LengthSuffix.factor?_nonneg hq⟩
  unfold readSuffix
  rw [hparts]
  dsimp only
  rw [hq]

/-! ## Stages that fail for lengths only -/

/-- A stage has a result of some kind, unless one of the lengths divides by zero: then it fails for
one that does. -/
def OkUnless {α : Type} (lengths : List Text) (P : α → Prop) (x : Except CompileError α) : Prop :=
  (∀ t ∈ lengths, ¬DividesByZero t) ∧ (∃ a, x = .ok a ∧ P a) ∨
    ∃ t ∈ lengths, DividesByZero t ∧ x = .error (.length (.zeroDenominator t))

/-- A step of compiling has a result of some kind, with any accidentals, unless one of the lengths
divides by zero: then it fails for one that does. -/
def Compiling.OkUnless {α : Type} (lengths : List Text) (P : α → Prop) (x : Compiling α) : Prop :=
  ∀ table, (∀ t ∈ lengths, ¬DividesByZero t) ∧ (∃ a table', x table = .ok a table' ∧ P a) ∨
    ∃ t ∈ lengths, DividesByZero t ∧ ∃ table', x table = .error (.length (.zeroDenominator t)) table'

section Stages

variable {α β : Type} {lengths more : List Text} {P : α → Prop} {Q : β → Prop}

/-- A stage that succeeds at all events. -/
theorem OkUnless.ok {x : Except CompileError α} {a : α} (hx : x = .ok a) (ha : P a) :
    OkUnless [] P x :=
  .inl ⟨nofun, a, hx, ha⟩

/-- A stage after another fails for the lengths of both. -/
theorem OkUnless.bind {x : Except CompileError α} {f : α → Except CompileError β}
    (hx : OkUnless lengths P x) (hf : ∀ a, P a → OkUnless more Q (f a)) :
    OkUnless (lengths ++ more) Q (x >>= f) := by
  rcases hx with ⟨hlengths, a, rfl, ha⟩ | ⟨t, ht, hzero, rfl⟩
  · rcases hf a ha with ⟨hmore, hb⟩ | ⟨t, ht, hzero, hb⟩
    · exact .inl ⟨List.forall_mem_append.2 ⟨hlengths, hmore⟩, hb⟩
    · exact .inr ⟨t, List.mem_append_right _ ht, hzero, hb⟩
  · exact .inr ⟨t, List.mem_append_left _ ht, hzero, rfl⟩

/-- A stage that builds its result from that of another fails when the other does. -/
theorem OkUnless.map {x : Except CompileError α} {f : α → Except CompileError β}
    (hx : OkUnless lengths P x) (hf : ∀ a, P a → OkUnless [] Q (f a)) :
    OkUnless lengths Q (x >>= f) := by
  have h := hx.bind hf
  rwa [List.append_nil] at h

/-- What a stage fails for depends on which lengths there are. -/
theorem OkUnless.congr {x : Except CompileError α} (hx : OkUnless lengths P x)
    (h : ∀ t, t ∈ lengths ↔ t ∈ more) : OkUnless more P x := by
  unfold OkUnless at hx ⊢
  simpa only [h] using hx

/-- A stage for each entry of a list fails for the lengths of all of them. -/
theorem OkUnless.mapM {texts : α → List Text} {f : α → Except CompileError β} {xs : List α}
    (hf : ∀ x ∈ xs, OkUnless (texts x) (fun _ => True) (f x)) :
    OkUnless (xs.flatMap texts) (fun _ => True) (xs.mapM f) := by
  induction xs with
  | nil => exact .ok rfl trivial
  | cons x xs ih =>
    obtain ⟨hx, hxs⟩ := List.forall_mem_cons.1 hf
    rw [List.mapM_cons, List.flatMap_cons]
    exact hx.bind fun y _ => (ih hxs).map fun ys _ => .ok rfl trivial

namespace Compiling

/-- A step that succeeds at all events. -/
theorem OkUnless.ok {x : Compiling α} {a : α} (hx : ∀ table, ∃ table', x table = .ok a table')
    (ha : P a) : OkUnless [] P x :=
  fun table => .inl ⟨nofun, a, (hx table).imp fun _ h => ⟨h, ha⟩⟩

/-- A step after another fails for the lengths of both. -/
theorem OkUnless.bind {x : Compiling α} {f : α → Compiling β} (hx : OkUnless lengths P x)
    (hf : ∀ a, P a → OkUnless more Q (f a)) : OkUnless (lengths ++ more) Q (x >>= f) := by
  intro table
  have hbind : (x >>= f) table = EStateM.bind x f table := rfl
  rw [hbind, EStateM.bind]
  rcases hx table with ⟨hlengths, a, table₁, hx, ha⟩ | ⟨t, ht, hzero, table₁, hx⟩
  · rw [hx]
    rcases hf a ha table₁ with ⟨hmore, hb⟩ | ⟨t, ht, hzero, hb⟩
    · exact .inl ⟨List.forall_mem_append.2 ⟨hlengths, hmore⟩, hb⟩
    · exact .inr ⟨t, List.mem_append_right _ ht, hzero, hb⟩
  · rw [hx]
    exact .inr ⟨t, List.mem_append_left _ ht, hzero, table₁, rfl⟩

/-- A step that builds its result from that of another fails when the other does. -/
theorem OkUnless.map {x : Compiling α} {f : α → Compiling β} (hx : OkUnless lengths P x)
    (hf : ∀ a, P a → OkUnless [] Q (f a)) : OkUnless lengths Q (x >>= f) := by
  have h := hx.bind hf
  rwa [List.append_nil] at h

end Compiling

end Stages

/-! ## The lengths of a tree -/

/-- The text of a length suffix. -/
def Label.suffix? : Label → Option Text
  | length t => some t
  | _ => none

namespace Node

/-- The length suffixes in a tree, in document order. -/
def lengths (n : Node) : List Text :=
  (n :: n.descendants).filterMap fun m => m.label.suffix?

/-- The length suffixes in an element are its own and those in its children. -/
theorem lengths_mk (l : Label) (s t : Option Span) (ns : List Node) :
    (mk l s t ns).lengths = l.suffix?.toList ++ ns.flatMap lengths := by
  have hbelow : (mk l s t ns).descendants = ns.flatMap fun n => n :: n.descendants := by
    rw [descendants, descendantsAll_eq_flatMap]
  unfold lengths
  rw [hbelow, List.filterMap_cons, List.filterMap_flatMap]
  cases h : l.suffix? <;> simp [label, h]

/-- So they are in an element that was not read from a source. -/
theorem lengths_unread (l : Label) (ns : List Node) :
    (unread l ns).lengths = l.suffix?.toList ++ ns.flatMap lengths :=
  lengths_mk l none none ns

/-- The places of a tree do not matter. -/
theorem lengths_unplaced (n : Node) : n.unplaced.lengths = n.lengths := by
  unfold lengths
  rw [descendants_unplaced, ← List.map_cons, List.filterMap_map]
  exact List.filterMap_congr fun m _ => congrArg Label.suffix? m.label_unplaced

end Node

namespace Score

/-- The length suffix in a note or rest, if it has one. -/
def Suffix.lengths (s : Suffix) : List Text :=
  if s.text.isEmpty then [] else [s.text]

/-- The length suffix in the children that a suffix makes. -/
theorem Suffix.lengths_nodes (s : Suffix) : s.nodes.flatMap Node.lengths = s.lengths := by
  unfold nodes lengths
  split_ifs <;> rfl

/-- The length suffix in a rest. -/
theorem Suffix.lengths_rest (s : Suffix) : s.rest.lengths = s.lengths := by
  rw [rest, Node.lengths_unread, s.lengths_nodes]
  rfl

/-- The length suffix in a note. -/
theorem Note.lengths_node (n : Note) : n.node.lengths = n.suffix.lengths := by
  rw [node, Node.lengths_unread, marks, List.flatMap_append, List.flatMap_append,
    n.suffix.lengths_nodes]
  cases n.accidental <;> cases n.octaves <;> rfl

/-- The text of the length suffix of a rest. -/
theorem Suffix.lengthText_rest (s : Suffix) : s.rest.lengthText = s.text := by
  unfold Node.lengthText rest nodes
  cases h : s.text <;> rfl

/-- The accidental in the node of a note. -/
theorem Note.accidental?_node (n : Note) : n.node.accidental? = n.accidental := by
  unfold Node.accidental? node marks Suffix.nodes
  cases n.accidental <;> cases n.octaves <;> cases n.suffix.text <;> rfl

/-- The octave marks in the node of a note. -/
theorem Note.octaveShift_node (n : Note) :
    n.node.octaveShift = OctaveMark.shift n.octaves := by
  unfold Node.octaveShift node marks Suffix.nodes
  cases n.accidental <;> cases n.octaves <;> cases n.suffix.text <;> rfl

/-- The text of the length suffix of a note. -/
theorem Note.lengthText_node (n : Note) : n.node.lengthText = n.suffix.text := by
  unfold Node.lengthText node marks Suffix.nodes
  cases n.accidental <;> cases n.octaves <;> cases h : n.suffix.text <;> rfl

end Score

/-! ## Compiling the elements of a score -/

namespace Compiler

variable {c : Compiler}

/-- A step that can be lifted. -/
theorem okUnless_lift {ε α : Type} {f : ε → CompileError} {x : Except ε α} {a : α} {P : α → Prop}
    (hx : x = .ok a) (ha : P a) : Compiling.OkUnless [] P (lift f x) := by
  subst hx
  exact .ok (fun table => ⟨table, rfl⟩) ha

/-- The length of a note or rest is read unless it divides by zero. -/
theorem okUnless_length (hc : 0 ≤ c.header.length) {n : Node} {s : Suffix}
    (hn : n.lengthText = s.text) :
    Compiling.OkUnless s.lengths (fun l => 0 ≤ l.value ∧ l.isFraction) (c.length n) := by
  unfold length
  rw [hn]
  refine .map (P := (0 ≤ ·)) ?_ fun factor hfactor => ?_
  · -- Without a suffix the text is empty, which does not divide by zero.
    by_cases hzero : DividesByZero s.text
    · have hne : s.text.isEmpty = false := by
        obtain ⟨num, den, -, -, htext, -⟩ := hzero
        rw [htext]
        cases num <;> rfl
      intro table
      refine .inr ⟨s.text, ?_, hzero, table, ?_⟩
      · rw [Suffix.lengths, hne]
        exact List.mem_singleton_self _
      · rw [readSuffix_of_dividesByZero hzero]
        rfl
    · obtain ⟨q, hq, hnonneg⟩ := s.readSuffix_exists hzero
      intro table
      refine .inl ⟨fun t ht => ?_, q, table, ?_, hnonneg⟩
      · unfold Suffix.lengths at ht
        split_ifs at ht
        · cases ht
        · rwa [List.mem_singleton.1 ht]
      · rw [hq]
        rfl
  · exact .ok (fun table => ⟨table, rfl⟩) ⟨mul_nonneg hfactor hc, rfl⟩

/-- A length that is not negative is accepted. -/
theorem checkLength_of_nonneg {l : Length} (h : 0 ≤ l.value) : Music.checkLength l = .ok () :=
  if_neg (not_lt.2 h)

/-- A note is compiled unless its length divides by zero. -/
theorem okUnless_note (hc : 0 ≤ c.header.length) (n : Note) :
    Compiling.OkUnless n.node.lengths IsMember (c.compile n.node) := by
  rw [n.lengths_node]
  have hsound : Compiling.OkUnless n.suffix.lengths IsMember (c.sound n.name n.node) := by
    intro table
    -- The table only tells the pitch.
    refine (okUnless_length hc n.lengthText_node).map (fun l hl => ?_) table
    refine okUnless_lift (bind_eq_ok.2 ⟨(), checkLength_of_nonneg hl.1, rfl⟩) ⟨rfl, hl⟩
  have hcompile : c.compile n.node = c.note n.name n.node := by
    unfold Note.node Node.unread compile
    rfl
  intro table
  rw [hcompile]
  cases ha : n.node.accidental? with
  | none =>
    rw [note_plain ha]
    exact hsound table
  | some a =>
    rw [note_accidental ha]
    exact hsound _

/-- A rest is compiled unless its length divides by zero. -/
theorem okUnless_rest (hc : 0 ≤ c.header.length) (s : Suffix) :
    Compiling.OkUnless s.rest.lengths IsCompiled (c.compile s.rest) := by
  rw [s.lengths_rest]
  have hcompile : c.compile s.rest = c.rest s.rest := by
    unfold Suffix.rest Node.unread compile
    rfl
  rw [hcompile]
  refine (okUnless_length hc s.lengthText_rest).map fun l hl => ?_
  exact okUnless_lift (bind_eq_ok.2 ⟨(), checkLength_of_nonneg hl.1, rfl⟩) ⟨rfl, hl.1⟩

/-- The elements of a list are compiled unless one of their lengths divides by zero. -/
theorem okUnless_compileAll {P : Music → Prop} {ns : List Node}
    (hns : ∀ n ∈ ns, Compiling.OkUnless n.lengths P (c.compile n)) :
    Compiling.OkUnless (ns.flatMap Node.lengths)
      (fun ms => ms.length = ns.length ∧ ∀ m ∈ ms, P m) (c.compileAll ns) := by
  induction ns with
  | nil =>
    unfold compileAll
    exact .ok (fun table => ⟨table, rfl⟩) ⟨rfl, List.forall_mem_nil P⟩
  | cons n ns ih =>
    obtain ⟨hn, hns⟩ := List.forall_mem_cons.1 hns
    unfold compileAll
    rw [List.flatMap_cons]
    refine hn.bind fun m hm => (ih hns).map fun ms hms => ?_
    exact .ok (fun table => ⟨table, rfl⟩)
      ⟨congrArg Nat.succ hms.1, List.forall_mem_cons.2 ⟨hm, hms.2⟩⟩

/-- A note or chord can be part of a chord, and of a tuplet. -/
theorem fits_of_isMember {m : Music} (h : m.IsMember) : m.fitsChord ∧ m.fitsTuplet := by
  obtain ⟨hstretchable, -⟩ := h
  cases m <;> first | exact ⟨rfl, rfl⟩ | cases hstretchable

/-- A chord is compiled unless a length in it divides by zero. -/
theorem okUnless_chord (hc : 0 ≤ c.header.length) (chord : Chord) :
    Compiling.OkUnless chord.node.lengths IsMember (c.compile chord.node) := by
  have hnotes := okUnless_compileAll (c := c) (P := IsMember)
    (List.forall_mem_map.2 fun n (_ : n ∈ chord.notes) => okUnless_note hc n)
  rw [Chord.node, Node.lengths_unread]
  unfold Node.unread compile
  refine hnotes.map fun ms hms => ?_
  have hne : ms ≠ [] := by
    rw [← List.length_pos_iff, hms.1, List.length_map, List.length_pos_iff]
    exact chord.nonempty
  refine okUnless_lift (a := .chord ms) ?_ (Music.isMember_chord hne hms.2)
  have hfits : ms.find? (fun m => !m.fitsChord) = none :=
    List.find?_eq_none.2 fun m hm => by simp [(fits_of_isMember (hms.2 m hm)).1]
  unfold Music.mkChord
  rw [List.isEmpty_eq_false_iff.2 hne, hfits]
  rfl

/-- A member of a tuplet is compiled unless a length in it divides by zero. -/
theorem okUnless_member (hc : 0 ≤ c.header.length) (member : Member) :
    Compiling.OkUnless member.node.lengths IsMember (c.compile member.node) := by
  cases member with
  | note n => exact okUnless_note hc n
  | chord chord => exact okUnless_chord hc chord

/-- An element of a line is compiled unless a length in it divides by zero. -/
theorem okUnless_element (hc : 0 ≤ c.header.length) (e : Element) :
    Compiling.OkUnless e.node.lengths IsCompiled (c.compile e.node) := by
  cases e with
  | member member =>
    intro table
    exact (okUnless_member hc member table).imp_left fun ⟨hlengths, m, table', hm, hmember⟩ =>
      ⟨hlengths, m, table', hm, hmember.isCompiled⟩
  | rest s => exact okUnless_rest hc s
  | tuplet tuplet =>
    have hmembers := okUnless_compileAll (c := c) (P := IsMember)
      (List.forall_mem_map.2 fun m (_ : m ∈ tuplet.members) => okUnless_member hc m)
    rw [Element.node, Node.lengths_unread]
    unfold Node.unread compile
    refine hmembers.map fun ms hms => ?_
    have hlength : ms.length = tuplet.size.count := by
      rw [hms.1, List.length_map, tuplet.complete]
    have hcount : ¬(ms.length < 2 ∨ 4 < ms.length) := by
      rw [hlength]
      cases tuplet.size <;> decide
    have hne : ms ≠ [] := List.ne_nil_of_length_pos (by omega)
    refine okUnless_lift (a := .tuplet ms) ?_ (Music.isCompiled_tuplet hne hms.2)
    have hfits : ms.find? (fun m => !m.fitsTuplet) = none :=
      List.find?_eq_none.2 fun m hm => by simp [(fits_of_isMember (hms.2 m hm)).2]
    unfold Music.mkTuplet
    rw [if_neg hcount, hfits]
  | bar b =>
    unfold Element.node Node.leaf Node.unread compile
    exact .ok (fun table => ⟨_, rfl⟩) Music.isCompiled_silence

/-- What is in a line is compiled unless a length in it divides by zero. -/
theorem okUnless_compile (hc : 0 ≤ c.header.length) {n : Node} (hn : n.IsLineElement) :
    Compiling.OkUnless n.lengths IsCompiled (c.compile n) := by
  rw [← n.lengths_unplaced, ← c.compile_unplaced n]
  rcases hn with ⟨e, he⟩ | hend
  · rw [he]
    exact okUnless_element hc e
  · rw [hend]
    unfold Node.leaf Node.unread compile
    exact .ok (fun table => ⟨table, rfl⟩) Music.isCompiled_silence

/-! ## Voices and songs -/

/-- The elements of a voice are compiled unless a length in them divides by zero. -/
theorem okUnless_compileVoice (hc : 0 ≤ c.header.length) {elements : List Node}
    (hn : ∀ n ∈ elements, n.IsLineElement) :
    OkUnless (elements.flatMap Node.lengths)
      (fun ms => ms.length = elements.length ∧ ∀ m ∈ ms, m.IsCompiled)
      (c.compileVoice elements) := by
  have hall := okUnless_compileAll (c := c) fun n hmem => okUnless_compile hc (hn n hmem)
  unfold compileVoice EStateM.run
  rcases hall (.ofKey c.header.key) with ⟨hlengths, ms, table, hms, hcompiled⟩ |
    ⟨t, ht, hzero, table, hfail⟩
  · rw [hms]
    exact .inl ⟨hlengths, ms, rfl, hcompiled⟩
  · rw [hfail]
    exact .inr ⟨t, ht, hzero, rfl⟩

/-- A voice is compiled unless a length in it divides by zero: its lyrics are no hindrance. -/
theorem okUnless_voice (hc : 0 ≤ c.header.length) {elements : List Node} (lyrics : List Node)
    (hn : ∀ n ∈ elements, n.IsLineElement) :
    OkUnless (elements.flatMap Node.lengths) (fun _ => True) (c.voice elements lyrics) := by
  unfold voice
  refine (okUnless_compileVoice hc hn).map fun expressions ⟨hlength, hcompiled⟩ => ?_
  dsimp only
  split_ifs
  · exact .ok rfl trivial
  · obtain ⟨timeline, htimeline⟩ := lyricTimeline_exists lyrics hlength hcompiled
    rw [htimeline]
    exact .ok rfl trivial

end Compiler

/-! ## The lengths of a body -/

/-- There is no length suffix in a line of lyrics. -/
theorem Score.Lyrics.lengths_node (l : Score.Lyrics) : l.node.lengths = [] := by
  rw [node, Node.lengths_unread, List.flatMap_append]
  refine List.append_eq_nil_iff.2 ⟨rfl, List.append_eq_nil_iff.2 ⟨?_, rfl⟩⟩
  refine List.flatMap_eq_nil_iff.2 fun n hn => ?_
  obtain ⟨kind, text, rfl, -⟩ := l.tokens_node n hn
  rfl

/-- The length suffixes in a part of a score are those in its elements. -/
theorem mem_lengths_part {p : Part} {n : Node} (hn : n.unplaced = p.node) (t : Text) :
    t ∈ n.lengths ↔ ∃ e ∈ n.lineElements, t ∈ e.lengths := by
  have hlengths := n.lengths_unplaced
  have hlabel := n.label_unplaced
  rw [hn] at hlengths hlabel
  -- Only lines have elements, and only they have length suffixes.
  have hnone (hempty : p.node.lengths = []) (hother : p.node.label ≠ .line) :
      t ∈ n.lengths ↔ ∃ e ∈ n.lineElements, t ∈ e.lengths := by
    have helements : n.lineElements = [] := if_neg (hlabel ▸ hother)
    rw [← hlengths, hempty, helements]
    exact iff_of_false nofun nofun
  cases p with
  | comment c => exact hnone rfl nofun
  | voice v => exact hnone rfl nofun
  | lyrics l => exact hnone l.lengths_node nofun
  | line l =>
    obtain ⟨label, s, s', ns⟩ := n
    obtain rfl : label = .line := hlabel.symm
    have helements : (Node.mk .line s s' ns).lineElements =
        ns.filter fun child => !child.label.isComment := if_pos rfl
    have hall : (Node.mk .line s s' ns).lengths = ns.flatMap Node.lengths :=
      Node.lengths_mk .line s s' ns
    rw [hall, helements, List.mem_flatMap]
    constructor
    · rintro ⟨child, hchild, ht⟩
      refine ⟨child, List.mem_filter.2 ⟨hchild, ?_⟩, ht⟩
      -- A comment holds no length suffix.
      rcases Score.Line.child_cases hn hchild with ⟨e, he⟩ | ⟨c, hc⟩ | hend
      · rw [← child.label_unplaced, he]
        have helement := e.isElement_label
        cases hl : e.node.label <;> first | rfl | (rw [hl] at helement; cases helement)
      · rw [← child.lengths_unplaced, hc] at ht
        cases ht
      · rw [← child.label_unplaced, hend]
        rfl
    · rintro ⟨child, hchild, ht⟩
      exact ⟨child, (List.mem_filter.1 hchild).1, ht⟩

/-- The elements of the voices of a body are those of its lines. -/
theorem exists_voice_element {body n : Node} :
    (∃ v ∈ body.voiceParts, n ∈ v.2.elements) ↔ ∃ line ∈ body.children, n ∈ line.lineElements := by
  have hvoices : (∃ v ∈ body.voiceParts, n ∈ v.2.elements) ↔
      ∃ name, HasElement body.voiceParts name n :=
    ⟨fun ⟨v, hv, hn⟩ => ⟨v.1, v, hv, rfl, hn⟩, fun ⟨_, v, hv, _, hn⟩ => ⟨v, hv, hn⟩⟩
  have hsplit (name : Text) : HasElement body.voiceParts name n ↔
      (name, n) ∈ voicedElements Header.defaultVoice body.children := by
    unfold Node.voiceParts
    rw [hasElement_splitVoices]
    exact or_iff_right nofun
  rw [hvoices, exists_congr hsplit, exists_voicedElements]

/-- The length suffixes in a body of a score are those in the elements of its voices. -/
theorem mem_lengths_body {body : Node} {parts : List Part}
    (hbody : body.unplaced = .unread .body (parts.map Part.node)) (t : Text) :
    t ∈ body.voiceParts.flatMap (fun v => v.2.elements.flatMap Node.lengths) ↔
      t ∈ body.lengths := by
  have hlabel : body.label = .body := by
    rw [← body.label_unplaced, hbody]
    rfl
  have hlengths : body.lengths = body.children.flatMap Node.lengths := by
    obtain ⟨label, s, s', ns⟩ := body
    obtain rfl : label = .body := hlabel
    exact Node.lengths_mk .body s s' ns
  simp only [hlengths, List.mem_flatMap]
  constructor
  · rintro ⟨v, hv, e, he, ht⟩
    obtain ⟨n, hn, hmem⟩ := exists_voice_element.1 ⟨v, hv, he⟩
    obtain ⟨p, hp⟩ := exists_part hbody hn
    exact ⟨n, hn, (mem_lengths_part hp t).2 ⟨e, hmem, ht⟩⟩
  · rintro ⟨n, hn, ht⟩
    obtain ⟨p, hp⟩ := exists_part hbody hn
    obtain ⟨e, hmem, ht⟩ := (mem_lengths_part hp t).1 ht
    obtain ⟨v, hv, he⟩ := exists_voice_element.2 ⟨n, hn, hmem⟩
    exact ⟨v, hv, e, he, ht⟩

/-! ## Songs -/

/-- The length suffixes in the body of a document. -/
def Node.bodyLengths (document : Node) : List Text :=
  (document.first? .body).elim [] Node.lengths

/-- The voices of a body of a score are compiled unless a length in the body divides by zero. -/
theorem okUnless_ofBody {c : Compiler} (hc : 0 ≤ c.header.length) {body : Option Node}
    (hbody : ∀ b ∈ body, ∃ parts : List Part, b.unplaced = .unread .body (parts.map Part.node)) :
    OkUnless (body.elim [] Node.lengths) (fun _ => True) (Song.ofBody c body) := by
  unfold Song.ofBody
  refine .map (P := fun _ => True) ?_ fun voices _ => .ok rfl trivial
  cases body with
  | none => exact .ok rfl trivial
  | some b =>
    obtain ⟨parts, hparts⟩ := hbody b rfl
    refine (OkUnless.mapM fun v hv => ?_).congr (mem_lengths_body hparts)
    exact (Compiler.okUnless_voice hc v.2.lyrics (voiceParts_lineElements hparts v hv)).map
      fun _ _ => .ok rfl trivial

/-- A tune that is read has a header, and the fields of the header can be read. Once they are
resolved, the tune is compiled if and only if no length in its body divides by zero; otherwise it
fails for such a length. Every performed index is that of an element, and every element of a voice
that is compiled has a slot for its lyrics. -/
theorem Song.ofDocument_readTune {source : Text} {document : Node}
    (h : readTune source = .ok document) :
    ∃ header fields, document.first? .header = some header ∧ header.headerFields = .ok fields ∧
      ∀ resolved, Header.ofFields fields = .ok resolved → ∀ instrument,
        ((∃ song, Song.ofDocument document instrument = .ok song) ↔
          ∀ t ∈ document.bodyLengths, ¬DividesByZero t) ∧
        (∀ e, Song.ofDocument document instrument = .error e →
          ∃ t ∈ document.bodyLengths, DividesByZero t ∧ e = .length (.zeroDenominator t)) ∧
        ∀ body ∈ document.first? .body, ∀ v ∈ body.voiceParts,
          (∀ i ∈ expand v.2.elements, i < v.2.elements.length) ∧
          ∀ expressions,
            Compiler.compileVoice ⟨resolved, instrument⟩ v.2.elements = .ok expressions →
            expressions.length = v.2.elements.length ∧
              (Compiler.slots v.2.elements v.2.lyrics expressions).length =
                v.2.elements.length := by
  obtain ⟨header, s, hheader, hscore⟩ := exists_header h
  obtain ⟨fields, hfields⟩ := exists_headerFields hscore
  refine ⟨header, fields, hheader, hfields, fun resolved hresolved instrument => ?_⟩
  -- With the header resolved, the body alone decides.
  have hsame : Song.ofDocument document instrument =
      Song.ofBody ⟨resolved, instrument⟩ (document.first? .body) := by
    unfold Song.ofDocument
    rw [hheader]
    dsimp only
    rw [hfields]
    show (Header.ofFields fields).mapError _ >>= _ = _
    rw [hresolved]
    rfl
  have houtcome : OkUnless document.bodyLengths (fun _ => True)
      (Song.ofBody ⟨resolved, instrument⟩ (document.first? .body)) :=
    okUnless_ofBody (Header.resolvesTo_ofFields hresolved).length_nonneg.1
      fun b hb => readTune_body h hb
  rw [hsame]
  refine ⟨?compiled, ?failed, ?indices⟩
  case compiled =>
    rcases houtcome with ⟨hlengths, song, hsong, -⟩ | ⟨t, ht, hzero, hfail⟩
    · exact iff_of_true ⟨song, hsong⟩ hlengths
    · refine iff_of_false ?_ fun hlengths => hlengths t ht hzero
      rintro ⟨song, hsong⟩
      rw [hfail] at hsong
      cases hsong
  case failed =>
    intro e he
    rcases houtcome with ⟨-, song, hsong, -⟩ | ⟨t, ht, hzero, hfail⟩
    · rw [hsong] at he
      cases he
    · rw [hfail] at he
      cases he
      exact ⟨t, ht, hzero, rfl⟩
  case indices =>
    intro body hbody v hv
    obtain ⟨parts, hparts⟩ := readTune_body h hbody
    refine ⟨expand_lt v.2.elements, fun expressions hexpressions => ?_⟩
    obtain ⟨hlength, -⟩ :=
      Compiler.compileVoice_elements (voiceParts_elements hparts v hv) hexpressions
    exact ⟨hlength, Compiler.slots_length hlength⟩

/-- A tune with a chord, a tuplet, lyrics, and a rest whose length divides by zero. -/
def divided : Text :=
  "X:1\nT:t\nK:C\n[C/2E] (3a[cE]g z/0\nw:la la".text

/-- The rest keeps the tune from being compiled. -/
theorem Song.ofDocument_readTune_divided :
    ∃ document e, readTune divided = .ok document ∧ Song.ofDocument document .piano = .error e ∧
      ∃ t ∈ document.bodyLengths, DividesByZero t ∧ e = .length (.zeroDenominator t) := by
  have hread : (readTune divided).toOption.any fun document =>
      (document.first? .header).any fun header => header.headerFields.toOption.any fun fields =>
        (Header.ofFields fields).toOption.isSome &&
          (Song.ofDocument document .piano).toOption.isNone := by
    decide +kernel
  obtain ⟨document, hdocument, hread⟩ := (Option.any_eq_true _ _).1 hread
  have hok := toOption_eq_some.1 hdocument
  obtain ⟨header, fields, hheader, hfields, hcompile⟩ := Song.ofDocument_readTune hok
  rw [hheader, Option.any_some, hfields] at hread
  obtain ⟨hresolved, hnone⟩ := Bool.and_eq_true_iff.1 hread
  obtain ⟨resolved, hresolved⟩ := Option.isSome_iff_exists.1 hresolved
  obtain ⟨-, hfailed, -⟩ := hcompile resolved (toOption_eq_some.1 hresolved) .piano
  cases hsong : Song.ofDocument document .piano with
  | ok song =>
    rw [hsong] at hnone
    cases hnone
  | error e => exact ⟨document, e, hok, hsong, hfailed e hsong⟩

end SingAlong
