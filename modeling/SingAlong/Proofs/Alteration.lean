import SingAlong.Compile
import SingAlong.Proofs.Constructors
import Mathlib.Data.List.Induction
import Mathlib.Tactic.Ring

/-!
# The pitch of a note

The compiler threads one accidental table through the elements of a voice. What the table sees of
the elements is a list of marks: the bars, and the notes with their accidentals, also those inside
chords and tuplets. `alteration` reads the alteration of a letter off the marks, without a table:
the accidentals of the letter since the last bar decide it, and a natural among them puts the key
signature out of effect.

`Tracks` ties the table to the marks that it has seen. One mark keeps it (`Tracks.bar`,
`Tracks.plain`, `Tracks.accidental`), and so compiling elements keeps it (`compile_follows`), with
the pitches of the notes given by `Mark.pitchesFrom`. `compileVoice_pitch` states it note by note.
-/

namespace SingAlong

/-! ## Marks -/

/-- What an element of the music says about alterations. -/
inductive Mark where
  | bar
  | note (name : NoteName) (accidental : Option Accidental) (octaves : List OctaveMark)
  deriving DecidableEq, Repr

/-- The octave marks of a note. -/
def Node.octaveMarks (n : Node) : List OctaveMark :=
  (n.children.findSome? fun child =>
    match child.label with
    | .octave marks => some marks
    | _ => none).getD []

namespace Node

mutual
/-- The marks of an element, in the order of the source. -/
def marks : Node → List Mark
  | mk label opening closing ns =>
    match label with
    | .note name =>
      let n := mk label opening closing ns
      [.note name n.accidental? n.octaveMarks]
    | .bar _ => [.bar]
    | .chord | .tuplet _ | .line => marksOf ns
    | _ => []
/-- The marks of the elements of a list, in the order of the source. -/
def marksOf : List Node → List Mark
  | [] => []
  | n :: ns => marks n ++ marksOf ns
end

end Node

namespace Music

mutual
/-- The pitches of the notes of an expression, in order. -/
def pitches : Music → List Pitch
  | note _ p _ => [p]
  | chord ns | tuplet ns | component ns => pitchesOf ns
  | concat a b => pitches a ++ pitches b
  | _ => []
/-- The pitches of the notes of all expressions of a list. -/
def pitchesOf : List Music → List Pitch
  | [] => []
  | m :: ms => pitches m ++ pitchesOf ms
end

end Music

/-! ## The alteration of a letter -/

/-- The semitones of an accidental that is not a natural. -/
def Accidental.semitones : Accidental → Int
  | doubleSharp => 2
  | sharp => 1
  | natural => 0
  | flat => -1
  | doubleFlat => -2

/-- The alteration of a letter in the key signature. -/
def Key.alteration (k : Key) (letter : Letter) : Int :=
  (k.accidentals.lookup letter).getD 0

namespace Mark

/-- Is it a note? -/
def isNote : Mark → Bool
  | note _ _ _ => true
  | bar => false

/-- The accidental that the mark writes on a letter. -/
def accidentalOn? (letter : Letter) : Mark → Option Accidental
  | note name a _ => if name.letter = letter then a else none
  | bar => none

/-- The marks after the last bar. -/
def measure (marks : List Mark) : List Mark :=
  (marks.reverse.takeWhile isNote).reverse

/-- The accidentals on a letter since the last bar, in order. -/
def accidentalsOn (letter : Letter) (marks : List Mark) : List Accidental :=
  (measure marks).filterMap (accidentalOn? letter)

/-- The accidentals after the last natural. -/
def afterNatural (accidentals : List Accidental) : List Accidental :=
  (accidentals.reverse.takeWhile (· ≠ .natural)).reverse

/-- The alteration of a letter after some marks: the sum of the sharps and flats on it since the
last bar, from the last natural on if there is one, and else on top of the key signature. -/
def alteration (k : Key) (letter : Letter) (marks : List Mark) : Int :=
  let accidentals := accidentalsOn letter marks
  if .natural ∈ accidentals then ((afterNatural accidentals).map Accidental.semitones).sum
  else k.alteration letter + (accidentals.map Accidental.semitones).sum

/-- A natural is the last one, and nothing follows it. -/
theorem afterNatural_append_natural (as : List Accidental) :
    afterNatural (as ++ [.natural]) = [] := by
  simp [afterNatural]

/-- Another accidental follows the last natural. -/
theorem afterNatural_append (as : List Accidental) {a : Accidental} (h : a ≠ .natural) :
    afterNatural (as ++ [a]) = afterNatural as ++ [a] := by
  simp [afterNatural, h]

end Mark

namespace Accidental

/-- What accidentals make of an alteration, one after the other: the sum of the sharps and flats,
from the last natural on if there is one, and else on top of the alteration before them. -/
def effect (before : Int) (accidentals : List Accidental) : Int :=
  if natural ∈ accidentals then ((Mark.afterNatural accidentals).map semitones).sum
  else before + (accidentals.map semitones).sum

/-- The last accidental alters what those before it have made. -/
theorem effect_append (before : Int) (as : List Accidental) (a : Accidental) :
    effect before (as ++ [a]) = a.alter (effect before as) := by
  unfold effect
  -- A natural cuts off what is before it; another accidental adds to it, whether or not there is a
  -- natural before.
  by_cases hn : a = natural
  · subst hn
    rw [if_pos (by simp), Mark.afterNatural_append_natural]
    rfl
  · rw [Mark.afterNatural_append as hn]
    have hmem : natural ∈ as ++ [a] ↔ natural ∈ as := by
      simp [Ne.symm hn]
    have hadd : ∀ n : Int, n + a.semitones = a.alter n := by
      intro n
      cases a <;> simp_all [semitones, alter]
      all_goals omega
    by_cases h : natural ∈ as
    · rw [if_pos (hmem.2 h), if_pos h, List.map_append, List.sum_append, ← hadd]
      simp
    · rw [if_neg (mt hmem.1 h), if_neg h, List.map_append, List.sum_append, ← hadd]
      simp [add_assoc]

end Accidental

namespace Mark

variable {k : Key} {letter : Letter} {seen : List Mark} {name : NoteName} {a : Accidental}
  {octaves : List OctaveMark}

/-- A bar begins a new measure. -/
theorem measure_append_bar : measure (seen ++ [.bar]) = [] := by
  simp [measure, isNote]

/-- A note belongs to the measure that has begun. -/
theorem measure_append_note (written : Option Accidental) :
    measure (seen ++ [.note name written octaves]) =
      measure seen ++ [.note name written octaves] := by
  unfold measure
  rw [List.reverse_append, List.reverse_singleton, List.singleton_append,
    List.takeWhile_cons_of_pos rfl, List.reverse_cons]

/-- The accidental of a note is the last one of its letter. -/
theorem accidentalsOn_append_note (written : Option Accidental) :
    accidentalsOn letter (seen ++ [.note name written octaves]) =
      accidentalsOn letter seen ++ (accidentalOn? letter (.note name written octaves)).toList := by
  unfold accidentalsOn
  rw [measure_append_note, List.filterMap_append]
  cases h : accidentalOn? letter (.note name written octaves) <;> simp [h]

/-- After a bar the key signature is in effect. -/
theorem alteration_append_bar : alteration k letter (seen ++ [.bar]) = k.alteration letter := by
  simp [alteration, accidentalsOn, measure_append_bar]

/-- A note without accidental alters nothing. -/
theorem alteration_append_plain :
    alteration k letter (seen ++ [.note name none octaves]) = alteration k letter seen := by
  unfold alteration
  rw [accidentalsOn_append_note]
  simp [accidentalOn?]

/-- An accidental does not alter other letters. -/
theorem alteration_append_other (h : name.letter ≠ letter) (written : Option Accidental) :
    alteration k letter (seen ++ [.note name written octaves]) = alteration k letter seen := by
  unfold alteration
  rw [accidentalsOn_append_note]
  simp [accidentalOn?, h]

/-- An accidental alters its letter on top of the accidentals before it. -/
theorem alteration_append_accidental :
    alteration k name.letter (seen ++ [.note name (some a) octaves]) =
      a.alter (alteration k name.letter seen) := by
  have ha : accidentalOn? name.letter (.note name (some a) octaves) = some a := if_pos rfl
  have heffect (marks : List Mark) : alteration k name.letter marks =
      Accidental.effect (k.alteration name.letter) (accidentalsOn name.letter marks) := rfl
  rw [heffect, heffect, accidentalsOn_append_note, ha, Option.toList_some,
    Accidental.effect_append]

end Mark

/-! ## The table -/

/-- Letters with the same text are the same. -/
theorem Letter.text_inj {l l' : Letter} : l.text = l'.text ↔ l = l' := by
  cases l <;> cases l' <;> decide

/-- A note letter is its own uppercase. -/
theorem Letter.upper_text (l : Letter) : Text.upper l.text = l.text := by
  cases l <;> rfl

/-- Looking a key up compares it with the first entry. -/
theorem lookup_cons {α β : Type} [BEq α] [LawfulBEq α] [DecidableEq α] (key : α) (entry : α × β)
    (rest : List (α × β)) :
    (entry :: rest).lookup key = if key = entry.1 then some entry.2 else rest.lookup key := by
  rw [List.lookup_cons]
  by_cases h : key = entry.1
  · rw [if_pos h, beq_iff_eq.2 h]
  · rw [if_neg h, beq_eq_false_iff_ne.2 h]

namespace AccidentalTable

/-- An entry that is put is found, and the other entries stay. -/
theorem lookup_put (letter other : Text) (n : Int) (entries : List (Text × Int)) :
    (put letter n entries).lookup other =
      if other = letter then some n else entries.lookup other := by
  induction entries with
  | nil =>
    unfold put
    rw [lookup_cons]
  | cons entry rest ih =>
    unfold put
    by_cases h : entry.1 = letter
    · rw [if_pos h, lookup_cons, lookup_cons, h]
      split_ifs <;> rfl
    · rw [if_neg h, lookup_cons, lookup_cons, ih]
      split_ifs with h1 h2
      · exact absurd (h1.symm.trans h2) h
      · rfl
      · rfl
      · rfl

/-- An accidental alters the letters with the same uppercase and no others. -/
theorem get_apply_upper (table : AccidentalTable) (letter other : Text) (a : Accidental) :
    (table.apply letter a).get other =
      if Text.upper other = Text.upper letter then a.alter (table.get letter)
      else table.get other := by
  unfold apply get
  rw [lookup_put]
  split_ifs <;> rfl

/-- An accidental alters its letter and no other. -/
theorem get_apply (table : AccidentalTable) (l l' : Letter) (a : Accidental) :
    (table.apply l.text a).get l'.text =
      if l' = l then a.alter (table.get l.text) else table.get l'.text := by
  -- The table is keyed by texts, which are as different as the letters.
  rw [get_apply_upper, Letter.upper_text, Letter.upper_text]
  exact if_congr Letter.text_inj rfl rfl

/-- The table of a key holds the alterations of the key. -/
theorem get_ofKey (k : Key) (l : Letter) : (ofKey k).get l.text = k.alteration l := by
  unfold get ofKey Key.alteration
  rw [Letter.upper_text]
  generalize k.accidentals = entries
  dsimp only
  induction entries with
  | nil => rfl
  | cons entry rest ih =>
    rw [List.map_cons, lookup_cons, lookup_cons]
    by_cases h : l = entry.1
    · rw [if_pos h, if_pos (Letter.text_inj.2 h)]
    · rw [if_neg h, if_neg (mt Letter.text_inj.1 h)]
      exact ih

/-- The table holds the alterations that the marks before it leave behind. -/
def Tracks (table : AccidentalTable) (k : Key) (seen : List Mark) : Prop :=
  table.key = k ∧ ∀ l : Letter, table.get l.text = Mark.alteration k l seen

variable {table : AccidentalTable} {k : Key} {seen : List Mark}

/-- The table that compiling starts with. -/
theorem Tracks.ofKey (k : Key) : (ofKey k).Tracks k [] :=
  ⟨rfl, fun l => by rw [get_ofKey]; simp [Mark.alteration, Mark.accidentalsOn, Mark.measure]⟩

/-- A bar sets the table back. -/
theorem Tracks.bar (h : table.Tracks k seen) : table.reset.Tracks k (seen ++ [.bar]) := by
  obtain ⟨hk, -⟩ := h
  refine ⟨hk, fun l => ?_⟩
  unfold reset
  rw [hk, get_ofKey, Mark.alteration_append_bar]

/-- A note without accidental leaves the table. -/
theorem Tracks.plain (h : table.Tracks k seen) (name : NoteName) (octaves : List OctaveMark) :
    table.Tracks k (seen ++ [.note name none octaves]) :=
  ⟨h.1, fun l => by rw [h.2, Mark.alteration_append_plain]⟩

/-- The accidental of a note is applied to the table. -/
theorem Tracks.accidental (h : table.Tracks k seen) (name : NoteName) (a : Accidental)
    (octaves : List OctaveMark) :
    (table.apply name.letter.text a).Tracks k (seen ++ [.note name (some a) octaves]) := by
  refine ⟨h.1, fun l => ?_⟩
  rw [get_apply]
  split_ifs with hl
  · rw [hl, h.2, Mark.alteration_append_accidental]
  · rw [h.2, Mark.alteration_append_other (Ne.symm hl)]

end AccidentalTable

/-! ## Compiling -/

/-- The pitch of a note after the marks up to and including its own. -/
def Mark.pitchAfter (k : Key) (seen : List Mark) (name : NoteName) (octaves : List OctaveMark) :
    Pitch :=
  ⟨name.letter, alteration k name.letter seen +
    (OctaveMark.shift octaves + if name.high then 1 else 0) * octave⟩

/-- The pitches of the notes among the marks that follow others. -/
def Mark.pitchesFrom (k : Key) (seen : List Mark) : List Mark → List Pitch
  | [] => []
  | bar :: rest => pitchesFrom k (seen ++ [bar]) rest
  | note name a octaves :: rest =>
    pitchAfter k (seen ++ [note name a octaves]) name octaves ::
      pitchesFrom k (seen ++ [note name a octaves]) rest

/-- The pitches of two lists of marks, one after the other. -/
theorem Mark.pitchesFrom_append (k : Key) (seen ms ms' : List Mark) :
    pitchesFrom k seen (ms ++ ms') = pitchesFrom k seen ms ++ pitchesFrom k (seen ++ ms) ms' := by
  induction ms generalizing seen with
  | nil => simp [pitchesFrom]
  | cons m ms ih => cases m <;> simp [pitchesFrom, ih]

/-- A sequence has the pitches of its expressions. -/
theorem Music.pitches_sequence (ms : List Music) : (sequence ms).pitches = pitchesOf ms := by
  have h : ∀ m : Music, (ms.foldl concat m).pitches = m.pitches ++ pitchesOf ms := by
    induction ms with
    | nil => simp [pitchesOf]
    | cons m' ms ih => intro m; simp [ih, pitches, pitchesOf]
  exact h silence

namespace Compiler

variable {c : Compiler} {table table' : AccidentalTable} {k : Key} {seen : List Mark}

/-- A step that succeeds after another has a result of the first to go on with. -/
theorem bind_ok {α β : Type} {x : Compiling α} {f : α → Compiling β} {b : β}
    (h : (x >>= f) table = .ok b table') : ∃ a t, x table = .ok a t ∧ f a t = .ok b table' := by
  change EStateM.bind x f table = .ok b table' at h
  unfold EStateM.bind at h
  cases hx : x table with
  | ok a t => exact ⟨a, t, rfl, by simpa only [hx] using h⟩
  | error e t => simp only [hx] at h; cases h

/-- A step that succeeds is followed by the one that it goes on with. -/
theorem bind_of_ok {α β : Type} {x : Compiling α} {f : α → Compiling β} {a : α}
    (h : x table = .ok a table') : (x >>= f) table = f a table' := by
  change EStateM.bind x f table = _
  unfold EStateM.bind
  rw [h]

/-- A step that fails is not followed by another. -/
theorem bind_of_error {α β : Type} {x : Compiling α} {f : α → Compiling β} {e : CompileError}
    (h : x table = .error e table') : (x >>= f) table = .error e table' := by
  change EStateM.bind x f table = _
  unfold EStateM.bind
  rw [h]

/-- A stage that succeeds leaves the table. -/
theorem lift_ok {ε α : Type} {f : ε → CompileError} {x : Except ε α} {a : α}
    (h : lift f x table = .ok a table') : x = .ok a ∧ table' = table := by
  cases x with
  | ok b => cases h; exact ⟨rfl, rfl⟩
  | error e => cases h

/-- The length of a note or rest leaves the table. -/
theorem length_ok {n : Node} {l : Length} (h : c.length n table = .ok l table') :
    table' = table := by
  unfold length at h
  obtain ⟨factor, t, hf, hl⟩ := bind_ok h
  obtain ⟨-, rfl⟩ := lift_ok hf
  cases hl
  rfl

/-- The note with the alterations in effect, once its own accidental is applied. -/
def sound (c : Compiler) (name : NoteName) (n : Node) : Compiling Music := do
  let table ← get
  let octaves := n.octaveShift + if name.high then 1 else 0
  let pitch := Pitch.mk name.letter (table.get name.letter.text + octaves * octave)
  let length ← c.length n
  lift .music (Music.mkNote length pitch c.instrument)

/-- A note with an accidental applies it first. -/
theorem note_accidental {name : NoteName} {n : Node} {a : Accidental}
    (ha : n.accidental? = some a) :
    c.note name n table = c.sound name n (table.apply name.letter.text a) := by
  unfold note
  rw [ha]
  rfl

/-- A note without accidental applies nothing. -/
theorem note_plain {name : NoteName} {n : Node} (ha : n.accidental? = none) :
    c.note name n table = c.sound name n table := by
  unfold note
  rw [ha]
  rfl

/-- A note has the pitch that the table gives it, which is left as it is. -/
theorem sound_ok {name : NoteName} {n : Node} {m : Music}
    (h : c.sound name n table = .ok m table') :
    table' = table ∧
      m.pitches = [⟨name.letter, table.get name.letter.text +
        (OctaveMark.shift n.octaveMarks + if name.high then 1 else 0) * octave⟩] := by
  unfold sound at h
  obtain ⟨t, t1, hget, h⟩ := bind_ok h
  cases hget
  obtain ⟨l, t2, hlen, h⟩ := bind_ok h
  obtain rfl := length_ok hlen
  obtain ⟨hm, rfl⟩ := lift_ok h
  rw [(Music.mkNote_eq_ok.1 hm).2]
  exact ⟨rfl, rfl⟩

/-- A note gets its pitch, and its accidental is applied to the table. -/
theorem note_tracks {name : NoteName} {n : Node} {m : Music} (ht : table.Tracks k seen)
    (h : c.note name n table = .ok m table') :
    table'.Tracks k (seen ++ [.note name n.accidental? n.octaveMarks]) ∧
      m.pitches =
        [Mark.pitchAfter k (seen ++ [.note name n.accidental? n.octaveMarks]) name
          n.octaveMarks] := by
  -- The pitch is looked up once the accidental is applied, and so follows the note's own mark.
  cases ha : n.accidental? with
  | none =>
    rw [note_plain ha] at h
    obtain ⟨rfl, hp⟩ := sound_ok h
    have hs := ht.plain name n.octaveMarks
    rw [hs.2] at hp
    exact ⟨hs, hp⟩
  | some a =>
    rw [note_accidental ha] at h
    obtain ⟨rfl, hp⟩ := sound_ok h
    have hs := ht.accidental name a n.octaveMarks
    rw [hs.2] at hp
    exact ⟨hs, hp⟩

/-- A rest leaves the table and has no pitch. -/
theorem rest_ok {n : Node} {m : Music} (h : c.rest n table = .ok m table') :
    table' = table ∧ m.pitches = [] := by
  unfold rest at h
  obtain ⟨l, t, hlen, hrun⟩ := bind_ok h
  obtain rfl := length_ok hlen
  obtain ⟨hm, rfl⟩ := lift_ok hrun
  rw [(Music.mkRest_eq_ok.1 hm).2]
  exact ⟨rfl, rfl⟩

/-- What compiling makes of some marks: the table follows them, and the notes get their pitches. -/
def Follows (k : Key) (ms : List Mark) {α : Type} (pitches : α → List Pitch) (x : Compiling α) :
    Prop :=
  ∀ (seen : List Mark) (table table' : AccidentalTable) (a : α), table.Tracks k seen →
    x table = .ok a table' → table'.Tracks k (seen ++ ms) ∧ pitches a = Mark.pitchesFrom k seen ms

/-- Compiling elements one after the other follows their marks one after the other. -/
theorem Follows.cons {m : Compiling Music} {ms : Compiling (List Music)} {first rest : List Mark}
    (hm : Follows k first Music.pitches m) (hms : Follows k rest Music.pitchesOf ms) :
    Follows k (first ++ rest) Music.pitchesOf (do return (← m) :: (← ms)) := by
  intro seen table table' all ht h
  obtain ⟨a, t, ha, h⟩ := bind_ok h
  obtain ⟨as, t', has, h⟩ := bind_ok h
  cases h
  obtain ⟨ht1, hp1⟩ := hm seen table t a ht ha
  obtain ⟨ht2, hp2⟩ := hms _ t _ as ht1 has
  refine ⟨by rwa [← List.append_assoc], ?_⟩
  rw [Music.pitchesOf, hp1, hp2, Mark.pitchesFrom_append]

/-- Compiling follows the marks of an element, of a list of elements and of a line. -/
theorem compile_follows (c : Compiler) (k : Key) :
    (∀ n : Node, Follows k n.marks Music.pitches (c.compile n)) ∧
      (∀ ns : List Node, Follows k (Node.marksOf ns) Music.pitchesOf (c.compileLine ns)) ∧
      ∀ ns : List Node, Follows k (Node.marksOf ns) Music.pitchesOf (c.compileAll ns) := by
  apply compile.mutual_induct
  -- A note or a rest.
  case case1 =>
    intro opening closing ns name seen table table' m ht h
    rw [compile] at h
    exact note_tracks ht h
  case case2 =>
    intro opening closing ns text seen table table' m ht h
    rw [compile] at h
    obtain ⟨rfl, hp⟩ := rest_ok h
    have hm : Node.marks (.mk (.rest text) opening closing ns) = [] := rfl
    rw [hm, List.append_nil]
    exact ⟨ht, hp⟩
  -- A chord or a tuplet has the marks of its members.
  case case3 =>
    intro opening closing ns ih seen table table' m ht h
    rw [compile] at h
    obtain ⟨ms, t, hms, h⟩ := bind_ok h
    obtain ⟨hm, rfl⟩ := lift_ok h
    rw [(Music.mkChord_eq_ok.1 hm).2.2]
    exact ih seen table _ ms ht hms
  case case4 =>
    intro opening closing ns size ih seen table table' m ht h
    rw [compile] at h
    obtain ⟨ms, t, hms, h⟩ := bind_ok h
    obtain ⟨hm, rfl⟩ := lift_ok h
    rw [(Music.mkTuplet_eq_ok.1 hm).2.2]
    exact ih seen table _ ms ht hms
  -- A bar sets the table back.
  case case5 =>
    intro opening closing ns b seen table table' m ht h
    rw [compile] at h
    cases h
    exact ⟨ht.bar, rfl⟩
  -- A line has the marks of its elements.
  case case6 =>
    intro opening closing ns ih seen table table' m ht h
    rw [compile] at h
    obtain ⟨ms, t, hms, h⟩ := bind_ok h
    cases h
    obtain ⟨ht', hp⟩ := ih seen table _ ms ht hms
    exact ⟨ht', by rw [Music.pitches_sequence]; exact hp⟩
  -- Any other element has no marks, and is compiled to silence.
  case case7 =>
    intro label opening closing ns h1 h2 h3 h4 h5 h6 seen table table' m ht h
    have hm : Node.marks (.mk label opening closing ns) = [] := by
      cases label <;> simp_all [Node.marks]
    have hc : c.compile (.mk label opening closing ns) = pure Music.silence := by
      cases label <;> simp_all [compile]
    rw [hc] at h
    cases h
    rw [hm, List.append_nil]
    exact ⟨ht, rfl⟩
  -- The elements of a line, in which comments are skipped.
  case case8 =>
    intro seen table table' ms ht h
    rw [compileLine] at h
    cases h
    rw [Node.marksOf, List.append_nil]
    exact ⟨ht, rfl⟩
  case case9 =>
    intro n ns hn ih
    have hm : n.marks = [] := by
      obtain ⟨label, opening, closing, children⟩ := n
      cases label <;> simp_all [Node.label, Label.isComment, Node.marks]
    rw [compileLine, if_pos hn, Node.marksOf, hm]
    exact ih
  case case10 =>
    intro n ns hn ih1 ih2
    rw [compileLine, if_neg hn]
    exact ih1.cons ih2
  -- The members of a list.
  case case11 =>
    intro seen table table' ms ht h
    rw [compileAll] at h
    cases h
    rw [Node.marksOf, List.append_nil]
    exact ⟨ht, rfl⟩
  case case12 =>
    intro n ns ih1 ih2
    rw [compileAll]
    exact ih1.cons ih2

end Compiler

/-! ## The pitch of each note -/

/-- Before the pitch of a note come those of the notes before it. -/
theorem Mark.getElem?_pitchesFrom (k : Key) (seen before after : List Mark) (name : NoteName)
    (a : Option Accidental) (octaves : List OctaveMark) :
    (pitchesFrom k seen (before ++ .note name a octaves :: after))[before.countP isNote]? =
      some (pitchAfter k (seen ++ (before ++ [.note name a octaves])) name octaves) := by
  induction before generalizing seen with
  | nil => rfl
  | cons m before ih =>
    cases m with
    | bar =>
      rw [List.cons_append, pitchesFrom, List.countP_cons_of_neg (by simp [isNote]), ih]
      simp
    | note name' a' octaves' =>
      rw [List.cons_append, pitchesFrom, List.countP_cons_of_pos (by rfl),
        List.getElem?_cons_succ, ih]
      simp

/-- There are as many pitches as notes. -/
theorem Mark.length_pitchesFrom (k : Key) (seen ms : List Mark) :
    (pitchesFrom k seen ms).length = ms.countP isNote := by
  induction ms generalizing seen with
  | nil => rfl
  | cons m ms ih => cases m <;> simp [pitchesFrom, List.countP_cons, isNote, ih]

/-- The compiled pitches of a voice are those of its notes, in order, and each has the letter of its
note and the value that the letter, the case, the octave marks and the alteration make up. The
alteration is that of the letter after the marks up to and including the note. -/
theorem Compiler.compileVoice_pitch (c : Compiler) (elements : List Node) (ms : List Music)
    (h : c.compileVoice elements = .ok ms) :
    (Music.pitchesOf ms).length = (Node.marksOf elements).countP Mark.isNote ∧
      ∀ (before after : List Mark) (name : NoteName) (a : Option Accidental)
        (octaves : List OctaveMark),
        Node.marksOf elements = before ++ .note name a octaves :: after →
        ∃ p, (Music.pitchesOf ms)[before.countP Mark.isNote]? = some p ∧ p.letter = name.letter ∧
          p.value = name.letter.semitones + (if name.high then 12 else 0) +
            12 * ((octaves.count .up : Int) - octaves.count .down) +
            Mark.alteration c.header.key name.letter (before ++ [.note name a octaves]) := by
  -- Compiling starts with the table of the key, which has seen no marks.
  have hp : Music.pitchesOf ms = Mark.pitchesFrom c.header.key [] (Node.marksOf elements) := by
    unfold compileVoice at h
    cases hrun : (c.compileAll elements).run (.ofKey c.header.key) with
    | error e t => rw [hrun] at h; cases h
    | ok ms' t =>
      rw [hrun] at h
      cases h
      exact ((compile_follows c c.header.key).2.2 elements [] _ t ms
        (AccidentalTable.Tracks.ofKey _) hrun).2
  refine ⟨by rw [hp, Mark.length_pitchesFrom], ?_⟩
  intro before after name a octaves hmarks
  refine ⟨_, by rw [hp, hmarks, Mark.getElem?_pitchesFrom], rfl, ?_⟩
  unfold Mark.pitchAfter Pitch.value OctaveMark.shift octave
  rw [List.nil_append]
  dsimp only
  split_ifs <;> ring

/-- In G major, after a sharp on c and a flat on the C of a chord with an F, the C of the same
measure sounds as written, and the F of the chord is sharp. -/
theorem Compiler.compileVoice_pitch_measure :
    let c : Compiler := ⟨⟨1, ['t'], ['u'], ⟨.major, 8⟩, 1, 1 / 8, .standard, []⟩, .piano⟩
    let leaf : Label → Node := fun l => .unread l []
    let elements : List Node :=
      [.unread (.note ⟨.C, true⟩) [leaf (.accidental .sharp), leaf (.octave [.up])],
        .unread .chord [.unread (.note ⟨.C, false⟩) [leaf (.accidental .flat)],
          leaf (.note ⟨.F, false⟩)],
        leaf (.endOfLine ['\n']), leaf (.note ⟨.C, false⟩), leaf (.bar .single),
        leaf (.note ⟨.C, false⟩)]
    ∃ ms, c.compileVoice elements = .ok ms ∧
      (∃ p, (Music.pitchesOf ms)[2]? = some p ∧ p.letter = .F ∧ p.value = 6) ∧
      ∃ p, (Music.pitchesOf ms)[3]? = some p ∧ p.letter = .C ∧ p.value = 0 := by
  intro c leaf elements
  have hok : (c.compileVoice elements).isOk = true := by decide +kernel
  cases h : c.compileVoice elements with
  | error e => rw [h] at hok; cases hok
  | ok ms =>
    refine ⟨ms, rfl, ?_, ?_⟩
    · exact (c.compileVoice_pitch elements ms h).2
        [.note ⟨.C, true⟩ (some .sharp) [.up], .note ⟨.C, false⟩ (some .flat) []]
        [.note ⟨.C, false⟩ none [], .bar, .note ⟨.C, false⟩ none []] ⟨.F, false⟩ none [] rfl
    · exact (c.compileVoice_pitch elements ms h).2
        [.note ⟨.C, true⟩ (some .sharp) [.up], .note ⟨.C, false⟩ (some .flat) [],
          .note ⟨.F, false⟩ none []]
        [.bar, .note ⟨.C, false⟩ none []] ⟨.C, false⟩ none [] rfl

end SingAlong
