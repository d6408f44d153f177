import SingAlong.Tune.Token
import Mathlib.Data.List.Chain

/-!
# The grammar of a tune

`Grammatical` says which sequences of tokens are a tune, without saying how they are read. The parts
of notes and rests make up notes and rests, a chord holds notes up to its bracket, and a tuplet has
as many notes and chords as its mark says.

Two conditions of the grammar are global and are decided by going through the tokens once. Which
part of a note can come next is a state (`Due`), and a run through the parts ends well exactly when
they are those of notes and rests (`Due.accepts_iff`). The number of members that a tuplet still
needs is a state as well, and `completes_iff` says the same of tuplets.
-/

namespace SingAlong

/-! ## The grammar -/

/-- A note or a rest, by its parts. -/
inductive Durable where
  | note (accidental : Option Accidental) (name : NoteName) (octaves : Option (List OctaveMark))
    (length : Option Text)
  | rest (length : Option Text)

/-- The lexemes of a note or rest. -/
def Durable.lexemes : Durable → List Lexeme
  | note accidental name octaves length =>
    (accidental.map Lexeme.accidental).toList ++
      .note name :: ((octaves.map Lexeme.octave).toList ++ (length.map Lexeme.length).toList)
  | rest length => .rest :: (length.map Lexeme.length).toList

/-- The lexemes are those of notes and rests, one after the other. -/
def AreDurables (ls : List Lexeme) : Prop :=
  ∃ ds : List Durable, ls = ds.flatMap Durable.lexemes

/-- What an item of the body is for a tuplet. -/
inductive Role where
  /-- A note or a chord, which can be a member. -/
  | sung
  /-- The mark of a tuplet. -/
  | tuplet (size : TupletSize)
  /-- A rest, a bar or the end of a line. -/
  | stop
  /-- A voice field or a comment. -/
  | aside
  /-- Nothing that the body can hold. -/
  | unknown
  deriving DecidableEq, Repr

/-- The role of a lexeme. The other parts of a note have none beside that of its letter. -/
def Lexeme.role? : Lexeme → Option Role
  | accidental _ | octave _ | length _ => none
  | note _ => some .sung
  | tuplet size => some (.tuplet size)
  | rest | bar _ | newline => some .stop
  | voiceField _ | comment _ => some .aside
  | _ => some .unknown

namespace Token

/-- The role of a token of the body. A chord has that of the token that opens it, and lines of
lyrics have none. -/
def role? (t : Token) : Option Role :=
  match t.lexeme, t.region with
  | .chordStart, _ => some .sung
  | l, .body => l.role?
  | _, _ => none

/-- Is it part of a note or rest of the body, not of a chord? -/
def isPart (t : Token) : Bool :=
  t.region = .body && t.lexeme.isMusic

/-- Does it go on with a chord? -/
def inChord (t : Token) : Bool :=
  t.region = .chord && t.lexeme != .chordStart

end Token

/-- The lexemes after the opening bracket are those of a chord: notes up to the closing bracket. -/
def ClosesChord (ls : List Lexeme) : Prop :=
  ∃ inside, ls = inside ++ [.chordEnd] ∧ AreDurables inside ∧ (∃ name, .note name ∈ inside) ∧
    .rest ∉ inside

/-- Where a tuplet is marked, as many notes and chords follow as its size says. -/
def TupletsComplete (roles : List Role) : Prop :=
  ∀ size after, (.tuplet size :: after) <:+ roles → List.replicate size.count .sung <+: after

/-- The tokens are those of a tune. -/
structure Grammatical (ts : List Token) : Prop where
  /-- There is no text that is unknown. -/
  known : ∀ t ∈ ts, ∀ text, t.lexeme ≠ .unknown text
  /-- Each chord is closed, and holds notes and no rest. -/
  chords : ∀ opening rest, (opening :: rest) <:+ ts → opening.lexeme = .chordStart →
    ClosesChord ((rest.takeWhile Token.inChord).map Token.lexeme)
  /-- Between other tokens there are the parts of notes and rests. -/
  durables : ∀ run ∈ ts.splitOnP (fun t => !t.isPart), AreDurables (run.map Token.lexeme)
  /-- Each tuplet is complete before anything but notes and chords. -/
  tuplets : TupletsComplete (ts.filterMap Token.role?)

/-! ## The parts of notes and rests -/

/-- No lexemes are those of no notes and rests. -/
theorem AreDurables.nil : AreDurables [] :=
  ⟨[], rfl⟩

/-- Another note or rest can come at the end. -/
theorem AreDurables.concat {ls : List Lexeme} (h : AreDurables ls) (d : Durable) :
    AreDurables (ls ++ d.lexemes) := by
  obtain ⟨ds, rfl⟩ := h
  exact ⟨ds ++ [d], by rw [List.flatMap_append, List.flatMap_singleton]⟩

/-- The lexemes of notes and rests are parts of these. -/
theorem AreDurables.isMusic {ls : List Lexeme} (h : AreDurables ls) : ∀ l ∈ ls, l.isMusic := by
  obtain ⟨ds, rfl⟩ := h
  intro l hl
  obtain ⟨d, -, hl⟩ := List.mem_flatMap.1 hl
  cases d with
  | note accidental name octaves length =>
    cases accidental <;> cases octaves <;> cases length <;> simp [Durable.lexemes] at hl <;>
      grind [Lexeme.isMusic]
  | rest length =>
    cases length <;> simp [Durable.lexemes] at hl <;> grind [Lexeme.isMusic]

/-- Which part of a note or rest can come next. -/
inductive Due where
  /-- The letter of the note whose accidental has been read. -/
  | note
  /-- A new note or rest, or octave marks or a length of the last one, as the flags tell. -/
  | parts (octave length : Bool)
  deriving DecidableEq, Repr

namespace Due

/-- What can come after a part, if the part can come at all. -/
def next? : Due → Lexeme → Option Due
  | note, .note _ => some (parts true true)
  | note, _ => none
  | parts _ _, .accidental _ => some note
  | parts _ _, .note _ => some (parts true true)
  | parts _ _, .rest => some (parts false true)
  | parts true _, .octave _ => some (parts false true)
  | parts _ true, .length _ => some (parts false false)
  | parts _ _, _ => none

/-- The parts can come one after the other, and no accidental is left without its note. -/
def Accepts : Due → List Lexeme → Prop
  | s, [] => s ≠ note
  | s, l :: ls => ∃ s', s.next? l = some s' ∧ s'.Accepts ls

/-- The state after lexemes: they are those of notes and rests, the last of which does not have what
can still come, or else they end with an accidental. -/
def Fits : Due → List Lexeme → Prop
  | note, ls => ∃ before a, AreDurables before ∧ ls = before ++ [.accidental a]
  | parts octave length, ls => AreDurables ls ∧
    (octave → ∃ before a name, AreDurables before ∧
      ls = before ++ (Durable.note a name none none).lexemes) ∧
    (length → ∃ before, AreDurables before ∧
      ((∃ a name octaves, ls = before ++ (Durable.note a name octaves none).lexemes) ∨
        ls = before ++ (Durable.rest none).lexemes))

/-- A note that is begun waits for octave marks and a length. -/
theorem fits_note {before : List Lexeme} (h : AreDurables before) (a : Option Accidental)
    (name : NoteName) :
    (parts true true).Fits (before ++ (Durable.note a name none none).lexemes) :=
  ⟨h.concat _, fun _ => ⟨before, a, name, h, rfl⟩, fun _ => ⟨before, h, .inl ⟨a, name, none, rfl⟩⟩⟩

/-- A part that can come leads from the state before it to the state after it. -/
theorem Fits.next {s s' : Due} {ls : List Lexeme} {l : Lexeme} (h : s.Fits ls)
    (hl : s.next? l = some s') : s'.Fits (ls ++ [l]) := by
  unfold next? at hl
  split at hl
  case h_1 name =>
    cases hl
    obtain ⟨before, a, hbefore, rfl⟩ := h
    rw [List.append_assoc]
    exact fits_note hbefore (some a) name
  case h_2 => cases hl
  case h_3 a =>
    cases hl
    exact ⟨ls, a, h.1, rfl⟩
  case h_4 name =>
    cases hl
    exact fits_note h.1 none name
  case h_5 =>
    cases hl
    exact ⟨h.1.concat (.rest none), nofun, fun _ => ⟨ls, h.1, .inr rfl⟩⟩
  case h_6 marks =>
    cases hl
    obtain ⟨before, a, name, hbefore, rfl⟩ := h.2.1 rfl
    have hmarks : before ++ (Durable.note a name none none).lexemes ++ [.octave marks] =
        before ++ (Durable.note a name (some marks) none).lexemes := by
      simp [Durable.lexemes]
    rw [hmarks]
    exact ⟨hbefore.concat _, nofun, fun _ => ⟨before, hbefore, .inl ⟨a, name, _, rfl⟩⟩⟩
  case h_7 text =>
    cases hl
    obtain ⟨before, hbefore, ⟨a, name, octaves, rfl⟩ | rfl⟩ := h.2.2 rfl
    · have hlength : before ++ (Durable.note a name octaves none).lexemes ++ [.length text] =
          before ++ (Durable.note a name octaves (some text)).lexemes := by
        simp [Durable.lexemes]
      rw [hlength]
      exact ⟨hbefore.concat _, nofun, nofun⟩
    · have hlength : before ++ (Durable.rest none).lexemes ++ [.length text] =
          before ++ (Durable.rest (some text)).lexemes := by
        simp [Durable.lexemes]
      rw [hlength]
      exact ⟨hbefore.concat _, nofun, nofun⟩
  case h_8 => cases hl

/-- Parts that can come one after the other are those of notes and rests. -/
theorem Accepts.areDurables {s : Due} {before ls : List Lexeme} (hs : s.Fits before)
    (h : s.Accepts ls) : AreDurables (before ++ ls) := by
  induction ls generalizing s before with
  | nil =>
    rw [List.append_nil]
    cases s with
    | note => exact absurd rfl h
    | parts octave length => exact hs.1
  | cons l ls ih =>
    obtain ⟨s', hnext, haccepts⟩ := h
    have hall := ih (hs.next hnext) haccepts
    rwa [List.append_assoc, List.singleton_append] at hall

/-- What can come after a complete note or rest can come where something of it is missing. -/
theorem Accepts.of_complete {ls : List Lexeme} (h : (parts false false).Accepts ls)
    (octave length : Bool) : (parts octave length).Accepts ls := by
  cases ls with
  | nil => exact nofun
  | cons l ls =>
    obtain ⟨s', hnext, haccepts⟩ := h
    refine ⟨s', ?_, haccepts⟩
    rw [← hnext]
    cases l <;> first | rfl | cases hnext

/-- The parts of a note or rest can come, and then what can come after it. -/
theorem accepts_durable (d : Durable) {ls : List Lexeme} (h : (parts false false).Accepts ls) :
    (parts false false).Accepts (d.lexemes ++ ls) := by
  have hlength (octave : Bool) (length : Option Text) :
      (parts octave true).Accepts ((length.map Lexeme.length).toList ++ ls) := by
    cases length with
    | none => exact h.of_complete octave true
    | some text =>
      refine ⟨parts false false, ?_, h⟩
      cases octave <;> rfl
  cases d with
  | rest length => exact ⟨parts false true, rfl, hlength false length⟩
  | note accidental name octaves length =>
    have hmarks : (parts true true).Accepts ((octaves.map Lexeme.octave).toList ++
        (length.map Lexeme.length).toList ++ ls) := by
      cases octaves with
      | none => exact hlength true length
      | some marks => exact ⟨parts false true, rfl, hlength false length⟩
    unfold Durable.lexemes
    rw [List.append_assoc, List.cons_append]
    cases accidental with
    | none => exact ⟨parts true true, rfl, hmarks⟩
    | some a => exact ⟨note, rfl, parts true true, rfl, hmarks⟩

/-- Parts can come one after the other exactly when they are those of notes and rests. -/
theorem accepts_iff {ls : List Lexeme} : (parts false false).Accepts ls ↔ AreDurables ls := by
  constructor
  · intro h
    have hfits : (parts false false).Fits [] := ⟨AreDurables.nil, nofun, nofun⟩
    exact h.areDurables hfits
  · rintro ⟨ds, rfl⟩
    induction ds with
    | nil => exact nofun
    | cons d ds ih =>
      rw [List.flatMap_cons]
      exact accepts_durable d ih

/-- The same for parts among which other items stand, which need complete notes before them. -/
def Runs : Due → List (Option Lexeme) → Prop
  | s, [] => s ≠ note
  | s, some l :: ps => ∃ s', s.next? l = some s' ∧ s'.Runs ps
  | s, none :: ps => s ≠ note ∧ (parts false false).Runs ps

/-- Parts without other items among them. -/
theorem runs_map_some (s : Due) (ls : List Lexeme) : s.Runs (ls.map some) ↔ s.Accepts ls := by
  induction ls generalizing s with
  | nil => exact Iff.rfl
  | cons l ls ih => exact exists_congr fun s' => and_congr_right fun _ => ih s'

/-- Tokens run through when those between other tokens are the parts of notes and rests. -/
theorem runs_split (s : Due) (p : Token → Bool) (ts : List Token) :
    s.Runs (ts.map fun t => if p t then some t.lexeme else none) ↔
      ∃ run runs, ts.splitOnP (fun t => !p t) = run :: runs ∧ s.Accepts (run.map Token.lexeme) ∧
        ∀ run ∈ runs, AreDurables (run.map Token.lexeme) := by
  induction ts generalizing s with
  | nil =>
    rw [List.splitOnP_nil]
    constructor
    · intro h
      exact ⟨[], [], rfl, h, nofun⟩
    · rintro ⟨run, runs, heq, h, -⟩
      cases heq
      exact h
  | cons t ts ih =>
    rw [List.splitOnP_cons_eq_if_modifyHead, List.map_cons]
    by_cases ht : p t
    · -- The token is in the first run.
      rw [if_pos ht, ht, Bool.not_true, if_neg Bool.false_ne_true]
      constructor
      · rintro ⟨s', hnext, h⟩
        obtain ⟨run, runs, heq, hrun, hruns⟩ := (ih s').1 h
        exact ⟨t :: run, runs, by rw [heq]; rfl, ⟨s', hnext, hrun⟩, hruns⟩
      · rintro ⟨run, runs, heq, hrun, hruns⟩
        obtain ⟨run', runs', hsplit⟩ := List.exists_cons_of_ne_nil
          (List.splitOnP_ne_nil (fun t => !p t) ts)
        rw [hsplit] at heq
        obtain ⟨rfl, rfl⟩ := List.cons.inj heq
        obtain ⟨s', hnext, hrun⟩ := hrun
        exact ⟨s', hnext, (ih s').2 ⟨run', _, hsplit, hrun, hruns⟩⟩
    · -- The token ends the first run, which is empty.
      rw [if_neg ht, Bool.not_eq_true _ |>.mp ht, Bool.not_false, if_pos rfl]
      constructor
      · rintro ⟨hs, h⟩
        obtain ⟨run, runs, heq, hrun, hruns⟩ := (ih _).1 h
        refine ⟨[], _, rfl, hs, ?_⟩
        rw [heq]
        exact List.forall_mem_cons.2 ⟨accepts_iff.1 hrun, hruns⟩
      · rintro ⟨run, runs, heq, hrun, hruns⟩
        obtain ⟨rfl, rfl⟩ := List.cons.inj heq
        obtain ⟨run', runs', hsplit⟩ := List.exists_cons_of_ne_nil
          (List.splitOnP_ne_nil (fun t => !p t) ts)
        rw [hsplit, List.forall_mem_cons] at hruns
        exact ⟨hrun, (ih _).2 ⟨run', runs', hsplit, accepts_iff.2 hruns.1, hruns.2⟩⟩

end Due

/-! ## Tuplets -/

/-- The number of members that a tuplet needs after an item, if the item can come at all. -/
def Role.next? : Nat → Role → Option Nat
  | _, unknown => none
  | n, aside => some n
  | 0, sung => some 0
  | 0, stop => some 0
  | 0, tuplet size => some size.count
  | n + 1, sung => some n
  | _ + 1, _ => none

/-- The items can come one after the other, and no tuplet is left incomplete. -/
def Completes : Nat → List Role → Prop
  | n, [] => n = 0
  | n, r :: rs => ∃ n', r.next? n = some n' ∧ Completes n' rs

/-- After a voice field or comment comes the end of the line, maybe after a comment. -/
def EndsAsides (roles : List Role) : Prop :=
  roles.IsChain fun a b => a = .aside → b = .aside ∨ b = .stop

/-- An item that is no mark of a tuplet leaves the tuplets after it. -/
theorem tupletsComplete_cons {r : Role} {rs : List Role} (hr : ∀ size, r ≠ .tuplet size) :
    TupletsComplete (r :: rs) ↔ TupletsComplete rs := by
  constructor
  · intro h size after hafter
    exact h size after (hafter.trans (List.suffix_cons r rs))
  · intro h size after hafter
    rcases List.suffix_cons_iff.1 hafter with heq | hafter
    · exact absurd (List.cons.inj heq).1.symm (hr size)
    · exact h size after hafter

/-- The mark of a tuplet is followed by its members. -/
theorem tupletsComplete_tuplet {size : TupletSize} {rs : List Role} :
    TupletsComplete (.tuplet size :: rs) ↔
      List.replicate size.count .sung <+: rs ∧ TupletsComplete rs := by
  constructor
  · intro h
    refine ⟨h size rs List.suffix_rfl, fun size' after hafter => ?_⟩
    exact h size' after (hafter.trans (List.suffix_cons _ rs))
  · rintro ⟨hfirst, h⟩ size' after hafter
    rcases List.suffix_cons_iff.1 hafter with heq | hafter
    · cases heq
      exact hfirst
    · exact h size' after hafter

/-- Items can come one after the other when a tuplet is complete before anything but notes and
chords: the members that it still needs come first. -/
theorem completes_replicate {n : Nat} {roles : List Role} (h : EndsAsides roles) :
    Completes n roles ↔
      List.replicate n .sung <+: roles ∧ .unknown ∉ roles ∧ TupletsComplete roles := by
  -- Voice fields and comments do not count as members, but only the end of the line comes after
  -- them, which no tuplet can wait for.
  induction roles generalizing n with
  | nil =>
    have hnone : TupletsComplete [] := by
      intro size after hafter
      cases List.suffix_nil.1 hafter
    have hempty : List.replicate n Role.sung <+: [] ↔ n = 0 := by
      rw [List.prefix_nil, List.replicate_eq_nil_iff]
    rw [hempty]
    exact ⟨fun hn => ⟨hn, List.not_mem_nil, hnone⟩, fun hn => hn.1⟩
  | cons r rs ih =>
    obtain ⟨hhead, hrest⟩ := List.isChain_cons.1 h
    have hstep {n' : Nat} (hr : r.next? n = some n') : Completes n (r :: rs) ↔
        List.replicate n' .sung <+: rs ∧ .unknown ∉ rs ∧ TupletsComplete rs := by
      rw [← ih hrest]
      constructor
      · rintro ⟨m, hm, hcompletes⟩
        obtain rfl := Option.some.inj (hm.symm.trans hr)
        exact hcompletes
      · intro hcompletes
        exact ⟨n', hr, hcompletes⟩
    have hstuck (hr : r.next? n = none) : ¬Completes n (r :: rs) := by
      rintro ⟨m, hm, -⟩
      rw [hr] at hm
      cases hm
    have hunknown (hr : r ≠ .unknown) : .unknown ∉ r :: rs ↔ .unknown ∉ rs := by
      rw [List.mem_cons, not_or]
      exact and_iff_right hr.symm
    have htuplets (hr : ∀ size, r ≠ .tuplet size) :
        TupletsComplete (r :: rs) ↔ TupletsComplete rs := tupletsComplete_cons hr
    cases n with
    | zero =>
      cases r with
      | sung | stop | aside =>
        rw [hstep rfl, hunknown nofun, htuplets nofun]
        exact and_congr_left fun _ => iff_of_true (List.nil_prefix) (List.nil_prefix)
      | tuplet size =>
        rw [hstep rfl, hunknown nofun, tupletsComplete_tuplet]
        exact ⟨fun ⟨hfirst, hknown, h⟩ => ⟨List.nil_prefix, hknown, hfirst, h⟩,
          fun ⟨_, hknown, hfirst, h⟩ => ⟨hfirst, hknown, h⟩⟩
      | unknown => exact iff_of_false (hstuck rfl) fun h => h.2.1 List.mem_cons_self
    | succ n =>
      rw [List.replicate_succ, List.cons_prefix_cons]
      cases r with
      | sung =>
        rw [hstep rfl, hunknown nofun, htuplets nofun]
        exact ⟨fun ⟨hfirst, h⟩ => ⟨⟨rfl, hfirst⟩, h⟩, fun ⟨⟨_, hfirst⟩, h⟩ => ⟨hfirst, h⟩⟩
      | stop | tuplet | unknown => exact iff_of_false (hstuck rfl) fun h => nomatch h.1.1
      | aside =>
        rw [hstep rfl, List.replicate_succ]
        refine iff_of_false (fun ⟨hfirst, _⟩ => ?_) fun h => nomatch h.1.1
        obtain ⟨more, hmore⟩ := hfirst
        rcases hhead .sung (by rw [← hmore]; rfl) rfl with hr | hr
        · cases hr
        · cases hr

/-- Items can come one after the other exactly when all of them are known and all tuplets are
complete. -/
theorem completes_iff {roles : List Role} (h : EndsAsides roles) :
    Completes 0 roles ↔ .unknown ∉ roles ∧ TupletsComplete roles := by
  rw [completes_replicate h]
  exact and_iff_right List.nil_prefix

end SingAlong
