import SingAlong.Proofs.Moving
import SingAlong.Proofs.Rounding
import SingAlong.Proofs.Timeline

/-!
# Music that can be reached

`Music.Reachable` is all music that there is: what the constructors accept, what is made of it by
transposing and stretching, the songs that are read from any text, and their voices. All of it is
built (`Reachable.built`): whatever the elements of a tune, the compiler makes its expressions by
the constructors, and a song has one voice of each name.

Built music takes no negative time, and when it is played from a beat on, nothing is scheduled
before that beat, whatever comes in between, up to rounding (`Reachable.notBefore`): only the notes
of tuplets that round their shares may start before the beat, at the nearest double-precision
number (`starts_before`).
-/

namespace SingAlong

open Music (Built built_iff built_pair built_silence built_sequence voiceNames)

/-! ## Compiled music -/

namespace Compiler

variable {c : Compiler}

mutual
/-- What an element is compiled to is built. -/
theorem built_compile : ∀ (n : Node) {table table' : AccidentalTable} {m : Music},
    c.compile n table = .ok m table' → m.Built
  | .mk label _ _ ns, _, _, _, h => by
    unfold compile at h
    split at h
    -- Notes, rests, chords and tuplets are made by their constructors.
    · obtain ⟨factor, p, -, hm⟩ := note_made h
      exact .note hm
    · obtain ⟨l, hm⟩ := rest_made h
      exact .rest hm
    · obtain ⟨ms, t, hms, h⟩ := bind_ok h
      exact .chord (built_compileAll ns hms) (lift_ok h).1
    · obtain ⟨ms, t, hms, h⟩ := bind_ok h
      exact .tuplet (built_compileAll ns hms) (lift_ok h).1
    · -- A bar only clears the table of accidentals.
      obtain ⟨_, t, -, h⟩ := bind_ok h
      cases h
      exact built_silence
    · -- A line is the sequence of its elements.
      obtain ⟨ms, t, hms, h⟩ := bind_ok h
      cases h
      exact built_sequence (built_compileLine ns hms)
    · -- Everything else is silent.
      cases h
      exact built_silence
/-- What the elements of a list are compiled to is built. -/
theorem built_compileAll : ∀ (ns : List Node) {table table' : AccidentalTable} {ms : List Music},
    c.compileAll ns table = .ok ms table' → ∀ m ∈ ms, m.Built
  | [], _, _, _, h => by
    unfold compileAll at h
    cases h
    exact nofun
  | n :: ns, _, _, _, h => by
    unfold compileAll at h
    obtain ⟨m, t, hm, h⟩ := bind_ok h
    obtain ⟨ms, t', hms, h⟩ := bind_ok h
    cases h
    exact List.forall_mem_cons.2 ⟨built_compile n hm, built_compileAll ns hms⟩
/-- What the elements of a line are compiled to is built. -/
theorem built_compileLine : ∀ (ns : List Node) {table table' : AccidentalTable} {ms : List Music},
    c.compileLine ns table = .ok ms table' → ∀ m ∈ ms, m.Built
  | [], _, _, _, h => by
    unfold compileLine at h
    cases h
    exact nofun
  | n :: ns, _, _, _, h => by
    unfold compileLine at h
    split_ifs at h
    · -- A comment is left out.
      exact built_compileLine ns h
    · obtain ⟨m, t, hm, h⟩ := bind_ok h
      obtain ⟨ms, t', hms, h⟩ := bind_ok h
      cases h
      exact List.forall_mem_cons.2 ⟨built_compile n hm, built_compileLine ns hms⟩
end

/-- The elements of a voice are compiled to built music. -/
theorem built_compileVoice {elements : List Node} {ms : List Music}
    (h : c.compileVoice elements = .ok ms) : ∀ m ∈ ms, m.Built := by
  unfold compileVoice at h
  split at h
  next hrun =>
    cases h
    exact built_compileAll elements hrun
  next => cases h

/-- The notes of a voice are built. -/
theorem built_timeline {expressions : List Music} (h : ∀ m ∈ expressions, m.Built)
    (order : List Nat) : (timeline expressions order).Built :=
  built_sequence fun m hm => h m (mem_of_mem_pick m (List.mem_of_mem_filter hm))

/-- A voice is built. -/
theorem built_voice {elements lyrics : List Node} {music : Music} {dropped : Nat}
    (h : c.voice elements lyrics = .ok (music, dropped)) : music.Built := by
  obtain ⟨expressions, hexpressions, ⟨-, rfl⟩ | ⟨-, shown, hshown, rfl⟩⟩ := voice_ok h
  all_goals have hnotes := built_timeline (built_compileVoice hexpressions) (expand elements)
  · exact built_iff.2 ⟨List.cons_ne_nil _ _, List.forall_mem_singleton.2 hnotes⟩
  · have hlyrics := Slot.displayFrom_forall (fun h => Built.lyric (Slot.lyric_made h)) hshown
    exact built_iff.2 ⟨List.cons_ne_nil _ _, built_pair (built_sequence hlyrics) hnotes⟩

end Compiler

/-! ## Songs -/

/-- Elements that are added to a voice leave the names, unless the voice is new. -/
theorem VoiceParts.voiceNames_add (name : Text) (elements lyrics : List Node)
    (vs : List (Text × VoiceParts)) :
    voiceNames (add name elements lyrics vs) =
      if name ∈ voiceNames vs then voiceNames vs else voiceNames vs ++ [name] := by
  refine Music.voiceNames_put rfl (fun v vs => ?_) vs
  rw [add]
  split_ifs <;> rfl

/-- The voices of a body have different names. -/
theorem nodup_splitVoices {ns : List Node} {current : Text} {vs : List (Text × VoiceParts)}
    (h : (voiceNames vs).Nodup) : (voiceNames (splitVoices current vs ns)).Nodup := by
  induction ns generalizing current vs with
  | nil => exact h
  | cons n rest ih =>
    have hadd (elements lyrics : List Node) :
        (voiceNames (VoiceParts.add current elements lyrics vs)).Nodup := by
      rw [VoiceParts.voiceNames_add]
      exact Music.nodup_put current h
    unfold splitVoices
    split
    · exact ih h
    · exact ih (hadd _ _)
    · exact ih (hadd _ _)
    · exact ih h

namespace Song

/-- The voices of a song have the names of those of its body. -/
theorem voiceNames_ofBody {c : Compiler} {body : Option Node} {song : Song}
    (h : ofBody c body = .ok song) :
    voiceNames song.voices = voiceNames ((body.map Node.voiceParts).getD []) := by
  obtain ⟨voices, hvoices, h⟩ := bind_eq_ok.1 h
  cases h
  have hnames : List.Forall₂ (fun (v : Text × VoiceParts) (w : Text × Music × Nat) => w.1 = v.1)
      ((body.map Node.voiceParts).getD []) voices := by
    refine (mapM_eq_ok.1 hvoices).imp fun v w hvw => ?_
    obtain ⟨_, -, hvw⟩ := bind_eq_ok.1 hvw
    cases hvw
    rfl
  have hpairs : List.Forall₂ Eq (voices.map Prod.fst)
      (((body.map Node.voiceParts).getD []).map Prod.fst) :=
    List.forall₂_map_left_iff.2 (List.forall₂_map_right_iff.2 hnames.flip)
  unfold voiceNames
  rw [List.map_map]
  exact List.forall₂_eq_eq_eq ▸ hpairs

/-- A song is built. -/
theorem built_ofBody {c : Compiler} {body : Option Node} {song : Song}
    (h : ofBody c body = .ok song) : song.piece.Built := by
  refine built_iff.2 ⟨?_, fun v hv => ?_⟩
  · rw [voiceNames_ofBody h]
    cases body with
    | none => exact .nil
    | some b => exact nodup_splitVoices .nil
  · obtain ⟨b, parts, dropped, -, -, hvoice⟩ := (ofBody_voices h).2 v hv
    exact Compiler.built_voice hvoice

/-- A song that is read from a text is built. -/
theorem built_read {source : Text} {instrument : Instrument} {song : Song}
    (h : read source instrument = .ok song) : song.piece.Built := by
  obtain ⟨document, -, h⟩ := bind_eq_ok.1 h
  have hof := mapError_eq_ok.1 h
  unfold ofDocument at hof
  split at hof
  next => cases hof
  next header _ =>
    obtain ⟨fields, -, hof⟩ := bind_eq_ok.1 hof
    obtain ⟨resolved, -, hof⟩ := bind_eq_ok.1 hof
    exact built_ofBody hof

end Song

/-! ## Playing -/

/-- Nothing is scheduled before the beat, up to rounding, and no note has a negative length. -/
structure Schedule.NotBefore (b : Rat) (s : Schedule) : Prop where
  notes : ∀ n ∈ s.notes, n.length.Nonneg ∧ n.start.AtLeast b
  lyrics : ∀ l ∈ s.lyrics, b ≤ l.beat

/-- Nothing is in the empty schedule. -/
theorem Schedule.notBefore_empty (b : Rat) : Schedule.empty.NotBefore b where
  notes := List.forall_mem_nil _
  lyrics := List.forall_mem_nil _

open Player (Alike alike_pure alike_throw alike_check alike_note alike_lyric)

namespace Player

/-- The same schedule, in which nothing is before the beat. -/
def Onward (b : Rat) (s t : Schedule) : Prop :=
  s = t ∧ s.NotBefore b

variable {b : Rat}

/-- A note may be added from the beat on. -/
theorem onward_note (i : Instrument) (p : Pitch) {beat length : Beats} (hbeat : beat.AtLeast b)
    (hlength : length.Nonneg) :
    Alike (Onward b) (addNote ⟨i, p, beat, length⟩) (addNote ⟨i, p, beat, length⟩) := by
  refine alike_note ?_
  rintro s _ ⟨rfl, h⟩
  have hnew : ∀ n ∈ [ScheduledNote.mk i p beat length], n.length.Nonneg ∧ n.start.AtLeast b :=
    List.forall_mem_singleton.2 ⟨hlength, hbeat⟩
  exact ⟨rfl, List.forall_mem_append.2 ⟨h.notes, hnew⟩, h.lyrics⟩

/-- A lyric may be added from the beat on. -/
theorem onward_lyric {beat : Rat} (t : Text) (hbeat : b ≤ beat) :
    Alike (Onward b) (addLyric ⟨beat, t⟩) (addLyric ⟨beat, t⟩) := by
  refine alike_lyric ?_
  rintro s _ ⟨rfl, h⟩
  have hnew : ∀ l ∈ [ScheduledLyric.mk beat t], b ≤ l.beat := List.forall_mem_singleton.2 hbeat
  exact ⟨rfl, h.notes, List.forall_mem_append.2 ⟨h.lyrics, hnew⟩⟩

end Player

open Player (Onward onward_note onward_lyric)

namespace Music

/-- Playing the expression from the beat or later schedules nothing before the beat. -/
def PlaysOnward (name : Text) (b : Rat) (m : Music) : Prop :=
  ∀ beat, b ≤ beat → Alike (Onward b) (m.play name beat) (m.play name beat)

section

variable {name : Text} {b : Rat}

mutual
/-- Nothing is before the beat when notes and chords are played stretched from there on. -/
theorem onward_playStretched {length beat : Beats} (hbeat : beat.AtLeast b)
    (hlength : length.Nonneg) : ∀ m : Music,
    Alike (Onward b) (playStretched length beat m) (playStretched length beat m)
  | note _ p i => alike_check.bind (onward_note i p hbeat hlength)
  | chord ns => alike_check.bind (onward_playAllStretched hbeat hlength ns)
  | rest _ | lyric _ _ | tuplet _ | concat _ _ | component _ | piece _ _ => alike_throw _
/-- Nothing is before the beat when lists of notes and chords are played stretched from there on. -/
theorem onward_playAllStretched {length beat : Beats} (hbeat : beat.AtLeast b)
    (hlength : length.Nonneg) : ∀ ms : List Music,
    Alike (Onward b) (playAllStretched length beat ms) (playAllStretched length beat ms)
  | [] => alike_pure
  | m :: ms =>
    (onward_playStretched hbeat hlength m).bind (onward_playAllStretched hbeat hlength ms)
end

/-- Nothing is before the beat when the members of a tuplet are played from there on: adding their
share to a beat does not lead back, rounded or not. -/
theorem onward_playEvenly {length beat : Beats} (hlength : length.Nonneg) (hbeat : beat.AtLeast b)
    (hrounded : beat.IsRounded) (ms : List Music) :
    Alike (Onward b) (playEvenly length beat ms) (playEvenly length beat ms) := by
  induction ms generalizing beat with
  | nil => exact alike_pure
  | cons m ms ih =>
    rw [playEvenly]
    refine alike_member (onward_playStretched hbeat hlength m) rfl ?_
    cases hnext : beat.add? length with
    | some next =>
      obtain ⟨hlater, hrounded⟩ := Beats.add?_atLeast hbeat hrounded hlength hnext
      exact ih hlater hrounded
    | none => exact alike_throw _

variable {beat : Rat}

/-- Nothing is before the beat when expressions are played together that play onward. -/
theorem onward_playAll {ms : List Music} (h : ∀ m ∈ ms, m.PlaysOnward name b) (hbeat : b ≤ beat) :
    Alike (Onward b) (playAll name beat ms) (playAll name beat ms) := by
  induction ms with
  | nil => exact alike_pure
  | cons m ms ih =>
    obtain ⟨hm, hms⟩ := List.forall_mem_cons.1 h
    exact (hm beat hbeat).bind (ih hms)

/-- Nothing is before the beat when voices are played together that play onward. -/
theorem onward_playVoices {vs : List (Text × Music)} (h : ∀ v ∈ vs, v.2.PlaysOnward name b)
    (hbeat : b ≤ beat) :
    Alike (Onward b) (playVoices name beat vs) (playVoices name beat vs) := by
  induction vs with
  | nil => exact alike_pure
  | cons v vs ih =>
    obtain ⟨hv, hvs⟩ := List.forall_mem_cons.1 h
    exact (hv beat hbeat).bind (ih hvs)

/-- Nothing is before the beat when one of the voices that play onward is played. -/
theorem onward_playVoice (header : Header) {vs : List (Text × Music)}
    (h : ∀ v ∈ vs, v.2.PlaysOnward name b) (hbeat : b ≤ beat) :
    Alike (Onward b) (playVoice name beat header vs) (playVoice name beat header vs) := by
  induction vs with
  | nil =>
    rw [playVoice]
    split_ifs
    · exact alike_check
    · exact alike_throw _
  | cons v vs ih =>
    obtain ⟨hv, hvs⟩ := List.forall_mem_cons.1 h
    rw [playVoice]
    split_ifs
    · exact hv beat hbeat
    · exact ih hvs

/-- Built music plays onward. -/
theorem Built.playsOnward {m : Music} (h : m.Built) (name : Text) (b : Rat) :
    m.PlaysOnward name b := by
  induction h with
  | note h =>
    obtain ⟨hl, rfl⟩ := mkNote_eq_ok.1 h
    exact fun beat hbeat => alike_check.bind (onward_note _ _ hbeat ⟨_, rfl, hl⟩)
  | rest h =>
    obtain ⟨-, rfl⟩ := mkRest_eq_ok.1 h
    exact fun _ _ => alike_check
  | lyric h =>
    obtain ⟨-, -, rfl⟩ := mkLyric_eq_ok.1 h
    intro beat hbeat
    rw [play]
    refine alike_check.bind ?_
    split_ifs
    · exact alike_pure
    · exact onward_lyric _ hbeat
  | chord _ h ih =>
    obtain ⟨-, -, rfl⟩ := mkChord_eq_ok.1 h
    exact fun beat hbeat => alike_check.bind (onward_playAll ih hbeat)
  | @tuplet ns _ hns h _ =>
    obtain ⟨-, -, rfl⟩ := mkTuplet_eq_ok.1 h
    intro beat hbeat
    -- The share is not negative, rounded or not; where there is none, nothing is scheduled.
    have hstart : (Beats.exact beat).AtLeast b := hbeat
    rw [play_tuplet]
    refine alike_check.bind ?_
    cases hlength : share? ns with
    | some length =>
      have hshare := Length.part?_nonneg (Built.tuplet hns h).duration_nonneg hlength
      exact onward_playEvenly hshare hstart trivial ns
    | none => exact alike_throw _
  | concat ha _ iha ihb =>
    intro beat hbeat
    have hnext := hbeat.trans (le_add_of_nonneg_right ha.duration_nonneg)
    exact alike_check.bind ((iha beat hbeat).bind (ihb _ hnext))
  | component _ h ih =>
    obtain ⟨-, rfl⟩ := mkComponent_eq_ok.1 h
    exact fun beat hbeat => alike_check.bind (onward_playAll ih hbeat)
  | piece _ ih =>
    intro beat hbeat
    have hvoices := fun v hv => ih v ((mem_foldl_putVoice hv).resolve_left List.not_mem_nil)
    rw [mkPiece, play]
    refine alike_check.bind ?_
    split_ifs
    · exact onward_playVoices hvoices hbeat
    · exact onward_playVoice _ hvoices hbeat

end

/-- What is scheduled of built music is not before the start beat, also when playing fails or is
cancelled. -/
theorem Built.scheduled_notBefore {m : Music} (h : m.Built) (name : Text) (beat : Rat)
    (flag : CancelFlag) : (m.scheduled name beat flag).1.NotBefore beat :=
  have honward := h.playsOnward name beat beat le_rfl
  (scheduled_alike honward ⟨rfl, Schedule.notBefore_empty beat⟩ flag).1.2

/-! ## All music -/

/-- Music that can be reached: by the constructors, by transposing, by stretching where there is a
copy, by reading any text, and as a voice of a piece. -/
inductive Reachable : Music → Prop where
  | note {l : Length} {p : Pitch} {i : Instrument} {m : Music} : mkNote l p i = .ok m → Reachable m
  | rest {l : Length} {m : Music} : mkRest l = .ok m → Reachable m
  | lyric {t : Text} {l : Length} {m : Music} : mkLyric t l = .ok m → Reachable m
  | chord {ns : List Music} {m : Music} :
    (∀ n ∈ ns, Reachable n) → mkChord ns = .ok m → Reachable m
  | tuplet {ns : List Music} {m : Music} :
    (∀ n ∈ ns, Reachable n) → mkTuplet ns = .ok m → Reachable m
  | concat {a b : Music} : Reachable a → Reachable b → Reachable (concat a b)
  | component {ps : List Music} {m : Music} :
    (∀ p ∈ ps, Reachable p) → mkComponent ps = .ok m → Reachable m
  | piece {entries : List (Text × Music)} {h : Header} :
    (∀ e ∈ entries, Reachable e.2) → Reachable (mkPiece entries h)
  | transpose {m : Music} (n : Int) : Reachable m → Reachable (m.transpose n)
  | stretch {m copy : Music} {l : Length} :
    Reachable m → m.stretch l = .ok copy → Reachable copy
  | read {source : Text} {instrument : Instrument} {song : Song} :
    Song.read source instrument = .ok song → Reachable song.piece
  | voice {vs : List (Text × Music)} {h : Header} {name : Text} {m : Music} :
    Reachable (.piece vs h) → voice vs h name = .ok m → Reachable m

/-- A voice of built voices is built; one that only the header declares is silent. -/
theorem built_of_voice {vs : List (Text × Music)} {h : Header} {name : Text} {m : Music}
    (hvs : ∀ v ∈ vs, v.2.Built) (hm : voice vs h name = .ok m) : m.Built := by
  unfold voice at hm
  split at hm
  next hlookup =>
    cases hm
    obtain ⟨_, _, rfl, -⟩ := List.lookup_eq_some_iff.1 hlookup
    exact hvs (name, m) (List.mem_append_right _ List.mem_cons_self)
  next =>
    split_ifs at hm
    cases hm
    exact built_silence

/-- All music is built. -/
theorem Reachable.built {m : Music} (h : m.Reachable) : m.Built := by
  induction h with
  | note h => exact .note h
  | rest h => exact .rest h
  | lyric h => exact .lyric h
  | chord _ h ih => exact .chord ih h
  | tuplet _ h ih => exact .tuplet ih h
  | concat _ _ iha ihb => exact .concat iha ihb
  | component _ h ih => exact .component ih h
  | piece _ ih => exact .piece ih
  | transpose n _ ih => exact ih.transpose n
  | stretch _ h _ => exact built_of_stretch h
  | read h => exact Song.built_read h
  | voice _ h ih => exact built_of_voice (built_iff.1 ih).2 h

/-- All notes of music with exact shares start at exact beats, as those of delayed music do. -/
theorem exact_starts {m : Music} (h : m.ExactShares) (name : Text) (beat : Rat)
    (flag : CancelFlag) : ∀ n ∈ (m.scheduled name beat flag).1.notes, ∃ q, n.start = .exact q := by
  obtain ⟨hdelayed, -, -⟩ := scheduled_delayed h 0 name beat flag
  have hstarts := hdelayed.imp fun k k' hk => And.intro (hk.start.imp fun q => And.left) hk
  exact ((List.forall₂_and_left _ _).1 hstarts).1

/-- Music takes no negative time, no note that is scheduled has a negative length, and no lyric is
scheduled before the beat that playing starts from, however it ends. No note is either, but that a
start that is rounded counts from the rounded beat: when no share is rounded, all starts are exact
and none is before the beat itself. -/
theorem Reachable.notBefore {m : Music} (h : m.Reachable) :
    0 ≤ m.duration.value ∧ ∀ name beat flag,
      let s := (m.scheduled name beat flag).1
      (∀ n ∈ s.notes, n.length.Nonneg ∧ n.start.AtLeast beat) ∧
        (∀ l ∈ s.lyrics, beat ≤ l.beat) ∧
        (m.ExactShares → ∀ n ∈ s.notes, ∃ q, n.start = .exact q ∧ beat ≤ q) := by
  refine ⟨h.built.duration_nonneg, fun name beat flag => ?_⟩
  intro s
  have hschedule := h.built.scheduled_notBefore name beat flag
  refine ⟨hschedule.notes, hschedule.lyrics, fun hexact n hn => ?_⟩
  obtain ⟨q, hstart⟩ := exact_starts hexact name beat flag n hn
  have hatLeast := (hschedule.notes n hn).2
  rw [hstart] at hatLeast
  exact ⟨q, hstart, hatLeast⟩

/-- A song of a triplet with a syllable. -/
def tripletSong : Text :=
  "X:1\nT:t\nK:C\n(3CDE\nw:a".text

/-- The song, when it sounds an octave lower and is played from the second beat on, has notes and
lyrics, and none of them is before that beat. -/
theorem Reachable.notBefore_song :
    ∃ song, Song.read tripletSong .piano = .ok song ∧
      let m := song.piece.transpose (-12)
      let s := (m.scheduled "default".text 1 .unset).1
      s.notes ≠ [] ∧ s.lyrics ≠ [] ∧ m.ExactShares ∧
        (∀ n ∈ s.notes, ∃ q, n.start = .exact q ∧ 1 ≤ q) ∧ ∀ l ∈ s.lyrics, 1 ≤ l.beat := by
  have hread : (Song.read tripletSong .piano).toOption.any fun song =>
      let m := song.piece.transpose (-12)
      let s := (m.scheduled "default".text 1 .unset).1
      decide (s.notes ≠ [] ∧ s.lyrics ≠ [] ∧ m.ExactShares) := by decide +kernel
  obtain ⟨song, hsong, hplayed⟩ := (Option.any_eq_true _ _).1 hread
  have hsong := toOption_eq_some.1 hsong
  obtain ⟨hnotes, hlyrics, hexact⟩ := of_decide_eq_true hplayed
  have hreached := (Reachable.read hsong).transpose (-12)
  obtain ⟨-, honward, hstarts⟩ := (Reachable.notBefore hreached).2 "default".text 1 .unset
  exact ⟨song, hsong, hnotes, hlyrics, hexact, hstarts hexact, honward⟩

/-- A duplet of notes of the whole length zero. -/
def silentDuplet : Music :=
  tuplet [note (.whole 0) ⟨.C, 0⟩ .piano, note (.whole 0) ⟨.D, 0⟩ .piano]

/-- Played from a third of a beat on, the second note of the duplet starts before that: at the
nearest double-precision number. -/
theorem starts_before :
    silentDuplet.Reachable ∧
      (silentDuplet.scheduled [] (1 / 3) .unset).1.notes.map (·.start.toRat?) =
        [some (1 / 3), some (6004799503160661 / 18014398509481984)] ∧
      (6004799503160661 / 18014398509481984 : Rat) < 1 / 3 := by
  have hnote (p : Pitch) : (note (.whole 0) p .piano).Reachable :=
    .note (mkNote_eq_ok.2 ⟨le_rfl, rfl⟩)
  have hnotes : ∀ n ∈ [note (.whole 0) ⟨.C, 0⟩ .piano, note (.whole 0) ⟨.D, 0⟩ .piano],
      n.Reachable := List.forall_mem_cons.2 ⟨hnote _, List.forall_mem_singleton.2 (hnote _)⟩
  exact ⟨.tuplet hnotes rfl, by decide +kernel, by decide +kernel⟩

end Music

end SingAlong
