import SingAlong.Proofs.LyricTime
import SingAlong.Proofs.Promises
import Mathlib.Algebra.Order.BigOperators.Group.List

/-!
# Showing the lyrics of a song

A performance of a song for one of its voices shows the lyrics of the voice, in the order of their
timeline, and ends after them, at the end of the longest voice (`Song.read_perform`).

The lyrics of a voice are scheduled in the order of their beats, and none after the end of the
voice, since no lyric takes a negative time (`Music.inTurn_beats`). The event at the end of the song
is scheduled last, so sorting by beats changes nothing, and a run without a flag performs all events
as they are (`Sequencer.runEvents_shows`).
-/

namespace SingAlong

open Player (Adds)

/-! ## The lyric timeline -/

namespace Music

/-- The texts of lyrics that come one after the other. -/
def lyricTexts : Music → List Text
  | lyric t _ => [t]
  | concat a b => lyricTexts a ++ lyricTexts b
  | _ => []

/-- The timeline of the lyrics of a voice: the first of its parts, if it has more than one. -/
def lyricTimeline? : Music → Option Music
  | component (first :: _ :: _) => some first
  | _ => none

/-- The texts of a sequence are those of its expressions. -/
theorem lyricTexts_sequence (ms : List Music) :
    (sequence ms).lyricTexts = ms.flatMap lyricTexts := by
  have hfold (first : Music) :
      (ms.foldl concat first).lyricTexts = first.lyricTexts ++ ms.flatMap lyricTexts := by
    induction ms generalizing first with
    | nil => exact (List.append_nil _).symm
    | cons m ms ih => rw [List.foldl_cons, ih, lyricTexts, List.append_assoc, List.flatMap_cons]
  exact hfold silence

variable {name : Text} {ms : List Music}

/-- Lyrics are scheduled with their texts. -/
theorem inTurn_texts (hname : name ≠ []) (beat : Rat) (h : ∀ m ∈ ms, ∃ t l, m = .lyric t l) :
    (inTurn (shownLyrics name) beat ms).map ScheduledLyric.text = ms.flatMap lyricTexts := by
  induction ms generalizing beat with
  | nil => rfl
  | cons m ms ih =>
    obtain ⟨⟨t, l, rfl⟩, hms⟩ := List.forall_mem_cons.1 h
    rw [inTurn, shownLyrics_lyric hname, List.map_append, ih _ hms, List.flatMap_cons]
    rfl

/-- A lyric is scheduled at its own beat. -/
theorem shownLyrics_beat {beat : Rat} {m : Music} :
    ∀ l ∈ shownLyrics name beat m, l.beat = beat := by
  unfold shownLyrics
  split
  · split_ifs
    · exact nofun
    · exact List.forall_mem_singleton.2 rfl
  · exact nofun

/-- Lyrics that take no negative time are scheduled in the order of their beats, from the first beat
to the end of the last lyric. -/
theorem inTurn_beats (beat : Rat) (htime : ∀ m ∈ ms, 0 ≤ m.duration.value) :
    (inTurn (shownLyrics name) beat ms).Pairwise (fun l k => l.beat ≤ k.beat) ∧
      ∀ l ∈ inTurn (shownLyrics name) beat ms, beat ≤ l.beat ∧ l.beat ≤ beat + totalTime ms := by
  induction ms generalizing beat with
  | nil => exact ⟨.nil, List.forall_mem_nil _⟩
  | cons m ms ih =>
    obtain ⟨hm, hms⟩ := List.forall_mem_cons.1 htime
    obtain ⟨hsorted, hwithin⟩ := ih (beat + m.duration.value) hms
    have htotal : 0 ≤ totalTime (m :: ms) := List.sum_nonneg (List.forall_mem_map.2 htime)
    have hnext : beat ≤ beat + m.duration.value := le_add_of_nonneg_right hm
    rw [totalTime_cons] at htotal ⊢
    constructor
    · refine List.pairwise_append.2 ⟨?_, hsorted, fun l hl k hk => ?_⟩
      · refine List.pairwise_of_forall_mem_list fun l hl k hk => ?_
        rw [shownLyrics_beat l hl, shownLyrics_beat k hk]
      · rw [shownLyrics_beat l hl]
        exact hnext.trans (hwithin k hk).1
    · refine List.forall_mem_append.2 ⟨fun l hl => ?_, fun l hl => ?_⟩
      · rw [shownLyrics_beat l hl]
        exact ⟨le_rfl, le_add_of_nonneg_right htotal⟩
      · obtain ⟨hstart, hstop⟩ := hwithin l hl
        rw [add_assoc] at hstop
        exact ⟨hnext.trans hstart, hstop⟩

end Music

namespace Slot

/-- A lyric that is made takes no negative time. -/
theorem lyric_nonneg {before after : List Slot} {s : Slot} {l : Length} {m : Music}
    (h : s.lyric before l after = .ok m) : 0 ≤ m.duration.value := by
  obtain ⟨-, hl, rfl⟩ := Music.mkLyric_eq_ok.1 (lyric_made h)
  exact hl

/-- Lyrics that are displayed take no negative time. -/
theorem displayFrom_nonneg {before slots : List Slot} {lengths : List Length} {ms : List Music}
    (h : displayFrom before slots lengths = .ok ms) : ∀ m ∈ ms, 0 ≤ m.duration.value :=
  displayFrom_forall lyric_nonneg h

end Slot

/-! ## The lyrics of a song -/

/-- The texts of the lyrics of a voice, in the order of their timeline. -/
def Song.lyricTexts (s : Song) (name : Text) : List Text :=
  ((s.voices.lookup name).bind Music.lyricTimeline?).elim [] Music.lyricTexts

namespace Music

/-- The first voice with the name is played, or silence if only the header declares the voice. -/
theorem playVoice_eq (name : Text) (beat : Rat) (h : Header) (vs : List (Text × Music)) :
    playVoice name beat h vs =
      match vs.lookup name with
      | some m => play name beat m
      | none => if h.voices.contains name then Player.check else throw (.unknownVoice ⟨name⟩) := by
  induction vs with
  | nil => rw [playVoice, List.lookup_nil]
  | cons v vs ih =>
    obtain ⟨other, m⟩ := v
    rw [playVoice, List.lookup_cons]
    by_cases hv : other = name
    · rw [if_pos hv, beq_iff_eq.2 hv.symm]
    · rw [if_neg hv, ih, beq_eq_false_iff_ne.2 (Ne.symm hv)]

/-- A named voice of a piece adds its own schedule. One that only the header declares adds
nothing. -/
theorem adds_piece {name : Text} {beat : Rat} {vs : List (Text × Music)} {h : Header}
    {s : Schedule} (hname : name ≠ [])
    (hs : match vs.lookup name with
      | some m => Adds (m.play name beat) s
      | none => h.voices.contains name ∧ s = .empty) :
    Adds ((piece vs h).play name beat) s := by
  have hplay : Adds (playVoice name beat h vs) s := by
    rw [playVoice_eq]
    cases hlookup : vs.lookup name with
    | some m =>
      rw [hlookup] at hs
      exact hs
    | none =>
      rw [hlookup] at hs
      obtain ⟨hdeclared, rfl⟩ := hs
      dsimp only
      rw [if_pos hdeclared]
      exact Player.adds_check
  unfold play
  rw [if_neg (by rwa [List.isEmpty_iff])]
  exact hplay.checked

end Music

/-- What a voice of a song adds: the notes of the elements that are performed, whichever voice is
named, and the lyrics of its timeline, which is as long as the voice if there is one. -/
theorem Song.adds_voice {source : Text} {instrument : Instrument} {song : Song} {name : Text}
    {music : Music} (h : Song.read source instrument = .ok song)
    (hv : (name, music) ∈ song.voices) :
    ∃ performed shown : List Music,
      (∀ m ∈ shown, (∃ t l, m = .lyric t l) ∧ 0 ≤ m.duration.value) ∧
      (shown = [] ∨ music.duration.value = Music.totalTime shown) ∧
      music.lyricTimeline?.elim [] Music.lyricTexts = shown.flatMap Music.lyricTexts ∧
      ∀ voice beat, Adds (music.play voice beat)
        ⟨Music.performedNotes beat performed,
          Music.inTurn (Music.shownLyrics voice) beat shown⟩ := by
  obtain ⟨-, -, parts, expressions, -, -, -, -, -, hcompiled, -, hmusic⟩ := Song.read_music h hv
  have hnotes (voice : Text) (beat : Rat) :
      Adds ((Compiler.timeline expressions (expand parts.elements)).play voice beat)
        ⟨Music.performedNotes beat (Compiler.pick expressions (expand parts.elements)), []⟩ :=
    Music.adds_performed voice beat fun m hm => hcompiled m (Compiler.mem_of_mem_pick m hm)
  refine ⟨Compiler.pick expressions (expand parts.elements), ?_⟩
  rcases hmusic with ⟨-, rfl⟩ | ⟨-, shown, hshown, rfl⟩
  · exact ⟨[], List.forall_mem_nil _, .inl rfl, rfl, fun voice beat =>
      Music.adds_component_single (hnotes voice beat)⟩
  · have hlyrics := Slot.displayFrom_lyrics hshown
    refine ⟨shown, fun m hm => ⟨hlyrics m hm, Slot.displayFrom_nonneg hshown m hm⟩, ?_,
      Music.lyricTexts_sequence shown, fun voice beat => ?_⟩
    · -- The lyrics are the first part, so the voice lasts as long as they do.
      exact .inr (Music.duration_sequence shown)
    · have hadds := Music.adds_component (Music.adds_lyrics voice beat hlyrics) (hnotes voice beat)
      rwa [Schedule.append_eq, List.append_nil, List.nil_append] at hadds

/-- A song schedules the lyrics of a voice that is named in the order of their timeline and of their
beats, and none after its end. -/
theorem Song.read_schedule {source : Text} {instrument : Instrument} {song : Song} {name : Text}
    (h : Song.read source instrument = .ok song) (hname : name ≠ [])
    (hvoice : name ∈ song.voices.map Prod.fst ∨ name ∈ song.header.voices) (beat : Rat) :
    ∃ schedule, song.piece.scheduled name beat .unset = (schedule, none) ∧
      schedule.lyrics.map ScheduledLyric.text = song.lyricTexts name ∧
      schedule.lyrics.Pairwise (fun l k => l.beat ≤ k.beat) ∧
      ∀ l ∈ schedule.lyrics, l.beat ≤ beat + song.piece.duration.value := by
  unfold lyricTexts
  cases hlookup : song.voices.lookup name with
  | none =>
    have hdeclared : song.header.voices.contains name := by
      refine List.contains_iff_mem.2 (hvoice.resolve_left fun hmem => ?_)
      obtain ⟨v, hv, rfl⟩ := List.mem_map.1 hmem
      have hne := List.lookup_eq_none_iff.1 hlookup v hv
      exact bne_iff_ne.1 hne rfl
    have hadds : Adds (song.piece.play name beat) .empty :=
      Music.adds_piece hname (by rw [hlookup]; exact ⟨hdeclared, rfl⟩)
    exact ⟨_, Music.scheduled_of_adds hadds, rfl, .nil, List.forall_mem_nil _⟩
  | some music =>
    have hv : (name, music) ∈ song.voices := by
      obtain ⟨before, after, hvoices, -⟩ := List.lookup_eq_some_iff.1 hlookup
      rw [hvoices]
      exact List.mem_append_right _ List.mem_cons_self
    obtain ⟨performed, shown, hshown, hlast, htexts, hplay⟩ := Song.adds_voice h hv
    have hadds : Adds (song.piece.play name beat) _ :=
      Music.adds_piece hname (by rw [hlookup]; exact hplay name beat)
    obtain ⟨hsorted, hwithin⟩ := @Music.inTurn_beats name shown beat fun m hm => (hshown m hm).2
    refine ⟨_, Music.scheduled_of_adds hadds, ?_, hsorted, fun l hl => ?_⟩
    · exact (Music.inTurn_texts hname beat fun m hm => (hshown m hm).1).trans htexts.symm
    · rcases hlast with rfl | hlast
      · cases hl
      · calc l.beat ≤ beat + Music.totalTime shown := (hwithin l hl).2
          _ = beat + music.duration.value := by rw [hlast]
          _ ≤ beat + song.piece.duration.value :=
            add_le_add_right (Music.duration_le_longest hv :) beat

/-! ## Performing -/

namespace Sequencer

/-- The event that shows a scheduled lyric. -/
def shows (l : ScheduledLyric) : Event :=
  ⟨l.beat, .show l.text⟩

section Quiet

variable {s : Sequencer} (hflag : s.flag = none) (hrealtime : s.realtime = false)
  (hroom : s.room = none)

include hflag hrealtime

/-- Without a flag, and not in real time, nothing comes before an event. -/
theorem endOf_approach_of_no_flag (e : Event) : endOf (approach e) s = (s, none) := by
  have happroach := endOf_approach hrealtime e
  cases s
  cases hflag
  exact happroach

include hroom

/-- When there is room for all of them, lyrics are shown one after the other. -/
theorem runEvents_shows (lyrics : List ScheduledLyric) (rest : List Event) :
    endOf (runEvents (lyrics.map shows ++ rest)) s =
      endOf (runEvents rest)
        { s with written := s.written ++ lyrics.flatMap fun l => shownLyric l.text } := by
  induction lyrics generalizing s with
  | nil =>
    rw [List.flatMap_nil, List.append_nil]
    rfl
  | cons l lyrics ih =>
    have hwrite : s.write? (shownLyric l.text) =
        some { s with written := s.written ++ shownLyric l.text } := by
      unfold write?
      split_ifs with hempty
      · rw [List.isEmpty_iff.1 hempty, List.append_nil]
      · rw [hroom]
    have hperform : endOf (perform (shows l)) s =
        ({ s with written := s.written ++ shownLyric l.text }, none) := by
      change endOf (showLyric l.text) s = _
      rw [endOf_showLyric, hwrite]
    rw [List.map_cons, List.cons_append, runEvents_cons, endOf_approach_of_no_flag hflag hrealtime]
    dsimp only
    rw [hperform, List.flatMap_cons, ← List.append_assoc]
    exact ih hflag hrealtime hroom

end Quiet

/-- Settling a promise writes nothing. -/
theorem written_settle (s : Sequencer) (p : Nat) (o : Outcome) :
    (s.settle p o).1.written = s.written := by
  obtain ⟨promises, hsettled, -⟩ := s.settle_fst p o
  rw [hsettled]

/-- A new sequencer that neither runs in real time nor has a flag performs the lyrics of a schedule
and then the event at the end, if the lyrics are in the order of their beats and none comes after
the end. -/
theorem performed_new {tempo beat : Rat} {schedule : Schedule}
    (hsorted : schedule.lyrics.Pairwise fun l k => l.beat ≤ k.beat)
    (hbeat : ∀ l ∈ schedule.lyrics, l.beat ≤ beat) :
    let scheduled := (new tempo false none).addPiece schedule beat
    scheduled.performed = schedule.lyrics.map shows ++ [⟨beat, .finish 0⟩] ∧
      scheduled.runAll.1.written = schedule.lyrics.flatMap fun l => shownLyric l.text := by
  intro scheduled
  have hevents : scheduled.events = schedule.lyrics.map shows ++ [⟨beat, .finish 0⟩] := rfl
  have hinOrder : scheduled.events.Pairwise fun d e => d.beat ≤ e.beat := by
    rw [hevents]
    refine List.pairwise_append.2 ⟨List.pairwise_map.2 hsorted, List.pairwise_singleton _ _, ?_⟩
    intro e he e' he'
    obtain ⟨l, hl, rfl⟩ := List.mem_map.1 he
    cases List.mem_singleton.1 he'
    exact hbeat l hl
  obtain ⟨hrun, hperformed⟩ := run_of_sorted (s := scheduled) rfl hinOrder
  let shown := { scheduled.cleared with
    written := schedule.lyrics.flatMap fun l : ScheduledLyric => shownLyric l.text }
  have hend : endOf (runEvents scheduled.events) scheduled.cleared =
      ((shown.settle 0 (.ended beat)).1, none) := by
    rw [hevents, runEvents_shows rfl rfl rfl, runEvents_cons, endOf_approach_of_no_flag rfl rfl]
    rfl
  constructor
  · rw [hperformed, performedFrom_of_ok (congrArg Prod.snd hend), hevents]
  · rw [hrun, hend]
    exact written_settle shown 0 _

end Sequencer

/-- What a lyric writes to the sink: its text and a line break, or nothing if it is a blank. -/
def shownText (t : Text) : Text :=
  if t = " ".text then [] else t ++ "<br>".text

/-- Flushes write no text. -/
theorem flatten_shownLyric (t : Text) : (shownLyric t).flatten = shownText t := by
  unfold shownLyric shownText
  split_ifs
  · rfl
  · exact List.append_nil _

/-- A performance of a song that is read, for one of its voices and on a new sequencer that nothing
stops, shows the lyrics of the voice in the order of their timeline, and then comes to the end of
the song. It gives the duration of the song, and the sink holds the text and a line break for each
lyric that is not a blank. -/
theorem Song.read_perform {source : Text} {instrument : Instrument} {song : Song} {name : Text}
    (h : Song.read source instrument = .ok song) (hname : name ≠ [])
    (hvoice : name ∈ song.voices.map Prod.fst ∨ name ∈ song.header.voices) (tempo : Rat) :
    let player := Sequencer.new tempo false none
    ∃ scheduled promise final,
      player.playPiece song.piece name .unset = (scheduled, .ok promise) ∧
      scheduled.performed.map Event.action =
        (song.lyricTexts name).map .show ++ [.finish promise] ∧
      player.performPiece song.piece name .unset = (final, .ok song.piece.duration.value) ∧
      final.written.flatten = (song.lyricTexts name).flatMap shownText := by
  intro player
  obtain ⟨schedule, hschedule, htexts, hsorted, hbeat⟩ := Song.read_schedule h hname hvoice 0
  rw [zero_add] at hbeat
  obtain ⟨hperformed, hwritten⟩ := @Sequencer.performed_new tempo _ schedule hsorted hbeat
  obtain ⟨outcome, -, hresult, houtcome⟩ :=
    Sequencer.performPiece_spec (Sequencer.owned_new tempo false none) rfl hschedule
  have hplayed : player.playPiece song.piece name .unset = _ := Sequencer.playPiece_eq
  have hfinal : player.performPiece song.piece name .unset = _ := Sequencer.performPiece_eq
  rw [hschedule] at hplayed hfinal
  refine ⟨_, _, _, hplayed, ?_, Prod.ext rfl ?_, ?_⟩
  · rw [hperformed, List.map_append, List.map_map, ← htexts, List.map_map]
    rfl
  · have hmem : ⟨song.piece.duration.value, .finish 0⟩ ∈
        (player.addPiece schedule song.piece.duration.value).performed := by
      rw [hperformed]
      exact List.mem_append_right _ List.mem_cons_self
    have hended : outcome = .ended song.piece.duration.value := (if_pos hmem).mp houtcome
    exact hresult.trans (congrArg Outcome.result hended)
  · rw [hfinal]
    dsimp only
    rw [Sequencer.written_settle, hwritten, ← htexts, List.flatMap_map, ← List.flatMap_id,
      List.flatMap_assoc]
    exact List.flatMap_congr fun l _ => List.flatMap_id.trans (flatten_shownLyric l.text)

/-- Lyrics that share a beat, and a blank at the end of the song, are shown before the song ends. -/
theorem Song.read_perform_shortLine :
    ∃ song name scheduled promise final,
      Song.read shortLine .piano = .ok song ∧ name ≠ [] ∧ name ∈ song.voices.map Prod.fst ∧
      (Sequencer.new 100 false none).playPiece song.piece name .unset =
        (scheduled, .ok promise) ∧
      scheduled.performed.map Event.action = [.show " <mark>a</mark> ".text, .show " ".text,
        .show " <mark>b</mark>   ".text, .show " ".text, .finish promise] ∧
      (Sequencer.new 100 false none).performPiece song.piece name .unset = (final, .ok (1 / 2)) ∧
      final.written.flatten = " <mark>a</mark> <br> <mark>b</mark>   <br>".text := by
  obtain ⟨song, name, music, h, hv, hfound⟩ := Song.exists_voice shortLine .piano
    (fun song v => v.1 ≠ [] ∧ song.piece.duration.value = 1 / 2 ∧
      song.lyricTexts v.1 = [" <mark>a</mark> ".text, " ".text, " <mark>b</mark>   ".text,
        " ".text])
    (by decide +kernel)
  obtain ⟨hname, hduration, htexts⟩ := of_decide_eq_true hfound
  have hmem : name ∈ song.voices.map Prod.fst := List.mem_map_of_mem hv
  obtain ⟨scheduled, promise, final, hplay, hactions, hperform, hwritten⟩ :=
    Song.read_perform h hname (.inl hmem) 100
  rw [htexts] at hactions hwritten
  rw [hduration] at hperform
  exact ⟨song, name, scheduled, promise, final, h, hname, hmem, hplay, hactions, hperform, hwritten⟩

end SingAlong
