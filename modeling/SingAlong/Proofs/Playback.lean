import SingAlong.Proofs.Reachability
import SingAlong.Proofs.Showing
import SingAlong.Proofs.Voices

/-!
# Playing all voices of a song

A song that is played without naming a voice plays all of them: it schedules no lyrics, and its
notes are those that the voices schedule when they are named, one voice after the other
(`Song.read_playAll`). The voices come in the order of their first line in the body
(`Node.voiceOrder`). Which voice is named does not matter to the notes of a voice
(`Song.adds_voice`), and lyrics are scheduled for a named voice only.
-/

namespace SingAlong

open Player (Adds adds_pure)
open Music (voiceNames built_iff)

/-! ## The order of the voices -/

/-- The voice of each line of music or lyrics from a node on. -/
def lineVoices (current : Text) : List Node → List Text
  | [] => []
  | n :: rest =>
    (if n.label = .line ∨ n.label = .lyricLine then [current] else []) ++
      lineVoices (n.voice?.getD current) rest

/-- The voices of a document, in the order of their first line in the body. -/
def Node.voiceOrder (document : Node) : List Text :=
  (document.first? .body).elim [] fun body =>
    (lineVoices Header.defaultVoice body.children).eraseDups

/-- Of names that may be new, the first one is added when it is new, and then the others are. -/
theorem append_eraseDups_removeAll (names rest : List Text) (name : Text) :
    names ++ ((name :: rest).removeAll names).eraseDups =
      (if name ∈ names then names else names ++ [name]) ++
        (rest.removeAll (if name ∈ names then names else names ++ [name])).eraseDups := by
  unfold List.removeAll
  by_cases h : name ∈ names
  · rw [if_pos h, List.filter_cons_of_neg (by simpa using h)]
  · have hfilter : (rest.filter fun other => !(names ++ [name]).elem other) =
        (rest.filter fun other => !names.elem other).filter fun other => !other == name := by
      rw [List.filter_filter]
      refine List.filter_congr fun other _ => ?_
      rw [Bool.eq_iff_iff]
      simp [and_comm]
    rw [if_neg h, List.filter_cons_of_pos (by simpa using h), List.eraseDups_cons, hfilter,
      List.append_assoc, List.singleton_append]

/-- Splitting the nodes of a body adds the voices of its lines that are new. -/
theorem voiceNames_splitVoices (current : Text) (vs : List (Text × VoiceParts)) (ns : List Node) :
    voiceNames (splitVoices current vs ns) =
      voiceNames vs ++ ((lineVoices current ns).removeAll (voiceNames vs)).eraseDups := by
  induction ns generalizing current vs with
  | nil => simp [splitVoices, lineVoices, List.removeAll]
  | cons n rest ih =>
    unfold splitVoices lineVoices Node.voice?
    split
    next t hl => simp [ih, hl]
    next hl =>
      rw [ih, VoiceParts.voiceNames_add, ← append_eraseDups_removeAll]
      simp [hl]
    next hl =>
      rw [ih, VoiceParts.voiceNames_add, ← append_eraseDups_removeAll]
      simp [hl]
    next hvoice hline hlyrics =>
      have hnone : ¬(n.label = .line ∨ n.label = .lyricLine) := not_or.2 ⟨hline, hlyrics⟩
      rw [ih, if_neg hnone, List.nil_append]
      split
      next t hl => exact absurd hl (hvoice t)
      next => rfl

/-- The voices of a song that is read are those of the lines of its document, each once. -/
theorem Song.voiceNames_read {source : Text} {instrument : Instrument} {song : Song}
    (h : Song.read source instrument = .ok song) :
    ∃ document, readTune source = .ok document ∧
      voiceNames song.voices = document.voiceOrder := by
  obtain ⟨document, hdocument, h⟩ := bind_eq_ok.1 h
  refine ⟨document, mapError_eq_ok.1 hdocument, ?_⟩
  have hof := mapError_eq_ok.1 h
  unfold ofDocument at hof
  split at hof
  next => cases hof
  next header _ =>
    obtain ⟨fields, -, hof⟩ := bind_eq_ok.1 hof
    obtain ⟨resolved, -, hof⟩ := bind_eq_ok.1 hof
    rw [voiceNames_ofBody hof, Node.voiceOrder]
    cases document.first? .body with
    | none => rfl
    | some body =>
      have hnames := voiceNames_splitVoices Header.defaultVoice [] body.children
      unfold voiceNames at hnames ⊢
      simpa [Node.voiceParts, List.removeAll] using hnames

/-! ## Playing the voices -/

namespace Music

/-- A voice is found by its name when the names are different. -/
theorem lookup_of_mem {α : Type} {vs : List (Text × α)} (hnames : (voiceNames vs).Nodup)
    {v : Text × α} (hv : v ∈ vs) : vs.lookup v.1 = some v.2 := by
  obtain ⟨before, after, rfl⟩ := List.append_of_mem hv
  refine List.lookup_eq_some_iff.2 ⟨before, after, rfl, fun w hw => bne_iff_ne.2 fun h => ?_⟩
  unfold voiceNames at hnames
  rw [List.map_append, List.map_cons] at hnames
  have hother := (List.nodup_append.1 hnames).2.2 w.1 (List.mem_map_of_mem hw)
  exact hother v.1 List.mem_cons_self h.symm

/-- Voices that are played together add their notes, one voice after the other. -/
theorem adds_playVoices {name : Text} {beat : Rat} {vs : List (Text × Music)}
    (notes : Text → List ScheduledNote)
    (h : ∀ v ∈ vs, Adds (v.2.play name beat) ⟨notes v.1, []⟩) :
    Adds (playVoices name beat vs) ⟨(voiceNames vs).flatMap notes, []⟩ := by
  induction vs with
  | nil => exact adds_pure
  | cons v vs ih =>
    obtain ⟨hv, hvs⟩ := List.forall_mem_cons.1 h
    exact hv.bind (ih hvs)

/-- No lyric is scheduled when no voice is named. -/
theorem shownLyrics_nil : shownLyrics [] = fun _ _ => [] := by
  funext beat m
  cases m <;> rfl

/-- When no voice is named, a piece adds what its voices add together. -/
theorem adds_piece_all {beat : Rat} {vs : List (Text × Music)} {h : Header} {s : Schedule}
    (hs : Adds (playVoices [] beat vs) s) : Adds ((piece vs h).play [] beat) s := by
  exact hs.checked

end Music

/-- A song that is played without naming a voice schedules no lyrics, and the notes of its voices in
the order of their first line, each as when this voice is named. A voice that is named schedules one
lyric for each of its timeline, in the order of the timeline and of their beats. -/
theorem Song.read_playAll {source : Text} {instrument : Instrument} {song : Song}
    (h : Song.read source instrument = .ok song) (hnames : [] ∉ voiceNames song.voices)
    (beat : Rat) :
    ∃ document, readTune source = .ok document ∧
      song.piece.scheduled [] beat .unset =
        (⟨document.voiceOrder.flatMap fun name =>
          (song.piece.scheduled name beat .unset).1.notes, []⟩, none) ∧
      ∀ name ≠ [], (name ∈ document.voiceOrder ∨ name ∈ song.header.voices) →
        ∃ schedule, song.piece.scheduled name beat .unset = (schedule, none) ∧
          schedule.lyrics.map ScheduledLyric.text = song.lyricTexts name ∧
          schedule.lyrics.Pairwise fun l k => l.beat ≤ k.beat := by
  obtain ⟨document, hdocument, horder⟩ := Song.voiceNames_read h
  have hnodup : (voiceNames song.voices).Nodup := (built_iff.1 (Song.built_read h)).1
  refine ⟨document, hdocument, ?_, fun name hname hvoice => ?_⟩
  · let notes (name : Text) := (song.piece.scheduled name beat .unset).1.notes
    have hvoices : ∀ v ∈ song.voices, Adds (v.2.play [] beat) ⟨notes v.1, []⟩ := by
      intro v hv
      have hname : v.1 ≠ [] := fun hempty => hnames (hempty ▸ List.mem_map_of_mem hv)
      obtain ⟨performed, shown, -, -, -, hplay⟩ := Song.adds_voice h hv
      have hnamed : Adds (song.piece.play v.1 beat) _ :=
        Music.adds_piece hname (by rw [Music.lookup_of_mem hnodup hv]; exact hplay v.1 beat)
      have hnotes : notes v.1 = Music.performedNotes beat performed := by
        show (song.piece.scheduled v.1 beat .unset).1.notes = _
        rw [Music.scheduled_of_adds hnamed]
      have hall := hplay [] beat
      rwa [Music.shownLyrics_nil, Music.inTurn_none, ← hnotes] at hall
    have hadds : Adds (song.piece.play [] beat) _ :=
      Music.adds_piece_all (Music.adds_playVoices notes hvoices)
    rw [← horder]
    exact Music.scheduled_of_adds hadds
  · obtain ⟨schedule, hschedule, htexts, hbeats, -⟩ :=
      Song.read_schedule h hname (by rwa [← horder] at hvoice) beat
    exact ⟨schedule, hschedule, htexts, hbeats⟩

/-- A song of two voices, the first of which goes on after the second; it has syllables for its
first line only. -/
def partSong : Text :=
  "X:1\nT:t\nK:C\nV:b\nC2D2\nw:a  b\nV:a\nE2\nV:b\nF2|\n".text

/-- The notes of the first voice all come before those of the second. The lyrics of the first voice
are scheduled with the blanks under its last line. -/
theorem Song.read_playAll_partSong :
    ∃ song, Song.read partSong .piano = .ok song ∧ [] ∉ voiceNames song.voices ∧
      song.piece.scheduled [] 1 .unset =
        (⟨(song.piece.scheduled "b".text 1 .unset).1.notes ++
          (song.piece.scheduled "a".text 1 .unset).1.notes, []⟩, none) ∧
      ∃ schedule, song.piece.scheduled "b".text 1 .unset = (schedule, none) ∧
        schedule.lyrics.map ScheduledLyric.text = [" <mark>a</mark>  b  ".text,
          "a  <mark>b</mark>   ".text, " ".text, " ".text, " ".text] ∧
        schedule.lyrics.Pairwise fun l k => l.beat ≤ k.beat := by
  obtain ⟨song, -, -, h, -, hfound⟩ := Song.exists_voice partSong .piano
    (fun song _ => voiceNames song.voices = ["b".text, "a".text] ∧
      song.lyricTexts "b".text = [" <mark>a</mark>  b  ".text, "a  <mark>b</mark>   ".text,
        " ".text, " ".text, " ".text])
    (by decide +kernel)
  obtain ⟨hvoices, htexts⟩ := of_decide_eq_true hfound
  have hnames : [] ∉ voiceNames song.voices := by
    rw [hvoices]
    decide
  obtain ⟨document, hdocument, hall, hnamed⟩ := Song.read_playAll h hnames 1
  have horder : document.voiceOrder = ["b".text, "a".text] := by
    obtain ⟨other, hother, horder⟩ := Song.voiceNames_read h
    rw [hdocument] at hother
    cases hother
    rw [← horder, hvoices]
  rw [horder] at hall hnamed
  rw [List.flatMap_cons, List.flatMap_singleton] at hall
  obtain ⟨schedule, hschedule, hlyrics, hbeats⟩ :=
    hnamed "b".text (by decide) (.inl List.mem_cons_self)
  exact ⟨song, h, hnames, hall, schedule, hschedule, hlyrics.trans htexts, hbeats⟩

end SingAlong
