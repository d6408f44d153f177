import SingAlong.Music.Build
import Mathlib.Algebra.Order.Field.Rat
import Mathlib.Tactic.SplitIfs

/-!
# What the constructors ask

Each constructor makes one expression, or nothing. What it asks is said here once for each of them:
lengths that are not negative, a text, a number of parts, and parts that fit.
-/

namespace SingAlong

namespace Music

/-- A length is checked before something of that length is made. -/
theorem checked_eq_ok {l : Length} {x m : Music} :
    (checkLength l >>= fun _ => .ok x) = .ok m ↔ 0 ≤ l.value ∧ m = x := by
  unfold checkLength
  split_ifs with hl
  · exact ⟨nofun, fun h => absurd h.1 (not_le.2 hl)⟩
  · rw [and_iff_right (not_lt.1 hl)]
    exact ⟨fun h => (Except.ok.inj h).symm, fun h => h ▸ rfl⟩

/-- A note is made if its length is not negative. -/
theorem mkNote_eq_ok {l : Length} {p : Pitch} {i : Instrument} {m : Music} :
    mkNote l p i = .ok m ↔ 0 ≤ l.value ∧ m = note l p i :=
  checked_eq_ok

/-- A rest is made if its length is not negative. -/
theorem mkRest_eq_ok {l : Length} {m : Music} : mkRest l = .ok m ↔ 0 ≤ l.value ∧ m = rest l :=
  checked_eq_ok

/-- A lyric is made if it has a text and its length is not negative. -/
theorem mkLyric_eq_ok {t : Text} {l : Length} {m : Music} :
    mkLyric t l = .ok m ↔ t ≠ [] ∧ 0 ≤ l.value ∧ m = lyric t l := by
  cases t with
  | nil => exact ⟨nofun, fun h => absurd rfl h.1⟩
  | cons c t =>
    have hmk : mkLyric (c :: t) l = checkLength l >>= fun _ => .ok (lyric (c :: t) l) := rfl
    rw [hmk, checked_eq_ok, and_iff_right (List.cons_ne_nil c t)]

/-- Something is made of parts if there is no part that does not fit. -/
theorem find?_eq_ok {p : Music → Bool} {ns : List Music} {e : Music → MusicError} {x m : Music} :
    (match ns.find? fun n => !p n with
      | some n => Except.error (e n)
      | none => .ok x) = .ok m ↔ (∀ n ∈ ns, p n) ∧ m = x := by
  cases hfind : ns.find? fun n => !p n with
  | some n =>
    have hn := List.find?_some hfind
    rw [Bool.not_eq_true'] at hn
    have hmem := List.mem_of_find?_eq_some hfind
    exact ⟨nofun, fun h => absurd (h.1 n hmem) (by rw [hn]; exact Bool.false_ne_true)⟩
  | none =>
    have hall : ∀ n ∈ ns, p n := fun n hn => by
      have hnot := List.find?_eq_none.1 hfind n hn
      rwa [Bool.not_eq_true', Bool.not_eq_false] at hnot
    rw [and_iff_right hall]
    exact ⟨fun h => (Except.ok.inj h).symm, fun h => h ▸ rfl⟩

/-- A chord is made of one or more parts that are neither rests nor tuplets. -/
theorem mkChord_eq_ok {ns : List Music} {m : Music} :
    mkChord ns = .ok m ↔ ns ≠ [] ∧ (∀ n ∈ ns, n.fitsChord) ∧ m = chord ns := by
  unfold mkChord
  by_cases hns : ns = []
  · rw [if_pos (List.isEmpty_iff.2 hns)]
    exact ⟨nofun, fun h => absurd hns h.1⟩
  · rw [if_neg (by rwa [List.isEmpty_iff]), and_iff_right hns]
    exact find?_eq_ok

/-- A tuplet is made of two, three or four notes or chords. -/
theorem mkTuplet_eq_ok {ns : List Music} {m : Music} :
    mkTuplet ns = .ok m ↔
      (2 ≤ ns.length ∧ ns.length ≤ 4) ∧ (∀ n ∈ ns, n.fitsTuplet) ∧ m = tuplet ns := by
  unfold mkTuplet
  by_cases hcount : ns.length < 2 ∨ 4 < ns.length
  · rw [if_pos hcount]
    exact ⟨nofun, fun h => by omega⟩
  · rw [if_neg hcount, and_iff_right (by omega)]
    exact find?_eq_ok

/-- A component is made of one or more parts. -/
theorem mkComponent_eq_ok {ps : List Music} {m : Music} :
    mkComponent ps = .ok m ↔ ps ≠ [] ∧ m = component ps := by
  unfold mkComponent
  by_cases hps : ps = []
  · rw [if_pos (List.isEmpty_iff.2 hps)]
    exact ⟨nofun, fun h => absurd hps h.1⟩
  · rw [if_neg (by rwa [List.isEmpty_iff]), and_iff_right hps]
    exact ⟨fun h => (Except.ok.inj h).symm, fun h => h ▸ rfl⟩

end Music

end SingAlong
