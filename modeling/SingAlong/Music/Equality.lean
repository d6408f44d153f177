import SingAlong.Music.Basic

/-!
# Equality of music

Music is equal when it is built in the same way of equal parts: pitches that sound the same, lengths
of the same value, and the same instruments, texts and headers.
-/

namespace SingAlong

/-- Are two headers equal? The tempo counts by its value. -/
def Header.same (h k : Header) : Bool :=
  h.index == k.index && h.title == k.title && h.composer == k.composer && h.key == k.key &&
    h.meter == k.meter && h.length == k.length && h.tempo.value == k.tempo.value &&
    h.voices == k.voices

namespace Music

mutual
/-- Are two expressions equal? -/
def same : Music → Music → Bool
  | note l p i, note m q j => l.value == m.value && p.enharmonic q && i == j
  | rest l, rest m => l.value == m.value
  | lyric t l, lyric u m => t == u && l.value == m.value
  | chord ns, chord ms => sameAll ns ms
  | tuplet ns, tuplet ms => sameAll ns ms
  | concat a b, concat c d => same a c && same b d
  | component ps, component qs => sameAll ps qs
  | piece vs h, piece ws k => sameVoices vs ws && h.same k
  | _, _ => false
/-- Are the expressions of two lists equal? -/
def sameAll : List Music → List Music → Bool
  | [], [] => true
  | m :: ms, n :: ns => same m n && sameAll ms ns
  | _, _ => false
/-- Are the voices of two pieces equal? -/
def sameVoices : List (Text × Music) → List (Text × Music) → Bool
  | [], [] => true
  | (v, m) :: vs, (w, n) :: ws => v == w && same m n && sameVoices vs ws
  | _, _ => false
end

instance : BEq Music :=
  ⟨same⟩

/-- Do two expressions differ, in the way they are built or in one of their parts? -/
def differs : Music → Music → Bool
  | note l p i, note m q j => !(l.value == m.value && p.enharmonic q && i == j)
  | rest l, rest m => !(l.value == m.value)
  | lyric t l, lyric u m => !(t == u && l.value == m.value)
  | chord ns, chord ms => !sameAll ns ms
  | tuplet ns, tuplet ms => !sameAll ns ms
  | concat a b, concat c d => !(same a c && same b d)
  | component ps, component qs => !sameAll ps qs
  | piece vs h, piece ws k => !(sameVoices vs ws && h.same k)
  | _, _ => true

end Music

end SingAlong
