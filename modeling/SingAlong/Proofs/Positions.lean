import SingAlong.Proofs.Reading
import Mathlib.Data.List.TakeDrop

/-!
# Positions in a source

The tokens of a source stand one after the other in it (`tokens_placed`). What is read from them
keeps positions of tokens, and a fault is found at one of these: `Located` says so of each stage of
reading. So the position of a fault always lies in the source (`readTune_located`).
-/

namespace SingAlong

/-! ## Tokens -/

/-- Tokens are not empty, lie in the source from a position on, and stand one after the other. -/
structure Placed (pos stop : Nat) (ts : List Token) : Prop where
  within : ∀ k ∈ ts, pos ≤ k.pos ∧ k.pos < k.stop ∧ k.stop ≤ stop
  ordered : ts.Pairwise fun a b => a.stop ≤ b.pos

/-- The tokens of a text stand in it one after the other. -/
theorem tokensFrom_placed (r : Region) (pos : Nat) (t : Text) :
    Placed pos (pos + t.length) (tokensFrom r pos 0 t) := by
  refine tokensFrom_induction (motive := fun _ pos t ts => Placed pos (pos + t.length) ts)
    ?nil ?lexeme ?blanks r pos t
  case nil =>
    intro r pos
    exact ⟨nofun, .nil⟩
  case lexeme =>
    rintro r pos l own next rest hnext ⟨-, hl, -⟩ ih
    have hlength := List.length_pos_iff.2 hl
    have hstop : (Token.mk pos l own).stop = pos + l.text.length := rfl
    refine ⟨fun k hk => ?_, List.pairwise_cons.2 ⟨fun k hk => ?_, ih.ordered⟩⟩
    · rcases List.mem_cons.1 hk with rfl | hk
      · rw [hstop, List.length_append]
        refine ⟨le_refl _, Nat.lt_add_of_pos_right hlength, ?_⟩
        omega
      · obtain ⟨hpos, hlt, hend⟩ := ih.within k hk
        rw [List.length_append]
        omega
    · rw [hstop]
      exact (ih.within k hk).1
  case blanks =>
    intro r pos b rest hnext hb r' hr' ih
    refine ⟨fun k hk => ?_, ih.ordered⟩
    obtain ⟨hpos, hlt, hend⟩ := ih.within k hk
    rw [List.length_append]
    omega

/-- The tokens of a source stand in it one after the other. -/
theorem tokens_placed (source : Text) : Placed 0 source.length (tokens source) := by
  have hplaced := tokensFrom_placed .header 0 source
  rwa [Nat.zero_add] at hplaced

/-! ## Results with positions -/

section

variable {α β : Type} {P : Nat → Prop} {Q : α → Prop} {R : β → Prop}

/-- A result of a stage satisfies a predicate, or the fault is at one of the given positions. -/
def Located (P : Nat → Prop) (Q : α → Prop) : Except SourceError α → Prop
  | .ok a => Q a
  | .error e => P e.pos

/-- A stage after another one. -/
theorem Located.bind {x : Except SourceError α} {f : α → Except SourceError β}
    (hx : Located P Q x) (hf : ∀ a, Q a → Located P R (f a)) : Located P R (x >>= f) := by
  cases x with
  | error e => exact hx
  | ok a => exact hf a hx

/-- A predicate that follows from that of a result. -/
theorem Located.mono {Q' : α → Prop} {x : Except SourceError α} (hx : Located P Q x)
    (h : ∀ a, Q a → Q' a) : Located P Q' x := by
  cases x with
  | error e => exact hx
  | ok a => exact h a hx

/-- A stage for each entry of a list. -/
theorem Located.mapM {f : β → Except SourceError α} {xs : List β}
    (h : ∀ x ∈ xs, Located P Q (f x)) : Located P (fun ys => ∀ y ∈ ys, Q y) (xs.mapM f) := by
  induction xs with
  | nil => exact nofun
  | cons x xs ih =>
    rw [List.mapM_cons]
    refine (h x List.mem_cons_self).bind fun y hy => ?_
    refine (ih fun z hz => h z (List.mem_cons_of_mem x hz)).bind fun ys hys => ?_
    exact List.forall_mem_cons.2 ⟨hy, hys⟩

/-- A stage that adds one entry after the other. -/
theorem Located.foldlM {f : α → β → Except SourceError α} {xs : List β} {a : α} (ha : Q a)
    (h : ∀ a, Q a → ∀ x ∈ xs, Located P Q (f a x)) : Located P Q (xs.foldlM f a) := by
  induction xs generalizing a with
  | nil => exact ha
  | cons x xs ih =>
    rw [List.foldlM_cons]
    refine (h a ha x List.mem_cons_self).bind fun b hb => ?_
    exact ih hb fun c hc y hy => h c hc y (List.mem_cons_of_mem x hy)

end

/-! ## The stages of reading -/

variable {P : Nat → Prop}

/-- A pending note or rest begins at one of the positions. -/
def Pending.Within (P : Nat → Prop) : Pending → Prop
  | nothing => True
  | accidental t _ => P t.pos
  | durable start _ _ _ => P start

/-- An item begins at one of the positions. Nothing is reported of lines of lyrics. -/
def Item.Within (P : Nat → Prop) : Item → Prop
  | token t => P t.pos
  | chord start _ => P start
  | lyrics _ => True

/-- A piece begins at one of the positions. -/
def Piece.Within (P : Nat → Prop) : Piece → Prop
  | durable start _ => P start
  | item i => i.Within P

/-- The tokens that a fault of a group can name are at the positions. -/
def Group.Within (P : Nat → Prop) : Group → Prop
  | single t => P t.pos
  | chord opening inside => P opening.pos ∧ ∀ k ∈ inside, P k.pos
  | lyrics _ _ => True

/-- The mark of a tuplet that has been begun is at one of the positions. -/
def Draft.Within (P : Nat → Prop) (d : Draft) : Prop :=
  ∀ t ∈ d.tuplet, P t.mark.pos

/-- A pending note or rest is completed where it begins. -/
theorem Pending.complete_within {p : Pending} (hp : p.Within P) :
    ∀ piece ∈ p.complete, piece.Within P := by
  cases p with
  | nothing => exact nofun
  | accidental => exact nofun
  | durable => exact List.forall_mem_singleton.2 hp

/-- A token that is part of a note or rest, or is not. -/
theorem Pending.take_located {p : Pending} {t : Token} (hp : p.Within P) (ht : P t.pos) :
    (∀ piece ∈ (p.take t).1, piece.Within P) ∧ Located P (Pending.Within P) (p.take t).2 := by
  constructor
  · rcases p.take_done t with h | h
    · rw [h]
      exact Pending.complete_within hp
    · rw [h]
      exact nofun
  · unfold take
    split
    all_goals first
      | exact ht
      | exact hp

/-- Notes and rests that are put together, and the fault that ends this. -/
theorem readDurables_located {p : Pending} {items : List Item} (hp : p.Within P)
    (hi : ∀ i ∈ items, i.Within P) :
    (∀ piece ∈ (readDurables p items).pieces, piece.Within P) ∧
      ∀ e ∈ (readDurables p items).fault, P e.pos := by
  have hfault : ∀ p : Pending, p.Within P → ∀ e ∈ p.fault?, P e.pos := by
    rintro (_ | _ | _) hp e he
    · cases he
    · cases he
      exact hp
    · cases he
  induction items generalizing p with
  | nil => exact ⟨Pending.complete_within hp, hfault p hp⟩
  | cons i rest ih =>
    obtain ⟨hitem, hrest⟩ := List.forall_mem_cons.1 hi
    by_cases hm : i.isMusic
    · obtain ⟨t, rfl⟩ := Item.exists_token hm
      obtain ⟨hdone, hresult⟩ := Pending.take_located hp hitem
      cases htake : p.take t with
      | mk done result =>
        rw [htake] at hdone hresult
        cases result with
        | ok p' =>
          obtain ⟨hpieces, hends⟩ := ih hresult hrest
          rw [readDurables_music hm htake]
          exact ⟨List.forall_mem_append.2 ⟨hdone, hpieces⟩, hends⟩
        | error e =>
          rw [readDurables_unexpected hm htake]
          refine ⟨hdone, ?_⟩
          rintro _ ⟨⟩
          exact hresult
    · rw [Bool.not_eq_true] at hm
      cases hp' : p.fault? with
      | some e =>
        rw [readDurables_lone hm hp']
        refine ⟨nofun, ?_⟩
        rintro _ ⟨⟩
        exact hfault p hp _ hp'
      | none =>
        obtain ⟨hpieces, hends⟩ := ih (p := .nothing) trivial hrest
        rw [readDurables_item hm hp']
        exact ⟨List.forall_mem_append.2 ⟨Pending.complete_within hp,
          List.forall_mem_cons.2 ⟨hitem, hpieces⟩⟩, hends⟩

/-- The notes of a chord, or the fault that a rest or a text in it is. -/
theorem chordNotes_located {opening : Token} {pieces : List Piece} (ho : P opening.pos)
    (hp : ∀ piece ∈ pieces, piece.Within P) :
    Located P (fun _ => True) (chordNotes opening pieces) := by
  induction pieces with
  | nil => trivial
  | cons piece pieces ih =>
    obtain ⟨hpiece, hrest⟩ := List.forall_mem_cons.1 hp
    cases piece with
    | item i => exact ho
    | durable start n =>
      unfold chordNotes
      split
      next => exact (ih hrest).bind fun _ _ => trivial
      next => exact hpiece

/-- A chord, or the fault in it. -/
theorem readChord_located {opening : Token} {inside : List Token} (ho : P opening.pos)
    (hi : ∀ k ∈ inside, P k.pos) : Located P (fun _ => True) (readChord opening inside) := by
  have hitems : ∀ i ∈ inside.dropLast.map Item.token, i.Within P := by
    intro i hi'
    obtain ⟨k, hk, rfl⟩ := List.mem_map.1 hi'
    exact hi k (List.dropLast_subset _ hk)
  obtain ⟨hpieces, hfault⟩ := readDurables_located (p := .nothing) trivial hitems
  unfold readChord
  split
  next closing _ =>
    split_ifs
    · refine (chordNotes_located ho hpieces).bind fun notes _ => ?_
      split
      next e he => exact hfault e he
      next =>
        split_ifs
        · exact ho
        · trivial
    · exact ho
  next => exact ho

/-- The item of a group, or the fault in it. -/
theorem Group.read_located {g : Group} (hg : g.Within P) : Located P (Item.Within P) g.read := by
  cases g with
  | single t => exact hg
  | chord opening inside => exact (readChord_located hg.1 hg.2).bind fun _ _ => hg.1
  | lyrics opening inside => trivial

/-- The groups of tokens. -/
theorem groupFrom_within {ts : List Token} (h : ∀ k ∈ ts, P k.pos) :
    ∀ g ∈ (groupFrom ts).2, g.Within P := by
  induction ts with
  | nil => exact nofun
  | cons k rest ih =>
    obtain ⟨hk, hrest⟩ := List.forall_mem_cons.1 h
    have hinside : ∀ k' ∈ (groupFrom rest).1, P k'.pos :=
      fun k' hk' => hrest k' (groupFrom_subset rest k' hk')
    rcases groupFrom_cons k rest with ⟨-, heq⟩ | ⟨-, heq⟩ | ⟨-, heq⟩ | ⟨-, -, heq⟩
    · rw [heq]
      exact List.forall_mem_cons.2 ⟨⟨hk, hinside⟩, ih hrest⟩
    · rw [heq]
      exact List.forall_mem_cons.2 ⟨trivial, ih hrest⟩
    · rw [heq]
      exact ih hrest
    · rw [heq]
      exact List.forall_mem_cons.2 ⟨hk, ih hrest⟩

namespace Draft

variable {d : Draft}

/-- A note, rest or chord is added, or it cannot be in a tuplet. -/
theorem add_located (hd : d.Within P) {start : Nat} (hs : P start) (n : Node) :
    Located P (Draft.Within P) (d.add start n) := by
  unfold add
  split
  next => exact hd
  next t ht =>
    split_ifs
    · dsimp only
      split_ifs
      · exact nofun
      · rintro _ ⟨⟩
        exact hd t ht
    · exact hs

/-- No tuplet is incomplete, or the mark of the one that is. -/
theorem checkTuplet_located (hd : d.Within P) : Located P (fun _ => True) d.checkTuplet := by
  unfold checkTuplet
  split
  next t ht => exact hd t ht
  next => trivial

/-- The end of a line leaves a tuplet that has been begun. -/
theorem endLine_within (hd : d.Within P) (ending : Node) : (d.endLine ending).Within P := by
  unfold endLine
  split_ifs
  · exact hd
  · exact hd

/-- A piece is added, or the fault that it is. -/
theorem addPiece_located (hd : d.Within P) {piece : Piece} (hp : piece.Within P) :
    Located P (Draft.Within P) (d.addPiece piece) := by
  match piece with
  | .durable start n => exact add_located hd hp n
  | .item (.chord start n) => exact add_located hd hp n
  | .item (.lyrics n) => exact hd
  | .item (.token t) =>
    change Located P (Draft.Within P) (d.addToken t)
    unfold addToken
    split
    next => exact (checkTuplet_located hd).bind fun _ _ => endLine_within hd _
    next => exact (checkTuplet_located hd).bind fun _ _ => hd
    next =>
      split
      next => exact hp
      next =>
        rintro _ ⟨⟩
        exact hp
    next => exact hd
    next =>
      dsimp only
      split_ifs
      · exact hd
      · exact hd
    next => exact hp

end Draft

/-- The body, or the first fault in it. -/
theorem readBody_located {items : List Item} (hi : ∀ i ∈ items, i.Within P) :
    Located P (fun _ => True) (readBody items) := by
  obtain ⟨hpieces, hfault⟩ := readDurables_located (p := .nothing) trivial hi
  have hempty : Draft.empty.Within P := nofun
  have hfold := Located.foldlM (f := Draft.addPiece) hempty
    fun d hd piece hpiece => Draft.addPiece_located hd (hpieces piece hpiece)
  unfold readBody
  refine hfold.bind fun d hd => ?_
  split
  next e he => exact hfault e he
  next => exact (Draft.checkTuplet_located hd).bind fun _ _ => trivial

/-- An element of the header, or text that is none. -/
theorem headerNode_located {t : Token} (ht : P t.pos) :
    Located P (fun _ => True) (headerNode t) := by
  unfold headerNode
  split
  next => trivial
  next => trivial
  next => trivial
  next => exact ht

/-- A source that is not read as a tune has a fault at a position in it. -/
theorem readTune_located (source : Text) :
    Located (· < source.length) (fun _ => True) (readTune source) := by
  have hplaced := tokens_placed source
  have hwithin : ∀ k ∈ tokens source, k.pos < source.length := by
    intro k hk
    obtain ⟨-, hlt, hstop⟩ := hplaced.within k hk
    omega
  have hsplit := List.takeWhile_append_dropWhile (p := fun k : Token => decide (k.region = .header))
    (l := tokens source)
  unfold readTune
  rw [List.span_eq_takeWhile_dropWhile]
  dsimp only
  generalize (tokens source).takeWhile _ = header at *
  generalize (tokens source).dropWhile _ = body at *
  rw [← hsplit, List.forall_mem_append] at hwithin
  obtain ⟨hheader, hbody⟩ := hwithin
  have hgroups := groupFrom_within (P := (· < source.length)) hbody
  refine (Located.mapM fun g hg => Group.read_located (hgroups g hg)).bind fun items hitems => ?_
  have hfields : Located (· < source.length) (fun _ => True) (header.mapM headerNode) :=
    (Located.mapM fun t ht => headerNode_located (hheader t ht)).mono fun _ _ => trivial
  split_ifs
  · exact hfields.bind fun _ _ => trivial
  · have hread := readBody_located hitems
    cases hbody : readBody items with
    | ok n => exact hfields.bind fun _ _ => trivial
    | error e =>
      rw [hbody] at hread
      exact hread

end SingAlong
