import SingAlong.Proofs.Acceptance
import SingAlong.Proofs.Elements

/-!
# The voice of an element

Which voice an element of the music belongs to, told from the source. A voice field is complete as
soon as it is read, while the elements of a line stay pending until the line ends. So an element
belongs to the voice of the last field before the end of its line (`readTune_voiceParts`), which is
not always the last field before the element itself (`readTune_fieldAfterNote`).

The reader sees line ends and voice fields, the marks of the body, in the order of the source.
`Draft.Voiced` relates the body as far as it is read to the marks so far; each piece keeps it
(`Draft.Voiced.addPiece`).
-/

namespace SingAlong

/-! ## The voices of the source -/

namespace Token

/-- The voice that a token names, if it is a voice field. -/
def voice? (k : Token) : Option Text :=
  match k.lexeme with
  | .voiceField text => some (Field.value (Text.trimEnd text))
  | _ => none

/-- Does the token end a line of music? -/
def endsLine (k : Token) : Bool :=
  k.region = .body && k.lexeme = .newline

/-- Is the token a voice field or the end of a line of music? -/
def isMark (k : Token) : Bool :=
  k.voice?.isSome || k.endsLine

end Token

/-- The voice of the last voice field before a position. -/
def voiceBefore (ts : List Token) (p : Nat) : Text :=
  ((ts.filter fun k => k.pos < p).filterMap Token.voice?).getLast?.getD Header.defaultVoice

/-- Where the line of music that holds a position ends. -/
def lineStop (ts : List Token) (stop q : Nat) : Nat :=
  ((ts.find? fun k => k.endsLine && q ≤ k.pos).map Token.pos).getD stop

/-- The voice of the last voice field before a position of a source. -/
def voiceAt (source : Text) (p : Nat) : Text :=
  voiceBefore (tokens source) p

/-- Where the line of music that holds a position of a source ends. -/
def lineEndAt (source : Text) (q : Nat) : Nat :=
  lineStop (tokens source) source.length q

section

variable {ts before after : List Token} {stop p q : Nat}

/-- Voice fields and line ends are all that voices and lines depend on. -/
theorem voiceBefore_marks (ts : List Token) (p : Nat) :
    voiceBefore (ts.filter Token.isMark) p = voiceBefore ts p := by
  unfold voiceBefore
  rw [List.filter_filter, List.filterMap_filter, List.filterMap_filter]
  congr 3
  funext k
  cases hv : k.voice? <;> simp [Token.isMark, hv]

/-- Voice fields and line ends are all that voices and lines depend on. -/
theorem lineStop_marks (ts : List Token) (stop q : Nat) :
    lineStop (ts.filter Token.isMark) stop q = lineStop ts stop q := by
  unfold lineStop
  rw [List.find?_filter]
  congr 3
  funext k
  cases hk : k.endsLine <;> simp [Token.isMark, hk]

/-- The voice at a position between tokens. -/
theorem voiceBefore_append (hbefore : ∀ k ∈ before, k.pos < p) (hafter : ∀ k ∈ after, p ≤ k.pos) :
    voiceBefore (before ++ after) p =
      (before.filterMap Token.voice?).getLast?.getD Header.defaultVoice := by
  have hall : before.filter (fun k => k.pos < p) = before :=
    List.filter_eq_self.2 fun k hk => decide_eq_true (hbefore k hk)
  have hnone : after.filter (fun k => k.pos < p) = [] :=
    List.filter_eq_nil_iff.2 fun k hk => by simpa using hafter k hk
  rw [voiceBefore, List.filter_append, hall, hnone, List.append_nil]

/-- A line ends at the first line end. -/
theorem lineStop_append {k : Token} (hbefore : ∀ k ∈ before, k.endsLine → k.pos < q)
    (hk : k.endsLine) (hq : q ≤ k.pos) : lineStop (before ++ k :: after) stop q = k.pos := by
  have hnone : before.find? (fun k => k.endsLine && q ≤ k.pos) = none := by
    rw [List.find?_eq_none]
    intro k hmem
    simpa using hbefore k hmem
  rw [lineStop, List.find?_append, hnone, List.find?_cons_of_pos (by simp [hk, hq])]
  rfl

/-- A line after which no line ends goes up to the end of the source. -/
theorem lineStop_last (h : ∀ k ∈ ts, k.endsLine → k.pos < q) : lineStop ts stop q = stop := by
  have hnone : ts.find? (fun k => k.endsLine && q ≤ k.pos) = none := by
    rw [List.find?_eq_none]
    intro k hmem
    simpa using h k hmem
  rw [lineStop, hnone]
  rfl

/-- The voice is the same at two positions without a voice field between them. -/
theorem voiceBefore_congr (hpq : p ≤ q)
    (h : ∀ k ∈ ts, k.voice?.isSome → ¬(p ≤ k.pos ∧ k.pos < q)) :
    voiceBefore ts q = voiceBefore ts p := by
  unfold voiceBefore
  rw [List.filterMap_filter, List.filterMap_filter]
  congr 2
  refine List.filterMap_congr fun k hk => ?_
  cases hv : k.voice? with
  | none => simp
  | some v =>
    have hbetween := h k hk (by rw [hv]; rfl)
    have hiff : k.pos < q ↔ k.pos < p := by omega
    simp only [hiff]

end

/-! ## The voices of the body -/

/-- The voice that a node of the body names, if it is a voice field. -/
def Node.voice? (n : Node) : Option Text :=
  match n.label with
  | .voiceField t => some (Field.value t)
  | _ => none

/-- The voice that is current after nodes of the body. -/
def voiceAfter (current : Text) (ns : List Node) : Text :=
  (ns.filterMap Node.voice?).getLast?.getD current

/-- The voice that is current after a node and the nodes behind it. -/
theorem voiceAfter_cons (current : Text) (n : Node) (ns : List Node) :
    voiceAfter current (n :: ns) = voiceAfter (n.voice?.getD current) ns := by
  unfold voiceAfter
  cases hv : n.voice? with
  | none =>
    rw [List.filterMap_cons_none hv]
    rfl
  | some v =>
    rw [List.filterMap_cons_some hv, List.getLast?_cons]
    rfl

/-- The elements of a node of the body, if it is a line. -/
def Node.lineElements (n : Node) : List Node :=
  if n.label = .line then n.children.filter fun child => !child.label.isComment else []

/-- The elements of the lines of a body, each with the voice that is current at its line. -/
def voicedElements (current : Text) : List Node → List (Text × Node)
  | [] => []
  | n :: rest =>
    n.lineElements.map (current, ·) ++ voicedElements (n.voice?.getD current) rest

/-- The element stands in the voice of this name. -/
def HasElement (vs : List (Text × VoiceParts)) (name : Text) (n : Node) : Prop :=
  ∃ v ∈ vs, v.1 = name ∧ n ∈ v.2.elements

section

variable {current name : Text} {vs : List (Text × VoiceParts)} {n : Node}

/-- Elements are added to the voice of their name. -/
theorem VoiceParts.hasElement_add {v : Text} {elements lyrics : List Node} :
    HasElement (VoiceParts.add v elements lyrics vs) name n ↔
      HasElement vs name n ∨ v = name ∧ n ∈ elements := by
  unfold HasElement
  induction vs with
  | nil => simp [add]
  | cons first vs ih =>
    obtain ⟨w, parts⟩ := first
    unfold add
    split_ifs with hw
    · simp only [List.exists_mem_cons_iff, List.mem_append, hw]
      rw [and_or_left, or_right_comm]
    · simp only [List.exists_mem_cons_iff, ih, or_assoc]

/-- Splitting the nodes of a body puts each element of a line into the voice that is current. -/
theorem hasElement_splitVoices {ns : List Node} :
    HasElement (splitVoices current vs ns) name n ↔
      HasElement vs name n ∨ (name, n) ∈ voicedElements current ns := by
  induction ns generalizing current vs with
  | nil => simp [splitVoices, voicedElements]
  | cons m rest ih =>
    have hcons : (name, n) ∈ voicedElements current (m :: rest) ↔
        (current = name ∧ n ∈ m.lineElements) ∨
          (name, n) ∈ voicedElements (m.voice?.getD current) rest := by
      simp [voicedElements, and_comm]
    rw [hcons]
    unfold splitVoices Node.lineElements Node.voice?
    split
    next t hl => simp [ih, hl]
    next hl => simp [ih, hl, VoiceParts.hasElement_add, or_assoc]
    next hl => simp [ih, hl, VoiceParts.hasElement_add]
    next hvoice hline hlyrics => 
      rw [ih, if_neg hline]
      split
      next t hl => exact absurd hl (hvoice t)
      next => simp

/-- The elements of later nodes have the voice that is current after the nodes before. -/
theorem voicedElements_append {ns ms : List Node} :
    voicedElements current (ns ++ ms) =
      voicedElements current ns ++ voicedElements (voiceAfter current ns) ms := by
  induction ns generalizing current with
  | nil => rfl
  | cons n ns ih =>
    rw [List.cons_append, voicedElements, ih, voiceAfter_cons, voicedElements, List.append_assoc]

/-- The elements that have a voice are those of the lines. -/
theorem exists_voicedElements {ns : List Node} :
    (∃ name, (name, n) ∈ voicedElements current ns) ↔ ∃ line ∈ ns, n ∈ line.lineElements := by
  induction ns generalizing current with
  | nil => simp [voicedElements]
  | cons m rest ih =>
    simp only [voicedElements, List.mem_append, exists_or, ih, List.exists_mem_cons_iff]
    simp

end

/-! ## Where elements start -/

namespace Node

/-- A note with an accidental starts where that does. -/
theorem start?_of_find?_some {n a : Node} {name : NoteName} (hn : n.label = .note name)
    (h : n.children.find? (fun child => child.label.isAccidental) = some a) :
    n.start? = a.firstHead := by
  simp only [start?, hn, h]

/-- A note without an accidental starts at its first head. -/
theorem start?_of_find?_none {n : Node} {name : NoteName} (hn : n.label = .note name)
    (h : n.children.find? (fun child => child.label.isAccidental) = none) :
    n.start? = n.firstHead := by
  simp only [start?, hn, h]

/-- A first head stays the first one when nodes are added. -/
theorem firstHeadOf_append {ns : List Node} {q : Nat} (h : firstHeadOf ns = some q) (m : Node) :
    firstHeadOf (ns ++ [m]) = some q := by
  induction ns with
  | nil => cases h
  | cons n ns ih =>
    rw [firstHeadOf] at h
    rw [List.cons_append, firstHeadOf]
    cases hn : firstHead n with
    | some p => rwa [hn] at h
    | none =>
      rw [hn] at h
      exact ih h

/-- A mark after a note or rest does not change where it starts. -/
theorem start?_append {n m : Node} {q : Nat} (h : n.start? = some q)
    (hm : m.label.isAccidental = false) : (n.append m).start? = some q := by
  obtain ⟨l, opening, closing, ns⟩ := n
  rw [append]
  have hhead (hq : firstHead (mk l opening closing ns) = some q) :
      firstHead (mk l opening closing (ns ++ [m])) = some q := by
    cases opening with
    | some span => exact hq
    | none => exact firstHeadOf_append hq m
  cases l with
  | note name =>
    cases hfind : ns.find? (fun child => child.label.isAccidental) with
    | some a =>
      have hfind' : (ns ++ [m]).find? (fun child => child.label.isAccidental) = some a := by
        rw [List.find?_append, hfind]
        rfl
      rw [start?_of_find?_some (n := mk (.note name) opening closing ns) rfl hfind] at h
      rwa [start?_of_find?_some (n := mk (.note name) opening closing (ns ++ [m])) rfl hfind']
    | none =>
      have hfind' : (ns ++ [m]).find? (fun child => child.label.isAccidental) = none := by
        rw [List.find?_append, hfind, List.find?_cons_of_neg (by simp [hm])]
        rfl
      rw [start?_of_find?_none (n := mk (.note name) opening closing ns) rfl hfind] at h
      rw [start?_of_find?_none (n := mk (.note name) opening closing (ns ++ [m])) rfl hfind']
      exact hhead h
  | _ => exact hhead h

end Node

/-! ## Marks and places of what is read -/

/-- A part of a note or rest is no mark. -/
theorem Token.isMark_of_isMusic {t : Token} (ht : t.lexeme.isMusic) : t.isMark = false := by
  unfold isMark voice? endsLine
  cases hl : t.lexeme with
  | voiceField | newline =>
    rw [hl] at ht
    cases ht
  | _ => simp

/-- Where an item starts; that of a line of lyrics is left out. -/
def Item.start? : Item → Option Nat
  | token t => some t.pos
  | chord start _ => some start
  | lyrics _ => none

/-- The mark that an item is, if it is one. -/
def Item.mark? : Item → Option Token
  | token t => Option.guard Token.isMark t
  | _ => none

/-- An item with its place: a token of the body, or a chord that starts where it says, or a line of
lyrics. -/
def Item.Sited : Item → Prop
  | token t => t.region = .body
  | chord start n => n.start? = some start
  | lyrics n => n.label = .lyricLine

namespace Piece

/-- Where a piece starts. -/
def start? : Piece → Option Nat
  | durable start _ => some start
  | item i => i.start?

/-- The mark that a piece is, if it is one. -/
def mark? : Piece → Option Token
  | durable _ _ => none
  | item i => i.mark?

/-- A mark starts where the piece does. -/
theorem start?_mark {piece : Piece} {k : Token} (h : piece.mark? = some k) :
    piece.start? = some k.pos := by
  match piece with
  | .item (.token t) =>
    obtain ⟨rfl, -⟩ := Option.guard_eq_some_iff.1 h
    rfl
  | .durable _ _ | .item (.chord _ _) | .item (.lyrics _) => cases h

/-- A note or rest that starts where it says, or an item with its place. -/
def Sited : Piece → Prop
  | durable start n => n.start? = some start
  | item i => i.Sited

end Piece

namespace Pending

variable {p p' : Pending} {t : Token} {done : List Piece}

/-- Where what is pending starts. -/
def start? : Pending → Option Nat
  | nothing => none
  | accidental t _ => some t.pos
  | durable start _ _ _ => some start

/-- A pending note or rest starts where it says. -/
def Sited : Pending → Prop
  | durable start n _ _ => n.start? = some start
  | _ => True

/-- What is completed has the place of what is pending. -/
theorem complete_sited (hp : p.Sited) : (∀ piece ∈ p.complete, piece.Sited) ∧
    (p.complete.filterMap Piece.start?).Sublist p.start?.toList ∧
    p.complete.filterMap Piece.mark? = [] := by
  cases p with
  | nothing => exact ⟨nofun, List.nil_sublist _, rfl⟩
  | accidental => exact ⟨nofun, List.nil_sublist _, rfl⟩
  | durable start n => exact ⟨List.forall_mem_singleton.2 hp, List.Sublist.refl _, rfl⟩

/-- What a token makes of a pending note or rest starts where this starts or at the token. -/
theorem take_sited (hp : p.Sited) (h : p.take t = (done, .ok p')) :
    p'.Sited ∧ (∀ piece ∈ done, piece.Sited) ∧
      (done.filterMap Piece.start? ++ p'.start?.toList).Sublist (p.start?.toList ++ [t.pos]) ∧
      done.filterMap Piece.mark? = [] := by
  obtain ⟨hsited, hstarts, hmarks⟩ := complete_sited hp
  have hstart := List.Sublist.append_right hstarts [t.pos]
  unfold take at h
  split at h
  all_goals cases h
  -- An accidental, a letter or a rest begins at its token, after what it completes.
  case h_2 => exact ⟨trivial, hsited, hstart, hmarks⟩
  case h_4 => exact ⟨rfl, hsited, hstart, hmarks⟩
  case h_6 => exact ⟨rfl, hsited, hstart, hmarks⟩
  -- A letter after an accidental, octave marks and a length go on with what has begun.
  case h_3 => exact ⟨rfl, nofun, List.sublist_append_left _ _, rfl⟩
  case h_7 => exact ⟨Node.start?_append hp rfl, nofun, List.sublist_append_left _ _, rfl⟩
  case h_8 => exact ⟨Node.start?_append hp rfl, nofun, List.sublist_append_left _ _, rfl⟩

end Pending

/-- The pieces that are put together start at items, in their order, and the marks among them are
those of the items. -/
theorem readDurables_sited {p : Pending} {items : List Item} (hp : p.Sited)
    (hi : ∀ i ∈ items, i.Sited) (h : (readDurables p items).fault = none) :
    (∀ piece ∈ (readDurables p items).pieces, piece.Sited) ∧
      ((readDurables p items).pieces.filterMap Piece.start?).Sublist
        (p.start?.toList ++ items.filterMap Item.start?) ∧
      (readDurables p items).pieces.filterMap Piece.mark? = items.filterMap Item.mark? := by
  induction items generalizing p with
  | nil =>
    rw [List.filterMap_nil, List.append_nil]
    exact Pending.complete_sited hp
  | cons i rest ih =>
    obtain ⟨hitem, hrest⟩ := List.forall_mem_cons.1 hi
    by_cases hm : i.isMusic
    · obtain ⟨t, rfl⟩ := Item.exists_token hm
      have hmark : (Item.token t).mark? = none := by
        simp [Item.mark?, Option.guard, Token.isMark_of_isMusic hm]
      cases htake : p.take t with
      | mk done result =>
        cases result with
        | error e =>
          rw [readDurables_unexpected hm htake] at h
          cases h
        | ok p' =>
          rw [readDurables_music hm htake] at h ⊢
          obtain ⟨hsited', hdone, hstart, hnone⟩ := Pending.take_sited hp htake
          obtain ⟨hpieces, hstarts, hmarks⟩ := ih hsited' hrest h
          refine ⟨List.forall_mem_append.2 ⟨hdone, hpieces⟩, ?_, ?_⟩
          · -- The token starts what is pending, or comes after the start of it.
            rw [List.filterMap_append, List.filterMap_cons_some (f := Item.start?) rfl]
            have hjoined := (List.Sublist.refl (done.filterMap Piece.start?)).append hstarts
            rw [← List.append_assoc] at hjoined
            refine hjoined.trans ?_
            rw [List.append_cons]
            exact hstart.append_right _
          · rw [List.filterMap_append, hnone, hmarks, List.filterMap_cons_none hmark]
            rfl
    · rw [Bool.not_eq_true] at hm
      cases hp' : p.fault? with
      | some e =>
        rw [readDurables_lone hm hp'] at h
        cases h
      | none =>
        -- The item is a piece of its own, after what was pending; a mark stays one.
        rw [readDurables_item hm hp'] at h ⊢
        obtain ⟨hsited', hstart, hnone⟩ := Pending.complete_sited hp
        obtain ⟨hpieces, hstarts, hmarks⟩ := ih (p := .nothing) trivial hrest h
        refine ⟨List.forall_mem_append.2 ⟨hsited', List.forall_mem_cons.2 ⟨hitem, hpieces⟩⟩, ?_, ?_⟩
        · rw [List.filterMap_append, List.filterMap_cons, List.filterMap_cons, Piece.start?]
          refine hstart.append ?_
          cases i.start? with
          | none => exact hstarts
          | some s => exact hstarts.cons_cons s
        · rw [List.filterMap_append, hnone, List.filterMap_cons, List.filterMap_cons, hmarks]
          rfl

namespace Group

/-- Where a group starts; that of a line of lyrics is left out. -/
def start? : Group → Option Nat
  | single t => some t.pos
  | chord opening _ => some opening.pos
  | lyrics _ _ => none

/-- The mark that a group is, if it is one. -/
def mark? : Group → Option Token
  | single t => Option.guard Token.isMark t
  | _ => none

/-- Single tokens are those of the body. -/
def Sited : Group → Prop
  | single t => t.region = .body
  | _ => True

/-- An item has the place of its group. -/
theorem read_sited {g : Group} {i : Item} (hg : g.Sited) (h : g.read = .ok i) :
    i.Sited ∧ i.start? = g.start? ∧ i.mark? = g.mark? := by
  cases g with
  | single t =>
    cases h
    exact ⟨hg, rfl, rfl⟩
  | lyrics opening inside =>
    cases h
    exact ⟨rfl, rfl, rfl⟩
  | chord opening inside =>
    obtain ⟨n, hn, h⟩ := bind_eq_ok.1 h
    cases h
    obtain ⟨ts, closing, notes, -, -, -, -, -, rfl⟩ := exists_of_readChord hn
    exact ⟨rfl, rfl, rfl⟩

/-- The items have the places of their groups. -/
theorem mapM_sited {groups : List Group} {items : List Item} (hg : ∀ g ∈ groups, g.Sited)
    (h : groups.mapM Group.read = .ok items) :
    (∀ i ∈ items, i.Sited) ∧ items.filterMap Item.start? = groups.filterMap Group.start? ∧
      items.filterMap Item.mark? = groups.filterMap Group.mark? := by
  have hread := mapM_eq_ok.1 h
  clear h
  induction hread with
  | nil => exact ⟨nofun, rfl, rfl⟩
  | cons hi _ ih =>
    obtain ⟨hfirst, hrest⟩ := List.forall_mem_cons.1 hg
    obtain ⟨hsited, hstart, hmark⟩ := read_sited hfirst hi
    obtain ⟨hitems, hstarts, hmarks⟩ := ih hrest
    refine ⟨List.forall_mem_cons.2 ⟨hsited, hitems⟩, ?_, ?_⟩
    · rw [List.filterMap_cons, List.filterMap_cons, hstart, hstarts]
    · rw [List.filterMap_cons, List.filterMap_cons, hmark, hmarks]

end Group

/-- Voice fields are tokens of the body. -/
theorem Token.Taken.voice {k : Token} (hk : k.Taken) (hv : k.voice?.isSome) : k.region = .body := by
  obtain ⟨r, hr, hm⟩ := hk
  unfold voice? at hv
  split at hv
  next text hl =>
    rw [hl] at hr hm
    cases r <;> first | exact hm | cases hr
  next => cases hv

/-- The groups start at tokens, in their order, and the marks among them are those of the tokens. -/
theorem groupFrom_sited (ts : List Token) (ht : ∀ k ∈ ts, k.Taken ∧ k.region ≠ .header) :
    (∀ g ∈ (groupFrom ts).2, g.Sited) ∧
      ((groupFrom ts).2.filterMap Group.start?).Sublist (ts.map Token.pos) ∧
      (groupFrom ts).2.filterMap Group.mark? = ts.filter Token.isMark := by
  induction ts with
  | nil => exact ⟨nofun, List.Sublist.refl [], rfl⟩
  | cons k rest ih =>
    obtain ⟨⟨htaken, hheader⟩, hrest⟩ := List.forall_mem_cons.1 ht
    obtain ⟨hsited, hstarts, hmarks⟩ := ih hrest
    have hopening (hl : k.lexeme = .chordStart ∨ k.lexeme = .lyricStart) : ¬k.isMark := by
      unfold Token.isMark Token.voice? Token.endsLine
      rcases hl with hl | hl <;> simp [hl]
    rcases groupFrom_cons k rest with
      ⟨hl, heq⟩ | ⟨hl, heq⟩ | ⟨⟨hr, -⟩, heq⟩ | ⟨hc, hly, heq⟩
    · rw [heq, List.filter_cons_of_neg (hopening (.inl hl))]
      exact ⟨List.forall_mem_cons.2 ⟨trivial, hsited⟩, hstarts.cons_cons k.pos, hmarks⟩
    · rw [heq, List.filter_cons_of_neg (hopening (.inr hl))]
      exact ⟨List.forall_mem_cons.2 ⟨trivial, hsited⟩, hstarts.cons k.pos, hmarks⟩
    · have hmark : ¬k.isMark := by
        intro hk
        have hbody : k.region = .body := by
          rcases Bool.or_eq_true_iff.1 hk with hv | he
          · exact htaken.voice hv
          · simpa using (Bool.and_eq_true_iff.1 he).1
        rw [hbody] at hr
        rcases hr with hr | hr <;> cases hr
      rw [heq, List.filter_cons_of_neg hmark]
      exact ⟨hsited, hstarts.cons k.pos, hmarks⟩
    · have hbody := Token.body_of_single hheader hc hly
      rw [heq]
      refine ⟨List.forall_mem_cons.2 ⟨hbody, hsited⟩, hstarts.cons_cons k.pos, ?_⟩
      rw [List.filterMap_cons, Group.mark?, Option.guard, List.filter_cons, hmarks]
      cases k.isMark <;> rfl

/-! ## The body -/

/-- The element stands in the voice that is current at the end of its line. A line end that was
supplied has no place. -/
def InVoice (marks : List Token) (stop : Nat) (name : Text) (n : Node) : Prop :=
  n = .unread (.endOfLine ['\n']) [] ∨
    ∃ q, n.start? = some q ∧ q ≤ lineStop marks stop q ∧
      name = voiceBefore marks (lineStop marks stop q)

/-- The position comes before `p` and after the line ends so far. -/
def OnLine (done : List Token) (p q : Nat) : Prop :=
  q < p ∧ ∀ k ∈ done, k.endsLine → k.pos < q

/-- A position that comes before `p` also comes before what is later. -/
theorem OnLine.mono {done : List Token} {p p' q : Nat} (h : OnLine done p q) (hp : p ≤ p') :
    OnLine done p' q :=
  ⟨lt_of_lt_of_le h.1 hp, h.2⟩

namespace Draft

/-- The body as far as it is read, up to a position `p` and with the marks `done` before it. The
elements of the lines that are complete stand in their voices; those of the current line, and the
tuplet that has been begun, come after the last line end. -/
structure Voiced (marks : List Token) (stop : Nat) (done : List Token) (p : Nat) (d : Draft) :
    Prop where
  voices : d.nodes.filterMap Node.voice? = done.filterMap Token.voice?
  elements : ∀ v ∈ voicedElements Header.defaultVoice d.nodes, InVoice marks stop v.1 v.2
  line : ∀ n ∈ d.line, ∃ q, n.start? = some q ∧ OnLine done p q
  tuplet : ∀ t ∈ d.tuplet, OnLine done p t.mark.pos

namespace Voiced

variable {marks done later : List Token} {stop p p' : Nat} {d d' : Draft}

/-- What was read stays where it is when nothing but its elements follows. -/
theorem mono (h : d.Voiced marks stop done p) (hp : p ≤ p') : d.Voiced marks stop done p' := by
  refine ⟨h.voices, h.elements, fun n hn => ?_, fun t ht => (h.tuplet t ht).mono hp⟩
  obtain ⟨q, hq, hline⟩ := h.line n hn
  exact ⟨q, hq, hline.mono hp⟩

/-- The voice that is current after the nodes is that of the last field so far. -/
theorem current (h : d.Voiced marks stop done p) : voiceAfter Header.defaultVoice d.nodes =
    (done.filterMap Token.voice?).getLast?.getD Header.defaultVoice := by
  rw [voiceAfter, h.voices]

/-- A node that is no line joins the nodes that are complete, with the mark that it is. -/
theorem addNode (h : d.Voiced marks stop done p) {n : Node} (hn : n.label ≠ .line) (ks : List Token)
    (hks : [n].filterMap Node.voice? = ks.filterMap Token.voice?)
    (hends : ∀ k ∈ ks, k.endsLine = false) :
    Voiced marks stop (done ++ ks) p { d with nodes := d.nodes ++ [n] } := by
  have honline {q : Nat} (hq : OnLine done p q) : OnLine (done ++ ks) p q := by
    refine ⟨hq.1, List.forall_mem_append.2 ⟨hq.2, fun k hk hline => ?_⟩⟩
    rw [hends k hk] at hline
    cases hline
  constructor
  case voices => rw [List.filterMap_append, List.filterMap_append, h.voices, hks]
  case elements =>
    rw [voicedElements_append, voicedElements, Node.lineElements, if_neg hn]
    simpa [voicedElements] using h.elements
  case line =>
    intro n hn
    obtain ⟨q, hq, hline⟩ := h.line n hn
    exact ⟨q, hq, honline hline⟩
  case tuplet => exact fun t ht => honline (h.tuplet t ht)

/-- An element joins the current line. -/
theorem addElement (h : d.Voiced marks stop done p) {n : Node} {q : Nat} (hn : n.start? = some q)
    (hq : OnLine done p q) : Voiced marks stop done p { d with line := d.line ++ [n] } :=
  ⟨h.voices, h.elements,
    List.forall_mem_append.2 ⟨h.line, List.forall_mem_singleton.2 ⟨q, hn, hq⟩⟩, h.tuplet⟩

/-- A line ends, and its elements stand in the voice that is current. -/
theorem endLine (h : d.Voiced marks stop done p) (ending : Node)
    (hline : ∀ n ∈ d.line ++ [ending], InVoice marks stop
      ((done.filterMap Token.voice?).getLast?.getD Header.defaultVoice) n) :
    (d.endLine ending).nodes.filterMap Node.voice? = done.filterMap Token.voice? ∧
      (∀ v ∈ voicedElements Header.defaultVoice (d.endLine ending).nodes,
        InVoice marks stop v.1 v.2) ∧
      (d.endLine ending).line = [] := by
  unfold Draft.endLine
  by_cases hempty : d.line = []
  · rw [hempty, List.isEmpty_nil, if_pos rfl]
    exact ⟨h.voices, h.elements, hempty⟩
  · rw [if_neg (by rwa [List.isEmpty_iff])]
    refine ⟨?_, ?_, rfl⟩
    · rw [List.filterMap_append, h.voices]
      exact List.append_nil _
    · rw [voicedElements_append, h.current]
      refine List.forall_mem_append.2 ⟨h.elements, ?_⟩
      rw [voicedElements, voicedElements, List.append_nil]
      intro v hv
      obtain ⟨n, hn, rfl⟩ := List.mem_map.1 hv
      exact hline n (List.mem_of_mem_filter hn)

/-- A note, rest or chord joins the current line or the tuplet that has been begun. -/
theorem add (h : d.Voiced marks stop done p) {start : Nat} {n : Node} (hn : n.start? = some start)
    (hp : p ≤ start) (hdone : ∀ k ∈ done, k.pos < p) (hadd : d.add start n = .ok d') :
    d'.Voiced marks stop done (start + 1) := by
  have hlater : d.Voiced marks stop done (start + 1) := h.mono (by omega)
  have honline : OnLine done (start + 1) start := by
    refine ⟨by omega, fun k hk _ => ?_⟩
    have hlt := hdone k hk
    omega
  unfold Draft.add at hadd
  split at hadd
  next =>
    cases hadd
    exact hlater.addElement hn honline
  next t ht =>
    have htuplet := hlater.tuplet t ht
    split_ifs at hadd
    dsimp only at hadd
    split_ifs at hadd
    · cases hadd
      -- The tuplet that is complete starts at its mark.
      have hmark : (Node.mk (.tuplet t.size) (some t.mark.span) none (t.members ++ [n])).start? =
          some t.mark.pos := rfl
      have hline := (hlater.addElement hmark htuplet).line
      exact ⟨h.voices, h.elements, hline, nofun⟩
    · cases hadd
      refine ⟨h.voices, h.elements, hlater.line, ?_⟩
      rintro _ ⟨⟩
      exact htuplet

/-- A line ends at a token, and the fields before that are those so far. -/
theorem addLineEnd (h : d.Voiced marks stop done p) {t : Token} (hends : t.endsLine)
    (hvoice : t.voice? = none) (hp : p ≤ t.pos) (hdone : ∀ k ∈ done, k.pos < p)
    (hmarks : marks = done ++ t :: later) (hafter : ∀ k ∈ later, t.pos < k.pos)
    (htuplet : d.tuplet = none) :
    (d.endLine (t.node (.endOfLine t.text))).Voiced marks stop (done ++ [t]) (t.pos + 1) := by
  have hbefore : ∀ k ∈ done, k.pos < t.pos := by
    intro k hk
    have hlt := hdone k hk
    omega
  have hcurrent : voiceBefore marks t.pos =
      (done.filterMap Token.voice?).getLast?.getD Header.defaultVoice := by
    rw [hmarks]
    refine voiceBefore_append hbefore (List.forall_mem_cons.2 ⟨le_refl _, fun k hk => ?_⟩)
    exact (hafter k hk).le
  have hstop {q : Nat} (hq : OnLine done (t.pos + 1) q) : lineStop marks stop q = t.pos := by
    rw [hmarks]
    exact lineStop_append hq.2 hends (Nat.le_of_lt_succ hq.1)
  have hinvoice {n : Node} {q : Nat} (hn : n.start? = some q) (hq : OnLine done (t.pos + 1) q) :
      InVoice marks stop ((done.filterMap Token.voice?).getLast?.getD Header.defaultVoice) n :=
    .inr ⟨q, hn, (Nat.le_of_lt_succ hq.1).trans (hstop hq).ge, by rw [hstop hq, hcurrent]⟩
  have honline : OnLine done (t.pos + 1) t.pos :=
    ⟨Nat.lt_succ_self t.pos, fun k hk _ => hbefore k hk⟩
  obtain ⟨hvoices, helements, hline⟩ := h.endLine (t.node (.endOfLine t.text)) <| by
    refine List.forall_mem_append.2 ⟨fun n hn => ?_, ?_⟩
    · obtain ⟨q, hq, hline⟩ := h.line n hn
      exact hinvoice hq (hline.mono (by omega))
    · exact List.forall_mem_singleton.2 (hinvoice rfl honline)
  refine ⟨?_, helements, ?_, ?_⟩
  · rw [hvoices, List.filterMap_append, List.filterMap_cons_none hvoice]
    exact (List.append_nil _).symm
  · rw [hline]
    exact nofun
  · rw [tuplet_endLine, htuplet]
    exact nofun

/-- A token of the body is added. -/
theorem addToken (h : d.Voiced marks stop done p) {t : Token} (hbody : t.region = .body)
    (hp : p ≤ t.pos) (hdone : ∀ k ∈ done, k.pos < p)
    (hmarks : marks = done ++ ((Option.guard Token.isMark t).toList ++ later))
    (hafter : ∀ k ∈ later, t.pos < k.pos) (hadd : d.addToken t = .ok d') :
    d'.Voiced marks stop (done ++ (Option.guard Token.isMark t).toList) (t.pos + 1) := by
  have hlater : d.Voiced marks stop done (t.pos + 1) := h.mono (by omega)
  -- No mark stands between the token and those that are done, so it is on the line.
  have honline : OnLine done (t.pos + 1) t.pos := by
    refine ⟨by omega, fun k hk _ => ?_⟩
    have hlt := hdone k hk
    omega
  have hplain (hv : t.voice? = none) (he : t.endsLine = false) :
      (Option.guard Token.isMark t).toList = [] := by
    simp [Option.guard, Token.isMark, hv, he]
  have hmark (hm : t.isMark) : (Option.guard Token.isMark t).toList = [t] := by
    simp [Option.guard, hm]
  unfold Draft.addToken at hadd
  split at hadd
  next hl =>
    -- The end of the line: what stands on it gets the voice that is current.
    obtain ⟨_, hcheck, hadd⟩ := bind_eq_ok.1 hadd
    cases hadd
    have hends : t.endsLine := by simp [Token.endsLine, hl, hbody]
    have hvoice : t.voice? = none := by simp [Token.voice?, hl]
    rw [hmark (by simp [Token.isMark, hends])] at hmarks ⊢
    exact h.addLineEnd hends hvoice hp hdone hmarks hafter (Draft.checkTuplet_ok hcheck)
  next b hl =>
    -- A bar is one more element of the line.
    obtain ⟨_, hcheck, hadd⟩ := bind_eq_ok.1 hadd
    cases hadd
    rw [hplain (by simp [Token.voice?, hl]) (by simp [Token.endsLine, hl]), List.append_nil]
    exact hlater.addElement rfl honline
  next size hl =>
    -- A tuplet is begun, which joins the line where its mark stands.
    rw [hplain (by simp [Token.voice?, hl]) (by simp [Token.endsLine, hl]), List.append_nil]
    split at hadd
    next => cases hadd
    next =>
      cases hadd
      refine ⟨h.voices, h.elements, hlater.line, ?_⟩
      rintro _ ⟨⟩
      exact honline
  next text hl =>
    -- A voice field is complete at once, and the line stays open.
    cases hadd
    have hvoice : t.voice? = some (Field.value (Text.trimEnd text)) := by simp [Token.voice?, hl]
    have hends : t.endsLine = false := by simp [Token.endsLine, hl]
    rw [hmark (by simp [Token.isMark, hvoice])]
    refine hlater.addNode (n := t.node (.voiceField (Text.trimEnd text))) nofun [t] ?_
      (List.forall_mem_singleton.2 hends)
    rw [List.filterMap_cons_some hvoice]
    rfl
  next text hl =>
    -- A comment between the lines is a node of its own; on a line it is one more element.
    rw [hplain (by simp [Token.voice?, hl]) (by simp [Token.endsLine, hl]), List.append_nil]
    dsimp only at hadd
    split_ifs at hadd
    · cases hadd
      have hnode := hlater.addNode (n := t.node (.comment text)) nofun [] rfl nofun
      rwa [List.append_nil] at hnode
    · cases hadd
      exact hlater.addElement rfl honline
  -- Any other token is an error.
  next => cases hadd

/-- A piece is added. -/
theorem addPiece (h : d.Voiced marks stop done p) {piece : Piece} (hpiece : piece.Sited)
    (hstart : ∀ s ∈ piece.start?, p ≤ s) (hdone : ∀ k ∈ done, k.pos < p)
    (hmarks : marks = done ++ (piece.mark?.toList ++ later))
    (hafter : ∀ s ∈ piece.start?, ∀ k ∈ later, s < k.pos) (hadd : d.addPiece piece = .ok d') :
    d'.Voiced marks stop (done ++ piece.mark?.toList) (piece.start?.elim p (· + 1)) := by
  match piece with
  | .durable start n =>
    rw [Piece.mark?, Option.toList_none, List.append_nil]
    exact h.add hpiece (hstart start rfl) hdone hadd
  | .item (.chord start n) =>
    have hmark : (Piece.item (.chord start n)).mark? = none := rfl
    rw [hmark, Option.toList_none, List.append_nil]
    exact h.add hpiece (hstart start rfl) hdone hadd
  | .item (.token t) =>
    exact h.addToken hpiece (hstart t.pos rfl) hdone hmarks (hafter t.pos rfl) hadd
  | .item (.lyrics n) =>
    cases hadd
    have hlabel : n.label = .lyricLine := hpiece
    have hvoice : n.voice? = none := by rw [Node.voice?, hlabel]
    refine h.addNode (by rw [hlabel]; exact nofun) [] ?_ nofun
    rw [List.filterMap_cons_none hvoice]
    rfl

/-- All pieces are added, one after the other. -/
theorem foldlM {pieces : List Piece} (h : d.Voiced marks stop done p)
    (hpieces : ∀ piece ∈ pieces, piece.Sited)
    (hstarts : ∀ s ∈ pieces.filterMap Piece.start?, p ≤ s ∧ s < stop)
    (hordered : (pieces.filterMap Piece.start?).Pairwise (· < ·)) (hp : p ≤ stop)
    (hdone : ∀ k ∈ done, k.pos < p) (hmarks : marks = done ++ pieces.filterMap Piece.mark?)
    (hadd : pieces.foldlM Draft.addPiece d = .ok d') :
    ∃ p' ≤ stop, d'.Voiced marks stop marks p' ∧ ∀ k ∈ marks, k.pos < p' := by
  induction pieces generalizing d done p with
  | nil =>
    cases hadd
    rw [List.filterMap_nil, List.append_nil] at hmarks
    rw [hmarks] at h ⊢
    exact ⟨p, hp, h, hdone⟩
  | cons piece rest ih =>
    rw [List.foldlM_cons] at hadd
    obtain ⟨d₁, hfirst, hadd⟩ := bind_eq_ok.1 hadd
    obtain ⟨hpiece, hrest⟩ := List.forall_mem_cons.1 hpieces
    have hsplit : (piece :: rest).filterMap Piece.start? =
        piece.start?.toList ++ rest.filterMap Piece.start? := by
      rw [List.filterMap_cons]
      cases piece.start? <;> rfl
    have hmarks' : marks = done ++ (piece.mark?.toList ++ rest.filterMap Piece.mark?) := by
      rw [hmarks, List.filterMap_cons]
      cases piece.mark? <;> rfl
    rw [hsplit] at hstarts hordered
    obtain ⟨hstart, hstarts⟩ := List.forall_mem_append.1 hstarts
    obtain ⟨-, hordered, hless⟩ := List.pairwise_append.1 hordered
    have hmark : ∀ k ∈ piece.mark?, piece.start? = some k.pos := fun k hk => piece.start?_mark hk
    -- The starts are in order, so the marks that are still to come are after this piece.
    have hafter : ∀ s ∈ piece.start?, ∀ k ∈ rest.filterMap Piece.mark?, s < k.pos := by
      intro s hs k hk
      obtain ⟨later, hmem, hk⟩ := List.mem_filterMap.1 hk
      refine hless s (Option.mem_toList.2 hs) k.pos ?_
      exact List.mem_filterMap.2 ⟨later, hmem, later.start?_mark hk⟩
    have hnext := h.addPiece hpiece (fun s hs => (hstart s (Option.mem_toList.2 hs)).1) hdone
      hmarks' hafter hfirst
    -- Reading has come as far as one past the start of the piece, if it has one.
    have hreached : p ≤ piece.start?.elim p (· + 1) ∧ piece.start?.elim p (· + 1) ≤ stop := by
      cases hs : piece.start? with
      | none => exact ⟨le_refl p, hp⟩
      | some s =>
        obtain ⟨hle, hlt⟩ := hstart s (by simp [hs])
        exact ⟨Nat.le_succ_of_le hle, hlt⟩
    refine ih hnext hrest (fun s hs => ⟨?_, (hstarts s hs).2⟩) hordered hreached.2 ?_
      (by rw [hmarks', List.append_assoc]) hadd
    · cases hp : piece.start? with
      | none => exact (hstarts s hs).1
      | some s₀ => exact hless s₀ (by simp [hp]) s hs
    · refine List.forall_mem_append.2 ⟨fun k hk => ?_, fun k hk => ?_⟩
      · exact lt_of_lt_of_le (hdone k hk) hreached.1
      · rw [hmark k (Option.mem_toList.1 hk)]
        exact Nat.lt_succ_self k.pos

end Voiced

end Draft

/-- The elements of a body that is read stand in the voices of the fields before the ends of their
lines. -/
theorem readBody_voices {items : List Item} {n : Node} {stop : Nat} (hi : ∀ i ∈ items, i.Sited)
    (hordered : (items.filterMap Item.start?).Pairwise (· < ·))
    (hwithin : ∀ s ∈ items.filterMap Item.start?, s < stop) (h : readBody items = .ok n) :
    ∀ v ∈ voicedElements Header.defaultVoice n.children,
      InVoice (items.filterMap Item.mark?) stop v.1 v.2 := by
  obtain ⟨d, hd, h⟩ := bind_eq_ok.1 h
  split at h
  next => cases h
  next hfault =>
    obtain ⟨_, -, h⟩ := bind_eq_ok.1 h
    cases h
    obtain ⟨hpieces, hstarts, hmarks⟩ := readDurables_sited (p := .nothing) trivial hi hfault
    have hempty : Draft.empty.Voiced (items.filterMap Item.mark?) stop [] 0 :=
      ⟨rfl, nofun, nofun, nofun⟩
    obtain ⟨p, hp, hvoiced, hbefore⟩ := hempty.foldlM hpieces
      (fun s hs => ⟨Nat.zero_le s, hwithin s (hstarts.subset hs)⟩) (hordered.sublist hstarts)
      (Nat.zero_le stop) nofun (by rw [hmarks]; rfl) hd
    generalize items.filterMap Item.mark? = marks at *
    have hcurrent : voiceBefore marks stop =
        (marks.filterMap Token.voice?).getLast?.getD Header.defaultVoice := by
      have hnone : ∀ k ∈ ([] : List Token), stop ≤ k.pos := nofun
      rw [← List.append_nil marks, voiceBefore_append _ hnone, List.append_nil]
      exact fun k hk => lt_of_lt_of_le (hbefore k hk) hp
    -- The last line goes up to the end of the source.
    refine (hvoiced.endLine _ ?_).2.1
    refine List.forall_mem_append.2 ⟨fun n hn => ?_, List.forall_mem_singleton.2 (.inl rfl)⟩
    obtain ⟨q, hq, hline⟩ := hvoiced.line n hn
    have hstop : lineStop marks stop q = stop := lineStop_last hline.2
    refine .inr ⟨q, hq, ?_, ?_⟩
    · rw [hstop]
      exact hline.1.le.trans hp
    · rw [hstop, hcurrent]

/-- The body of a tune that is read is read from the tokens after those of the header. -/
theorem readTune_items {source : Text} {document body : Node}
    (h : readTune source = .ok document) (hbody : document.first? .body = some body) :
    ∃ header ts items, tokens source = header ++ ts ∧ (∀ k ∈ header, k.region = .header) ∧
      (∀ k ∈ ts, k.region ≠ .header) ∧ (groupFrom ts).2.mapM Group.read = .ok items ∧
      readBody items = .ok body := by
  obtain ⟨header, ts, ht, hfront, hts⟩ := exists_isBody source
  have hheader : ∀ k ∈ header, k.region = .header := fun k hk => (hfront k hk).2
  obtain ⟨items, bodies, nodes, hitems, hbodies, -, rfl⟩ :=
    (readTune_eq_ok ht hheader hts.region).1 h
  refine ⟨header, ts, items, ht, hheader, hts.region, hitems, ?_⟩
  have hkind := List.find?_some hbody
  -- The header is no body, so the body is the one that was read.
  rcases List.mem_cons.1 (List.mem_of_find?_eq_some hbody) with rfl | hmem
  · cases hkind
  · split_ifs at hbodies
    · cases hbodies
      cases hmem
    · obtain ⟨n, hread, hbodies⟩ := bind_eq_ok.1 hbodies
      cases hbodies
      rwa [List.mem_singleton.1 hmem]

/-- A source has an element of some kind in a voice if one is found in it. -/
theorem exists_hasElement (source : Text) (p : Text → Node → Bool)
    (h : (readTune source).toOption.any fun document => (document.first? .body).any fun body =>
      body.voiceParts.any fun v => v.2.elements.any (p v.1)) :
    ∃ document body name n, readTune source = .ok document ∧ document.first? .body = some body ∧
      HasElement body.voiceParts name n ∧ p name n := by
  obtain ⟨document, hdocument, h⟩ := (Option.any_eq_true _ _).1 h
  obtain ⟨body, hbody, h⟩ := (Option.any_eq_true _ _).1 h
  obtain ⟨v, hv, h⟩ := List.any_eq_true.1 h
  obtain ⟨n, hn, hp⟩ := List.any_eq_true.1 h
  exact ⟨document, body, v.1, n, toOption_eq_some.1 hdocument, hbody, ⟨v, hv, rfl, hn⟩, hp⟩

/-- The voices of a tune that is read hold the elements of its lines. An element stands in the voice
of the last voice field before the end of its line, and so in that of the last field before the
element itself when no field comes between. Only a line end that was supplied has no place. -/
theorem readTune_voiceParts {source : Text} {document body : Node}
    (h : readTune source = .ok document) (hbody : document.first? .body = some body) :
    (∀ n, (∃ name, HasElement body.voiceParts name n) ↔
      ∃ line ∈ body.children, n ∈ line.lineElements) ∧
    ∀ name n, HasElement body.voiceParts name n → n = .unread (.endOfLine ['\n']) [] ∨
      ∃ q, n.start? = some q ∧ name = voiceAt source (lineEndAt source q) ∧
        ((∀ k ∈ tokens source, k.voice?.isSome → ¬(q ≤ k.pos ∧ k.pos < lineEndAt source q)) →
          name = voiceAt source q) := by
  have hsplit (name : Text) (n : Node) : HasElement body.voiceParts name n ↔
      (name, n) ∈ voicedElements Header.defaultVoice body.children := by
    unfold Node.voiceParts
    rw [hasElement_splitVoices]
    simp [HasElement]
  refine ⟨fun n => by simp only [hsplit, exists_voicedElements], fun name n hn => ?_⟩
  obtain ⟨header, ts, items, ht, hheader, hts, hitems, hread⟩ := readTune_items h hbody
  have htaken := tokensFrom_taken .header 0 source
  have hplaced := tokens_placed source
  change ∀ k ∈ tokens source, k.Taken at htaken
  -- The marks of the source and the places of the items are those of the tokens of the body.
  have hmarks : ts.filter Token.isMark = (tokens source).filter Token.isMark := by
    have hnone : header.filter Token.isMark = [] := by
      refine List.filter_eq_nil_iff.2 fun k hk hmark => ?_
      have hregion := hheader k hk
      rcases Bool.or_eq_true_iff.1 hmark with hv | he
      · have hvoice := (htaken k (by simp [ht, hk])).voice hv
        rw [hregion] at hvoice
        cases hvoice
      · simp [Token.endsLine, hregion] at he
    rw [ht, List.filter_append, hnone, List.nil_append]
  obtain ⟨hgroups, hgroupStarts, hgroupMarks⟩ := groupFrom_sited ts fun k hk =>
    ⟨htaken k (by simp [ht, hk]), hts k hk⟩
  obtain ⟨hsited, hitemStarts, hitemMarks⟩ := Group.mapM_sited hgroups hitems
  have hstarts : (items.filterMap Item.start?).Sublist ((tokens source).map Token.pos) := by
    rw [hitemStarts, ht, List.map_append]
    exact hgroupStarts.trans (List.sublist_append_right _ _)
  have hordered : ((tokens source).map Token.pos).Pairwise (· < ·) := by
    refine List.pairwise_map.2 (hplaced.ordered.imp_of_mem fun hk _ hle => ?_)
    exact lt_of_lt_of_le (hplaced.within _ hk).2.1 hle
  have hwithin : ∀ s ∈ items.filterMap Item.start?, s < source.length := by
    intro s hs
    obtain ⟨k, hk, rfl⟩ := List.mem_map.1 (hstarts.subset hs)
    obtain ⟨-, hlt, hstop⟩ := hplaced.within k hk
    omega
  have hvoices := readBody_voices hsited (hordered.sublist hstarts) hwithin hread
  obtain heq | ⟨q, hq, hle, hname⟩ := hvoices (name, n) ((hsplit name n).1 hn)
  · exact .inl heq
  · rw [hitemMarks, hgroupMarks, hmarks, lineStop_marks, voiceBefore_marks] at hname
    rw [hitemMarks, hgroupMarks, hmarks, lineStop_marks] at hle
    exact .inr ⟨q, hq, hname, fun hnone => hname.trans (voiceBefore_congr hle hnone)⟩

/-- A voice field after a note on the same line of music. -/
def fieldAfterNote : Text :=
  "X:1\nT:t\nL:1/4\nK:C\nC V:a\nD\n".text

/-- An element of a tune with a voice field within a line of music, in the voice of the end of the
line. -/
theorem readTune_voiceParts_fieldAfterNote :
    ∃ document body name n q, readTune fieldAfterNote = .ok document ∧
      document.first? .body = some body ∧ HasElement body.voiceParts name n ∧
      n.start? = some q ∧ name = voiceAt fieldAfterNote (lineEndAt fieldAfterNote q) := by
  obtain ⟨document, body, name, n, h, hbody, hn, hplace⟩ :=
    exists_hasElement fieldAfterNote (fun _ n => n.start?.isSome) (by decide +kernel)
  obtain ⟨-, hvoices⟩ := readTune_voiceParts h hbody
  obtain rfl | ⟨q, hq, hname, -⟩ := hvoices name n hn
  · cases hplace
  · exact ⟨document, body, name, n, q, h, hbody, hn, hq, hname⟩

/-- A note before every voice field stands in the voice of the field after it on its line. -/
theorem readTune_fieldAfterNote :
    ∃ document body name n q, readTune fieldAfterNote = .ok document ∧
      document.first? .body = some body ∧ HasElement body.voiceParts name n ∧
      n.label = .note ⟨.C, false⟩ ∧ n.start? = some q ∧
      voiceAt fieldAfterNote q = Header.defaultVoice ∧ name = "a".text := by
  obtain ⟨document, body, name, n, h, hbody, hn, hfound⟩ :=
    exists_hasElement fieldAfterNote (fun name n => n.label = .note ⟨.C, false⟩ ∧
      n.start?.any (fun q => voiceAt fieldAfterNote q = Header.defaultVoice) ∧ name = "a".text)
      (by decide +kernel)
  obtain ⟨hlabel, hplace, hname⟩ := of_decide_eq_true hfound
  obtain ⟨q, hq, hvoice⟩ := (Option.any_eq_true _ _).1 hplace
  exact ⟨document, body, name, n, q, h, hbody, hn, hlabel, hq, of_decide_eq_true hvoice, hname⟩

end SingAlong
