import SingAlong.Proofs.Padding
import SingAlong.Proofs.Voices

/-!
# Reading a padded source

Sources with tokens that are alike, as those of a source and the padded source are, are read alike
(`readTune_like`): both are rejected, or both are read as documents whose headers have the same
fields, and whose bodies have the same voice fields, lines of music and lines of lyrics, where only
the lines of lyrics may have more spaces at their ends.

Each stage of reading has one lemma that says so, from the tokens (`Token.Spread`) over the groups,
the notes and rests, and the body as far as it is read (`Draft.Like`), to the document. `Agrees`
says of the results of a stage that both are faults or both are alike.
-/

namespace SingAlong

/-! ## Results that agree -/

/-- Both results are faults, or both are results that are alike. -/
inductive Agrees {ε α β : Type} (like : α → β → Prop) : Except ε α → Except ε β → Prop
  | ok {a : α} {b : β} (h : like a b) : Agrees like (.ok a) (.ok b)
  | error (e e' : ε) : Agrees like (.error e) (.error e')

namespace Agrees

variable {ε α β γ δ : Type} {like : α → β → Prop} {like' : γ → δ → Prop}

/-- A stage after another one. -/
theorem bind {x : Except ε α} {y : Except ε β} {f : α → Except ε γ} {g : β → Except ε δ}
    (h : Agrees like x y) (hfg : ∀ a b, like a b → Agrees like' (f a) (g b)) :
    Agrees like' (x >>= f) (y >>= g) := by
  cases h with
  | ok h => exact hfg _ _ h
  | error e e' => exact .error e e'

/-- What is made of both results. -/
theorem map {x : Except ε α} {y : Except ε β} {f : α → γ} {g : β → δ} (h : Agrees like x y)
    (hfg : ∀ a b, like a b → like' (f a) (g b)) : Agrees like' (x.map f) (y.map g) := by
  cases h with
  | ok h => exact .ok (hfg _ _ h)
  | error e e' => exact .error e e'

/-- A stage for each entry of a list. -/
theorem mapM {f : α → Except ε γ} {g : β → Except ε δ} {xs : List α} {ys : List β}
    (h : List.Forall₂ like xs ys) (hfg : ∀ a b, like a b → Agrees like' (f a) (g b)) :
    Agrees (List.Forall₂ like') (xs.mapM f) (ys.mapM g) := by
  induction h with
  | nil => exact .ok .nil
  | cons hxy _ ih =>
    rw [List.mapM_cons, List.mapM_cons]
    refine (hfg _ _ hxy).bind fun a b hab => ih.bind fun as bs habs => ?_
    exact .ok (.cons hab habs)

/-- A stage that adds one entry after the other. -/
theorem foldlM {f : γ → α → Except ε γ} {g : δ → β → Except ε δ} {xs : List α} {ys : List β}
    {c : γ} {d : δ} (h : List.Forall₂ like xs ys) (hcd : like' c d)
    (hfg : ∀ c d, like' c d → ∀ a b, like a b → Agrees like' (f c a) (g d b)) :
    Agrees like' (xs.foldlM f c) (ys.foldlM g d) := by
  induction h generalizing c d with
  | nil => exact .ok hcd
  | cons hxy _ ih =>
    rw [List.foldlM_cons, List.foldlM_cons]
    exact (hfg _ _ hcd _ _ hxy).bind fun c d hcd => ih hcd

/-- The same results agree. -/
theorem refl (x : Except ε α) : Agrees Eq x x := by
  cases x with
  | ok a => exact .ok rfl
  | error e => exact .error e e

/-- Results that agree in one way agree in any that follows. -/
theorem mono {like' : α → β → Prop} {x : Except ε α} {y : Except ε β} (h : Agrees like x y)
    (hlike : ∀ a b, like a b → like' a b) : Agrees like' x y := by
  cases h with
  | ok h => exact .ok (hlike _ _ h)
  | error e e' => exact .error e e'

/-- Results that agree with the same result. -/
theorem trans {like' : β → γ → Prop} {x : Except ε α} {y : Except ε β} {z : Except ε γ}
    (h : Agrees like x y) (h' : Agrees like' y z) :
    Agrees (fun a c => ∃ b, like a b ∧ like' b c) x z := by
  cases h with
  | ok h =>
    cases h' with
    | ok h' => exact .ok ⟨_, h, h'⟩
  | error e e' =>
    cases h' with
    | error _ e'' => exact .error e e''

/-- Results agree in both directions. -/
theorem symm {x : Except ε α} {y : Except ε β} (h : Agrees like x y) :
    Agrees (fun b a => like a b) y x := by
  cases h with
  | ok h => exact .ok h
  | error e e' => exact .error e' e

/-- What is made of the first result agrees, so the result itself does. -/
theorem of_map {f : γ → α} {x : Except ε γ} {y : Except ε β} (h : Agrees like (x.map f) y) :
    Agrees (fun c b => like (f c) b) x y := by
  cases x with
  | ok c => cases h with | ok h => exact .ok h
  | error e => cases h with | error _ e' => exact .error e e'

/-- What is known of the first result is known where they agree. -/
theorem and_left {P : α → Prop} {x : Except ε α} {y : Except ε β} (h : Agrees like x y)
    (hP : ∀ a, x = .ok a → P a) : Agrees (fun a b => P a ∧ like a b) x y := by
  cases h with
  | ok h => exact .ok ⟨hP _ rfl, h⟩
  | error e e' => exact .error e e'

/-- Results agree whatever the faults are called. -/
theorem mapError {ε' : Type} {x : Except ε α} {y : Except ε β} (h : Agrees like x y)
    (f : ε → ε') : Agrees like (x.mapError f) (y.mapError f) := by
  cases h with
  | ok h => exact .ok h
  | error e e' => exact .error _ _

/-- One result is no fault exactly when the other one is none. -/
theorem exists_ok_iff {x : Except ε α} {y : Except ε β} (h : Agrees like x y) :
    (∃ a, x = .ok a) ↔ ∃ b, y = .ok b := by
  cases h with
  | ok h => exact iff_of_true ⟨_, rfl⟩ ⟨_, rfl⟩
  | error e e' => exact iff_of_false nofun nofun

end Agrees

/-! ## Elements that are alike -/

/-- The label without the text of a comment. -/
def Label.plain : Label → Label
  | comment _ => comment []
  | l => l

/-- The token without the text of a space. -/
def LyricToken.plain (t : LyricToken) : LyricToken :=
  if t.kind = .space then ⟨.space, [' ']⟩ else t

/-- The tokens of lyrics that the padded text adds spaces to. -/
def LyricToken.Spread (added : Prop) (ts ts' : List LyricToken) : Prop :=
  SingAlong.Spread added (fun t t' => t.plain = t'.plain) (fun t => t.kind = .space)
    (fun t => t.kind = .newline) ts ts'

/-- Leaving out the text of a space keeps the kind. -/
theorem LyricToken.kind_plain (t : LyricToken) : t.plain.kind = t.kind := by
  unfold plain
  split_ifs with h
  · exact h.symm
  · rfl

namespace Node

/-- The tokens of a line of lyrics. -/
def lyricTokens (n : Node) : List LyricToken :=
  if n.label = .lyricLine then n.children.map LyricToken.ofNode else []

/-- Nodes of a body that make the same of a voice, but for spaces at the ends of lines of lyrics. -/
structure Like (added : Prop) (n n' : Node) : Prop where
  label : n.label.plain = n'.label.plain
  elements : n.lineElements.map unplaced = n'.lineElements.map unplaced
  lyrics : LyricToken.Spread added n.lyricTokens n'.lyricTokens

/-- What is kept of an element of a line: where it stands and the text of a comment do not count. -/
def shape (n : Node) : Node :=
  if n.label.isComment then unread (.comment []) [] else n.unplaced

/-- Elements that are the same without their places have the same shape. -/
theorem shape_of_unplaced {n n' : Node} (h : n.unplaced = n'.unplaced) : n.shape = n'.shape := by
  have hlabel : n.label = n'.label := by rw [← n.label_unplaced, h, n'.label_unplaced]
  rw [shape, shape, hlabel, h]

/-- The elements of lines of the same shapes are the same without their places. -/
theorem unplaced_of_shape {ns ms : List Node} (h : ns.map shape = ms.map shape) :
    (ns.filter fun n => !n.label.isComment).map unplaced =
      (ms.filter fun n => !n.label.isComment).map unplaced := by
  have hfilter (ns : List Node) : (ns.filter fun n => !n.label.isComment).map unplaced =
      (ns.map shape).filter fun n => !n.label.isComment := by
    induction ns with
    | nil => rfl
    | cons n ns ih =>
      rw [List.map_cons, List.filter_cons, List.filter_cons]
      cases hn : n.label.isComment with
      | true =>
        have hshape : n.shape.label.isComment := by rw [shape, if_pos hn]; rfl
        rw [hshape]
        exact ih
      | false =>
        have hshape : n.shape = n.unplaced := by rw [shape, hn]; rfl
        rw [hshape, n.label_unplaced, hn]
        exact congrArg (n.unplaced :: ·) ih
  rw [hfilter, hfilter, h]

end Node

/-- Items that are alike. -/
inductive Item.Like (added : Prop) : Item → Item → Prop
  | token {t t' : Token} (h : t.Like t') : Like added (.token t) (.token t')
  | chord {start start' : Nat} {n n' : Node} (h : n.unplaced = n'.unplaced) :
      Like added (.chord start n) (.chord start' n')
  | lyrics {n n' : Node} (h : n.Like added n') : Like added (.lyrics n) (.lyrics n')

/-- Pieces that are alike. -/
inductive Piece.Like (added : Prop) : Piece → Piece → Prop
  | durable {start start' : Nat} {n n' : Node} (h : n.unplaced = n'.unplaced) :
      Like added (.durable start n) (.durable start' n')
  | item {i i' : Item} (h : i.Like added i') : Like added (.item i) (.item i')

/-- Notes and rests that are pending and alike. -/
inductive Pending.Like : Pending → Pending → Prop
  | nothing : Like .nothing .nothing
  | accidental (t t' : Token) (a : Accidental) : Like (.accidental t a) (.accidental t' a)
  | durable {start start' : Nat} {n n' : Node} (octaveDue lengthDue : Bool)
      (h : n.unplaced = n'.unplaced) :
      Like (.durable start n octaveDue lengthDue) (.durable start' n' octaveDue lengthDue)

/-! ## Notes and rests -/

section

variable {added : Prop}

/-- Does the lexeme have nothing that may differ? -/
def Lexeme.isFixed : Lexeme → Bool
  | comment _ | keyField _ | field _ | voiceField _ | lyric .space _ => false
  | _ => true

/-- A lexeme with nothing that may differ is plainly the same as itself only. -/
theorem Lexeme.eq_of_plain {l l' : Lexeme} (h : l.plain = l'.plain) (hl : l.isFixed) : l' = l := by
  have hself : l.plain = l := by
    unfold plain
    split <;> first | rfl | cases hl
  rw [hself] at h
  subst h
  unfold plain at hl ⊢
  split at hl <;> first | cases hl | rfl

/-- The lexemes with something that may differ. -/
theorem Lexeme.eq_of_not_isFixed {l : Lexeme} (hl : ¬l.isFixed) : ∃ x : Text, l = .comment x ∨
    l = .keyField x ∨ l = .field x ∨ l = .voiceField x ∨ l = .lyric .space x := by
  unfold isFixed at hl
  split at hl
  next x => exact ⟨x, .inl rfl⟩
  next x => exact ⟨x, .inr (.inl rfl)⟩
  next x => exact ⟨x, .inr (.inr (.inl rfl))⟩
  next x => exact ⟨x, .inr (.inr (.inr (.inl rfl)))⟩
  next x => exact ⟨x, .inr (.inr (.inr (.inr rfl)))⟩
  next => exact absurd rfl hl

/-- Lexemes that are plainly the same are the same, or of a kind in which something may differ. -/
theorem Lexeme.plain_cases {l l' : Lexeme} (h : l.plain = l'.plain) :
    (l.isFixed ∧ l' = l) ∨ ∃ x y : Text, l = .comment x ∧ l' = .comment y ∨
      Text.trimEnd x = Text.trimEnd y ∧ (l = .keyField x ∧ l' = .keyField y ∨
        l = .field x ∧ l' = .field y ∨ l = .voiceField x ∧ l' = .voiceField y) ∨
      l = .lyric .space x ∧ l' = .lyric .space y := by
  by_cases hl : l.isFixed
  · exact .inl ⟨hl, eq_of_plain h hl⟩
  · have hl' : ¬l'.isFixed := fun hl' => hl (by rwa [eq_of_plain h.symm hl'])
    obtain ⟨x, hx⟩ := eq_of_not_isFixed hl
    obtain ⟨y, hy⟩ := eq_of_not_isFixed hl'
    refine .inr ⟨x, y, ?_⟩
    rcases hx with rfl | rfl | rfl | rfl | rfl <;> rcases hy with rfl | rfl | rfl | rfl | rfl
    all_goals simp_all [plain]

/-- Parts of notes and rests have nothing that may differ. -/
theorem Lexeme.isFixed_of_isMusic {l : Lexeme} (h : l.isMusic) : l.isFixed := by
  cases l <;> first | rfl | cases h

/-- Likeness goes both ways. -/
theorem Token.Like.symm {t t' : Token} (h : t.Like t') : t'.Like t :=
  ⟨h.1.symm, h.2.symm⟩

/-- The lexeme is the same when it has nothing that may differ. -/
theorem Token.Like.lexeme_eq {t t' : Token} (h : t.Like t') (ht : t.lexeme.isFixed) :
    t'.lexeme = t.lexeme :=
  Lexeme.eq_of_plain h.1 ht

/-- Both lexemes are parts of notes or rests, or neither is. -/
theorem Lexeme.isMusic_plain (l : Lexeme) : l.plain.isMusic = l.isMusic := by
  unfold plain
  split <;> rfl

/-- Items that are alike are both parts of notes or rests, or neither is. -/
theorem Item.Like.isMusic_eq {i i' : Item} (h : i.Like added i') : i'.isMusic = i.isMusic := by
  cases h with
  | token h =>
    have hplain := congrArg Lexeme.isMusic h.1
    rw [Lexeme.isMusic_plain, Lexeme.isMusic_plain] at hplain
    exact hplain.symm
  | chord h => rfl
  | lyrics h => rfl

namespace Pending

variable {p p' : Pending}

/-- What is completed is alike. -/
theorem Like.complete (h : p.Like p') :
    List.Forall₂ (Piece.Like added) p.complete p'.complete := by
  cases h with
  | nothing => exact .nil
  | accidental => exact .nil
  | durable _ _ hn => exact .cons (.durable hn) .nil

/-- A note is missing in both, or in neither. -/
theorem Like.fault (h : p.Like p') : Option.Rel (fun _ _ => True) p.fault? p'.fault? := by
  cases h with
  | accidental => exact .some trivial
  | nothing => exact .none
  | durable => exact .none

/-- A child that is added to notes or rests that are alike. -/
theorem unplaced_append_eq {n n' m m' : Node} (hn : n.unplaced = n'.unplaced)
    (hm : m.unplaced = m'.unplaced) : (n.append m).unplaced = (n'.append m').unplaced := by
  rw [Node.unplaced_append, Node.unplaced_append, hn, hm]

/-- The same token makes the same of what is pending. -/
theorem Like.take (h : p.Like p') {t t' : Token} (ht : t'.lexeme = t.lexeme) :
    List.Forall₂ (Piece.Like added) (p.take t).1 (p'.take t').1 ∧
      Agrees Pending.Like (p.take t).2 (p'.take t').2 := by
  have hdone : List.Forall₂ (Piece.Like added) p.complete p'.complete := h.complete
  unfold Pending.take
  rw [ht]
  cases hl : t.lexeme with
  | accidental a =>
    cases h with
    | accidental => exact ⟨.nil, .error _ _⟩
    | nothing => exact ⟨hdone, .ok (.accidental t t' a)⟩
    | durable _ _ hn => exact ⟨hdone, .ok (.accidental t t' a)⟩
  | note name =>
    cases h with
    | accidental u u' a => exact ⟨.nil, .ok (.durable _ _ rfl)⟩
    | nothing => exact ⟨hdone, .ok (.durable _ _ rfl)⟩
    | durable _ _ hn => exact ⟨hdone, .ok (.durable _ _ rfl)⟩
  | rest =>
    have hrest : (t.node (.rest t.text)).unplaced = (t'.node (.rest t'.text)).unplaced := by
      rw [Token.unplaced_node, Token.unplaced_node, Token.text, Token.text, ht]
    cases h with
    | accidental => exact ⟨.nil, .error _ _⟩
    | nothing => exact ⟨hdone, .ok (.durable _ _ hrest)⟩
    | durable _ _ hn => exact ⟨hdone, .ok (.durable _ _ hrest)⟩
  | octave marks =>
    cases h with
    | accidental => exact ⟨hdone, .error _ _⟩
    | nothing => exact ⟨hdone, .error _ _⟩
    | durable octaveDue lengthDue hn =>
      cases octaveDue with
      | false => exact ⟨hdone, .error _ _⟩
      | true => exact ⟨.nil, .ok (.durable _ _ (unplaced_append_eq hn rfl))⟩
  | length text =>
    cases h with
    | accidental => exact ⟨hdone, .error _ _⟩
    | nothing => exact ⟨hdone, .error _ _⟩
    | durable octaveDue lengthDue hn =>
      cases lengthDue with
      | false => cases octaveDue <;> exact ⟨hdone, .error _ _⟩
      | true => cases octaveDue <;> exact ⟨.nil, .ok (.durable _ _ (unplaced_append_eq hn rfl))⟩
  | _ => exact ⟨hdone, .error _ _⟩

end Pending

/-- Notes and rests are put together alike, and both until a fault or both without one. -/
theorem readDurables_like {p p' : Pending} {items items' : List Item} (hp : p.Like p')
    (hi : List.Forall₂ (Item.Like added) items items') :
    List.Forall₂ (Piece.Like added) (readDurables p items).pieces
        (readDurables p' items').pieces ∧
      Option.Rel (fun _ _ => True) (readDurables p items).fault (readDurables p' items').fault := by
  induction hi generalizing p p' with
  | nil => exact ⟨hp.complete, hp.fault⟩
  | @cons i i' rest rest' hii _ ih =>
    have hsame := hii.isMusic_eq
    by_cases hm : i.isMusic
    · rw [hm] at hsame
      cases hii with
      | chord => cases hm
      | lyrics => cases hm
      | @token t t' ht =>
        have hlexeme := ht.lexeme_eq (Lexeme.isFixed_of_isMusic hm)
        obtain ⟨hdone, hresult⟩ : List.Forall₂ (Piece.Like added) (p.take t).1 (p'.take t').1 ∧
            Agrees Pending.Like (p.take t).2 (p'.take t').2 := hp.take hlexeme
        generalize htake : p.take t = taken at hdone hresult
        generalize htake' : p'.take t' = taken' at hdone hresult
        obtain ⟨done, result⟩ := taken
        obtain ⟨done', result'⟩ := taken'
        cases hresult with
        | error e e' =>
          rw [readDurables_unexpected hm htake, readDurables_unexpected hsame htake']
          exact ⟨hdone, .some trivial⟩
        | ok hnext =>
          obtain ⟨hpieces, hfault⟩ := ih hnext
          rw [readDurables_music hm htake, readDurables_music hsame htake']
          exact ⟨List.rel_append hdone hpieces, hfault⟩
    · rw [Bool.not_eq_true] at hm
      rw [hm] at hsame
      have hmissing := hp.fault
      generalize hf : p.fault? = f at hmissing
      generalize hf' : p'.fault? = f' at hmissing
      cases hmissing with
      | some =>
        rw [readDurables_lone hm hf, readDurables_lone hsame hf']
        exact ⟨.nil, .some trivial⟩
      | none =>
        obtain ⟨hpieces, hfault⟩ := ih .nothing
        rw [readDurables_item hm hf, readDurables_item hsame hf']
        exact ⟨List.rel_append hp.complete (.cons (.item hii) hpieces), hfault⟩

/-! ## Chords and lines of lyrics -/

/-- The notes of chords are alike, or neither piece makes a chord. -/
theorem chordNotes_like {opening opening' : Token} {pieces pieces' : List Piece}
    (h : List.Forall₂ (Piece.Like added) pieces pieces') :
    Agrees (fun ns ms : List Node => ns.map Node.unplaced = ms.map Node.unplaced)
      (chordNotes opening pieces) (chordNotes opening' pieces') := by
  induction h with
  | nil => exact .ok rfl
  | cons hpiece _ ih =>
    cases hpiece with
    | item => exact .error _ _
    | @durable start start' n n' hn =>
      have hlabel : n'.label = n.label := by rw [← n'.label_unplaced, ← hn, n.label_unplaced]
      unfold chordNotes
      rw [hlabel]
      cases n.label with
      | note name =>
        refine ih.bind fun ns ms hns => .ok ?_
        rw [List.map_cons, List.map_cons, hn, hns]
      | _ => exact .error _ _

/-- Lexemes without anything that may differ are found in both tokens, or in neither. -/
theorem Token.Like.lexeme_eq_iff {t t' : Token} (h : t.Like t') {l : Lexeme} (hl : l.isFixed) :
    t'.lexeme = l ↔ t.lexeme = l := by
  constructor
  · intro heq
    rw [h.symm.lexeme_eq (by rw [heq, hl]), heq]
  · intro heq
    rw [h.lexeme_eq (by rw [heq, hl]), heq]

/-- The tokens of a chord are read alike. -/
theorem readChord_like {opening opening' : Token} {inside inside' : List Token}
    (h : List.Forall₂ Token.Like inside inside') :
    Agrees (fun n n' : Node => n.unplaced = n'.unplaced) (readChord opening inside)
      (readChord opening' inside') := by
  -- The last token closes the chord or does not.
  have hreverse := List.forall₂_reverse_iff.2 h
  rw [← inside.reverse_reverse, ← inside'.reverse_reverse]
  generalize inside.reverse = ts at hreverse ⊢
  generalize inside'.reverse = ts' at hreverse ⊢
  cases hreverse with
  | nil => exact .error _ _
  | @cons closing closing' ts ts' hclosing hts =>
    have hitems : List.Forall₂ (Item.Like False) (ts.reverse.map Item.token)
        (ts'.reverse.map Item.token) := by
      rw [List.forall₂_map_left_iff, List.forall₂_map_right_iff]
      exact (List.forall₂_reverse_iff.2 hts).imp fun _ _ => .token
    obtain ⟨hpieces, hfault⟩ := readDurables_like .nothing hitems
    unfold readChord
    rw [List.reverse_cons, List.reverse_cons, List.getLast?_concat, List.getLast?_concat,
      List.dropLast_concat, List.dropLast_concat]
    dsimp only
    have hend := hclosing.lexeme_eq_iff (l := .chordEnd) rfl
    generalize readDurables .nothing (ts.reverse.map Item.token) = reading at hpieces hfault ⊢
    generalize readDurables .nothing (ts'.reverse.map Item.token) = reading' at hpieces hfault ⊢
    obtain ⟨pieces, fault⟩ := reading
    obtain ⟨pieces', fault'⟩ := reading'
    by_cases hclosed : closing.lexeme = .chordEnd
    · rw [if_pos hclosed, if_pos (hend.2 hclosed)]
      refine (chordNotes_like hpieces).bind fun ns ms hns => ?_
      have hempty : ms.isEmpty = ns.isEmpty := by
        rw [← List.isEmpty_map (f := Node.unplaced), ← hns, List.isEmpty_map]
      dsimp only at hfault ⊢
      rw [hempty]
      cases hfault with
      | some => exact .error _ _
      | none =>
        dsimp only
        split_ifs
        · exact .error _ _
        · exact .ok (by rw [Node.unplaced_mk, Node.unplaced_mk, hns])
    · rw [if_neg hclosed, if_neg fun hclosed' => hclosed (hend.1 hclosed')]
      exact .error _ _

/-- The token of the lyrics that a lexeme is, if it is one. -/
def Lexeme.lyricToken? : Lexeme → Option LyricToken
  | lyric kind text => some ⟨kind, text⟩
  | newline => some ⟨.newline, ['\n']⟩
  | _ => none

/-- Lexemes that are plainly the same are tokens of the lyrics that are plainly the same. -/
theorem Lexeme.lyricToken?_plain (l : Lexeme) :
    l.plain.lyricToken? = l.lyricToken?.map LyricToken.plain := by
  cases l with
  | lyric kind text => cases kind <;> rfl
  | _ => rfl

/-- The tokens of the lyrics among tokens. -/
theorem map_ofNode_lyricNode (ts : List Token) :
    (ts.filterMap lyricNode?).map LyricToken.ofNode =
      ts.filterMap fun k => k.lexeme.lyricToken? := by
  rw [List.map_filterMap]
  congr 1
  funext k
  unfold lyricNode? Lexeme.lyricToken?
  cases hl : k.lexeme with
  | newline => simp [LyricToken.ofNode, Token.node, Node.label, Token.text, hl, Lexeme.text]
  | _ => rfl

/-- A token of the lyrics that ends the line. -/
theorem isLyricNewline_label (n : Node) :
    n.label.isLyricNewline = ((LyricToken.ofNode n).kind = .newline : Bool) := by
  unfold Label.isLyricNewline LyricToken.ofNode
  cases n.label with
  | lyric kind text => cases kind <;> rfl
  | _ => rfl

/-- Groups that are alike. -/
inductive Group.Like (added : Prop) : Group → Group → Prop
  | single {t t' : Token} (h : t.Like t') : Like added (.single t) (.single t')
  | chord {opening opening' : Token} {inside inside' : List Token}
      (h : List.Forall₂ Token.Like inside inside') :
      Like added (.chord opening inside) (.chord opening' inside')
  | lyrics {opening opening' : Token} {inside inside' : List Token}
      (h : Token.Spread added inside inside') :
      Like added (.lyrics opening inside) (.lyrics opening' inside')

/-- The tokens of a line of lyrics with its end, which is added when there is none. -/
theorem lyricTokens_readLyrics (opening : Token) (inside : List Token) :
    (readLyrics opening inside).lyricTokens =
      let ts := inside.filterMap fun k => k.lexeme.lyricToken?
      if ts.getLast?.any fun t => t.kind = .newline then ts else ts ++ [⟨.newline, ['\n']⟩] := by
  have hended : (((inside.filterMap lyricNode?).getLast?.map fun n => n.label.isLyricNewline).getD
      false) = ((inside.filterMap lyricNode?).map LyricToken.ofNode).getLast?.any
        fun t => t.kind = .newline := by
    rw [List.getLast?_map]
    cases (inside.filterMap lyricNode?).getLast? with
    | none => rfl
    | some n => exact isLyricNewline_label n
  have hchildren : (readLyrics opening inside).lyricTokens =
      (if ((inside.filterMap lyricNode?).getLast?.map fun n => n.label.isLyricNewline).getD false
        then inside.filterMap lyricNode?
        else inside.filterMap lyricNode? ++ [.unread (.lyric .newline ['\n']) []]).map
          LyricToken.ofNode := rfl
  rw [hchildren, hended, apply_ite (List.map LyricToken.ofNode), List.map_append,
    map_ofNode_lyricNode]
  rfl

/-- Lines of lyrics are read alike, but for spaces at their ends. -/
theorem readLyrics_like {opening opening' : Token} {inside inside' : List Token}
    (h : Token.Spread added inside inside') :
    (readLyrics opening inside).Like added (readLyrics opening' inside') := by
  have hrel (k k' : Token) (hk : k.Like k') : Option.Rel
      (fun t t' : LyricToken => t.plain = t'.plain) k.lexeme.lyricToken? k'.lexeme.lyricToken? := by
    have hplain := congrArg Lexeme.lyricToken? hk.1
    rw [Lexeme.lyricToken?_plain, Lexeme.lyricToken?_plain] at hplain
    generalize k.lexeme.lyricToken? = x at hplain
    generalize k'.lexeme.lyricToken? = y at hplain
    cases x with
    | none =>
      cases y with
      | none => exact .none
      | some t' => cases hplain
    | some t =>
      cases y with
      | none => cases hplain
      | some t' => exact .some (Option.some.inj hplain)
  have hspace (k : Token) (hk : k.isLyricSpace) :
      ∃ t, k.lexeme.lyricToken? = some t ∧ (t.kind = .space : Bool) := by
    unfold Token.isLyricSpace at hk
    split at hk
    next text hl => exact ⟨⟨.space, text⟩, by rw [hl]; rfl, rfl⟩
    next => cases hk
  have hend (k : Token) (hk : k.endsLyrics) :
      ∃ t, k.lexeme.lyricToken? = some t ∧ (t.kind = .newline : Bool) := by
    rw [Token.endsLyrics, Bool.and_eq_true, decide_eq_true_eq, decide_eq_true_eq] at hk
    exact ⟨⟨.newline, ['\n']⟩, by rw [hk.2]; rfl, rfl⟩
  have htokens : LyricToken.Spread added (inside.filterMap fun k => k.lexeme.lyricToken?)
      (inside'.filterMap fun k => k.lexeme.lyricToken?) := h.filterMap hrel hspace hend
  refine ⟨rfl, rfl, ?_⟩
  rw [lyricTokens_readLyrics, lyricTokens_readLyrics]
  dsimp only
  rw [htokens.getLast?_any fun t t' ht => by rw [← t.kind_plain, ht, t'.kind_plain]]
  split_ifs
  · exact htokens
  · exact htokens.append (.cons rfl .nil)

/-- Groups that are alike are read alike. -/
theorem Group.Like.read {g g' : Group} (h : g.Like added g') :
    Agrees (Item.Like added) g.read g'.read := by
  cases h with
  | single h => exact .ok (.token h)
  | chord h => exact (readChord_like h).bind fun n n' hn => .ok (.chord hn)
  | lyrics h => exact .ok (.lyrics (readLyrics_like h))

/-- A space in a line of lyrics is inside the line. -/
theorem Token.inner_of_isLyricSpace {k : Token} (h : k.isLyricSpace) : k.Inner := by
  unfold isLyricSpace at h
  split at h
  next hl =>
    rw [Inner, hl]
    exact ⟨.inr (of_decide_eq_true h), by simp, by simp⟩
  next => cases h

/-- The end of a line of lyrics is inside the line. -/
theorem Token.inner_of_endsLyrics {k : Token} (h : k.endsLyrics) : k.Inner := by
  rw [endsLyrics, Bool.and_eq_true, decide_eq_true_eq, decide_eq_true_eq] at h
  rw [Inner, h.2]
  exact ⟨.inr h.1, by simp, by simp⟩

/-- A token inside a chord does not end lyrics. -/
theorem Token.endsLyrics_of_inChord {k : Token} (h : k.inChord) : k.endsLyrics = false := by
  rw [inChord, Bool.and_eq_true, decide_eq_true_eq] at h
  rw [endsLyrics, h.1]
  rfl

/-- The groups of tokens are alike, and so are the tokens at the front that belong to a group
opened before them. -/
theorem groupFrom_like {ts ts' : List Token} (h : Token.Spread added ts ts')
    (hchain : ts.IsChain Token.Nested) (ht : ∀ k ∈ ts, k.Taken) :
    Token.Spread added (groupFrom ts).1 (groupFrom ts').1 ∧
      List.Forall₂ (Group.Like added) (groupFrom ts).2 (groupFrom ts').2 := by
  induction h with
  | nil => exact ⟨.nil, .nil⟩
  | @cons k k' rest rest' hk h ih =>
    obtain ⟨htaken, hrest⟩ := List.forall_mem_cons.1 ht
    obtain ⟨hnested, htail⟩ := List.isChain_cons.1 hchain
    obtain ⟨hinside, hgroups⟩ := ih htail hrest
    have hinner : k'.Inner ↔ k.Inner := by
      rw [Token.Inner, Token.Inner, ne_eq, ne_eq, hk.lexeme_eq_iff rfl, hk.lexeme_eq_iff rfl, hk.2]
    rcases groupFrom_cons k rest with ⟨hl, heq⟩ | ⟨hl, heq⟩ | ⟨hin, heq⟩ | ⟨hc, hly, heq⟩
    · have heq' : groupFrom (k' :: rest') =
          ([], .chord k' (groupFrom rest').1 :: (groupFrom rest').2) := by
        rw [groupFrom, (hk.lexeme_eq_iff rfl).2 hl]
      -- All tokens inside belong to the chord, where no spaces are added.
      have hchord : (groupFrom rest).1 = rest.takeWhile Token.inChord :=
        groupFrom_inChord htail hrest fun k₁ hk₁ hin => (hnested k₁ hk₁ hin).trans (htaken.chord hl)
      have hnoEnd : ∀ k₁ ∈ (groupFrom rest).1, k₁.endsLyrics = false := fun k₁ hk₁ =>
        Token.endsLyrics_of_inChord (List.mem_takeWhile_imp (hchord ▸ hk₁))
      rw [heq, heq']
      exact ⟨.nil, .cons (.chord (hinside.forall₂ hnoEnd)) hgroups⟩
    · have heq' : groupFrom (k' :: rest') =
          ([], .lyrics k' (groupFrom rest').1 :: (groupFrom rest').2) := by
        rw [groupFrom, (hk.lexeme_eq_iff rfl).2 hl]
      rw [heq, heq']
      exact ⟨.nil, .cons (.lyrics hinside) hgroups⟩
    · rw [heq, groupFrom_cons_inner (hinner.2 hin)]
      exact ⟨.cons hk hinside, hgroups⟩
    · have heq' : groupFrom (k' :: rest') = ([], .single k' :: (groupFrom rest').2) :=
        groupFrom_cons_single (fun hl => hc (htaken.chord ((hk.lexeme_eq_iff rfl).1 hl)))
          (fun hl => hly (htaken.lyrics ((hk.lexeme_eq_iff rfl).1 hl))) (hk.2 ▸ hc) (hk.2 ▸ hly) rest'
      rw [heq, heq']
      exact ⟨.nil, .cons (.single hk) hgroups⟩
  | @space k' ts ts' hadded hspace hend h ih =>
    obtain ⟨hinside, hgroups⟩ := ih hchain ht
    rw [groupFrom_cons_inner (Token.inner_of_isLyricSpace hspace)]
    refine ⟨.space hadded hspace ?_ hinside, hgroups⟩
    -- The end of the line belongs to the same lyrics.
    cases ts with
    | nil => cases hend
    | cons k rest =>
      rw [List.head?_cons, Option.any_some] at hend
      rw [groupFrom_cons_inner (Token.inner_of_endsLyrics hend)]
      exact hend

/-! ## The body -/

/-- Tuplets that have been begun and are alike. -/
structure OpenTuplet.Like (t t' : OpenTuplet) : Prop where
  size : t.size = t'.size
  members : t.members.map Node.unplaced = t'.members.map Node.unplaced

/-- Bodies that have been read so far and are alike. -/
structure Draft.Like (added : Prop) (d d' : Draft) : Prop where
  nodes : List.Forall₂ (Node.Like added) d.nodes d'.nodes
  line : d.line.map Node.shape = d'.line.map Node.shape
  tuplet : Option.Rel OpenTuplet.Like d.tuplet d'.tuplet

/-- Lists whose entries agree in something have the same length. -/
theorem length_of_map_eq {α β : Type} {f : α → β} {as bs : List α} (h : as.map f = bs.map f) :
    as.length = bs.length := by
  rw [← as.length_map (f := f), h, bs.length_map]

/-- One more entry at the end of lists that agree in something. -/
theorem map_concat_eq {α β : Type} {f : α → β} {as bs : List α} {a b : α}
    (h : as.map f = bs.map f) (hab : f a = f b) : (as ++ [a]).map f = (bs ++ [b]).map f := by
  rw [List.map_append, List.map_append, List.map_singleton, List.map_singleton, h, hab]

namespace Draft

variable {d d' : Draft}

/-- The empty bodies are alike. -/
theorem like_empty : Draft.empty.Like added Draft.empty :=
  ⟨.nil, rfl, .none⟩

/-- A note, rest or chord is added to bodies that are alike. -/
theorem Like.add (h : d.Like added d') {n n' : Node} (hn : n.unplaced = n'.unplaced)
    (start start' : Nat) : Agrees (Draft.Like added) (d.add start n) (d'.add start' n') := by
  obtain ⟨nodes, line, tuplet⟩ := d
  obtain ⟨nodes', line', tuplet'⟩ := d'
  obtain ⟨hnodes, hline, htuplet⟩ := h
  unfold Draft.add
  cases htuplet with
  | none => exact .ok ⟨hnodes, map_concat_eq hline (Node.shape_of_unplaced hn), .none⟩
  | @some t t' ht =>
    obtain ⟨mark, size, members⟩ := t
    obtain ⟨mark', size', members'⟩ := t'
    obtain ⟨hsize, hms⟩ := ht
    have hlabel : n'.label = n.label := by rw [← n'.label_unplaced, ← hn, n.label_unplaced]
    have hmembers := map_concat_eq hms hn
    dsimp only at hsize hmembers ⊢
    rw [hlabel, ← hsize, ← length_of_map_eq hmembers]
    split_ifs
    · refine .ok ⟨hnodes, map_concat_eq hline (Node.shape_of_unplaced ?_), .none⟩
      rw [Node.unplaced_mk, Node.unplaced_mk, hmembers]
    · exact .ok ⟨hnodes, hline, .some ⟨rfl, hmembers⟩⟩
    · exact .error _ _

/-- A tuplet is incomplete in both bodies or in neither. -/
theorem Like.checkTuplet (h : d.Like added d') :
    Agrees (fun _ _ => True) d.checkTuplet d'.checkTuplet := by
  obtain ⟨nodes, line, tuplet⟩ := d
  obtain ⟨nodes', line', tuplet'⟩ := d'
  obtain ⟨-, -, htuplet⟩ := h
  cases htuplet with
  | none => exact .ok trivial
  | some => exact .error _ _

/-- The lines end with elements of the same shape. -/
theorem Like.endLine (h : d.Like added d') {n n' : Node} (hn : n.shape = n'.shape) :
    (d.endLine n).Like added (d'.endLine n') := by
  have hempty : d'.line.isEmpty = d.line.isEmpty := by
    rw [← List.isEmpty_map (f := Node.shape), ← h.line, List.isEmpty_map]
  unfold Draft.endLine
  rw [hempty]
  split_ifs
  · exact h
  · exact ⟨List.rel_append h.nodes
      (.cons ⟨rfl, Node.unplaced_of_shape (map_concat_eq h.line hn), .nil⟩ .nil), rfl, h.tuplet⟩

/-- A lexeme that is the same in both tokens is added to bodies that are alike. -/
theorem Like.addFixed (h : d.Like added d') {t t' : Token} (hfixed : t.lexeme.isFixed)
    (hl : t'.lexeme = t.lexeme) : Agrees (Draft.Like added) (d.addToken t) (d'.addToken t') := by
  have hnode {label label' : Label} (heq : label = label') :
      (t.node label).shape = (t'.node label').shape :=
    Node.shape_of_unplaced (by rw [Token.unplaced_node, Token.unplaced_node, heq])
  unfold Draft.addToken
  rw [hl]
  cases hlexeme : t.lexeme with
  | newline =>
    -- Both lines end, or both have an incomplete tuplet.
    have htext : t.text = t'.text := by rw [Token.text, Token.text, hl]
    exact h.checkTuplet.bind fun _ _ _ => .ok (h.endLine (hnode (congrArg Label.endOfLine htext)))
  | bar b =>
    -- Both lines get the bar, or both have an incomplete tuplet.
    exact h.checkTuplet.bind fun _ _ _ =>
      .ok ⟨h.nodes, map_concat_eq h.line (hnode rfl), h.tuplet⟩
  | tuplet size =>
    -- A tuplet is begun in both bodies unless one is open in both.
    have htuplet := h.tuplet
    generalize d.tuplet = o at htuplet
    generalize d'.tuplet = o' at htuplet
    cases htuplet with
    | some => exact .error _ _
    | none => exact .ok ⟨h.nodes, h.line, .some ⟨rfl, rfl⟩⟩
  | comment | voiceField =>
    -- These have a text that may change.
    rw [hlexeme] at hfixed
    cases hfixed
  | _ => exact .error _ _

/-- A token that is no part of a note or rest is added to bodies that are alike. -/
theorem Like.addToken (h : d.Like added d') {t t' : Token} (ht : t.Like t') :
    Agrees (Draft.Like added) (d.addToken t) (d'.addToken t') := by
  rcases Lexeme.plain_cases ht.1 with ⟨hfixed, hl⟩ |
    ⟨x, y, ⟨hx, hy⟩ | ⟨hxy, ⟨hx, hy⟩ | ⟨hx, hy⟩ | ⟨hx, hy⟩⟩ | ⟨hx, hy⟩⟩
  · exact h.addFixed hfixed hl
  · -- A comment stands on the line, or between the lines when the line is empty.
    have hempty : d'.line.isEmpty = d.line.isEmpty := by
      rw [← List.isEmpty_map (f := Node.shape), ← h.line, List.isEmpty_map]
    unfold Draft.addToken
    rw [hx, hy]
    dsimp only
    rw [hempty]
    split_ifs
    · exact .ok ⟨List.rel_append h.nodes (.cons ⟨rfl, rfl, .nil⟩ .nil), h.line, h.tuplet⟩
    · exact .ok ⟨h.nodes, map_concat_eq h.line rfl, h.tuplet⟩
  -- The key and the other fields of the header are errors in both bodies.
  · unfold Draft.addToken
    rw [hx, hy]
    exact .error _ _
  · unfold Draft.addToken
    rw [hx, hy]
    exact .error _ _
  · -- A voice field has the same name in both.
    have hlabel : Label.plain (.voiceField (Text.trimEnd x)) =
        Label.plain (.voiceField (Text.trimEnd y)) := by rw [hxy]
    unfold Draft.addToken
    rw [hx, hy]
    exact .ok ⟨List.rel_append h.nodes (.cons ⟨hlabel, rfl, .nil⟩ .nil), h.line, h.tuplet⟩
  · -- A blank of a line of lyrics is an error in both bodies.
    unfold Draft.addToken
    rw [hx, hy]
    exact .error _ _

/-- A piece is added to bodies that are alike. -/
theorem Like.addPiece (h : d.Like added d') {p p' : Piece} (hp : p.Like added p') :
    Agrees (Draft.Like added) (d.addPiece p) (d'.addPiece p') := by
  cases hp with
  | durable hn => exact h.add hn _ _
  | item hi =>
    cases hi with
    | token ht => exact h.addToken ht
    | chord hn => exact h.add hn _ _
    | lyrics hn => exact .ok ⟨List.rel_append h.nodes (.cons hn .nil), h.line, h.tuplet⟩

end Draft

/-- Bodies with nodes that are alike. -/
def Node.BodyLike (added : Prop) (body body' : Node) : Prop :=
  ∃ ns ns', body = .unread .body ns ∧ body' = .unread .body ns' ∧
    List.Forall₂ (Node.Like added) ns ns'

/-- Bodies are read alike. -/
theorem readBody_like {items items' : List Item} (h : List.Forall₂ (Item.Like added) items items') :
    Agrees (Node.BodyLike added) (readBody items) (readBody items') := by
  obtain ⟨hpieces, hfault⟩ := readDurables_like .nothing h
  unfold readBody
  dsimp only
  generalize readDurables .nothing items = reading at hpieces hfault ⊢
  generalize readDurables .nothing items' = reading' at hpieces hfault ⊢
  obtain ⟨pieces, fault⟩ := reading
  obtain ⟨pieces', fault'⟩ := reading'
  refine (Agrees.foldlM hpieces Draft.like_empty fun d d' hd p p' hp => hd.addPiece hp).bind
    fun d d' hd => ?_
  cases hfault with
  | some => exact .error _ _
  | none =>
    exact hd.checkTuplet.bind fun _ _ _ => .ok ⟨_, _, rfl, rfl, (hd.endLine rfl).nodes⟩

/-! ## The header and the whole tune -/

/-- Tokens of the header that are alike are read with the same label, but for the text of a
comment. -/
theorem headerNode_like {t t' : Token} (h : t.Like t') :
    Agrees (fun n n' => n.label.plain = n'.label.plain) (headerNode t) (headerNode t') := by
  unfold headerNode
  rcases Lexeme.plain_cases h.1 with ⟨hfixed, hl⟩ |
    ⟨x, y, ⟨hx, hy⟩ | ⟨hxy, ⟨hx, hy⟩ | ⟨hx, hy⟩ | ⟨hx, hy⟩⟩ | ⟨hx, hy⟩⟩
  · rw [hl]
    cases hlexeme : t.lexeme with
    | keyField | field | comment =>
      rw [hlexeme] at hfixed
      cases hfixed
    | _ => exact .error _ _
  · rw [hx, hy]
    exact .ok rfl
  · rw [hx, hy]
    exact .ok (congrArg (fun text => Label.plain (.keyField text)) hxy)
  · rw [hx, hy]
    exact .ok (congrArg (fun text => Label.plain (.field text)) hxy)
  · rw [hx, hy]
    exact .error _ _
  · rw [hx, hy]
    exact .error _ _

/-- Documents with header fields and bodies that are alike. -/
def Node.DocumentLike (added : Prop) (document document' : Node) : Prop :=
  ∃ fields fields' bodies bodies', document = .unread .document (.unread .header fields :: bodies) ∧
    document' = .unread .document (.unread .header fields' :: bodies') ∧
    List.Forall₂ (fun n n' : Node => n.label.plain = n'.label.plain) fields fields' ∧
    List.Forall₂ (Node.BodyLike added) bodies bodies'

/-- Tunes with tokens that are alike are read alike. -/
theorem readTune_like {source source' : Text}
    (h : Token.Spread added (tokens source) (tokens source')) :
    Agrees (Node.DocumentLike added) (readTune source) (readTune source') := by
  have hspace (t : Token) (ht : t.isLyricSpace) : decide (t.region = .header) = false := by
    unfold Token.isLyricSpace at ht
    split at ht
    next => rw [of_decide_eq_true ht]; rfl
    next => cases ht
  have hend (t : Token) (ht : t.endsLyrics) : decide (t.region = .header) = false := by
    rw [Token.endsLyrics, Bool.and_eq_true, decide_eq_true_eq] at ht
    rw [ht.1]
    rfl
  obtain ⟨hheader, hbody⟩ := h.takeWhile_dropWhile (q := fun t => t.region = .header)
    (fun t t' ht => by rw [ht.2]) hspace hend
  have hsuffix := List.dropWhile_suffix (l := tokens source) fun t : Token => t.region = .header
  have hgroups := (groupFrom_like hbody ((tokensFrom_nested .header 0 source).1.suffix hsuffix)
    fun k hk => tokensFrom_taken .header 0 source k (hsuffix.subset hk)).2
  unfold readTune
  rw [List.span_eq_takeWhile_dropWhile, List.span_eq_takeWhile_dropWhile]
  dsimp only
  generalize (tokens source).takeWhile _ = header at *
  generalize (tokens source').takeWhile _ = header' at *
  generalize (tokens source).dropWhile _ = body at *
  generalize (tokens source').dropWhile _ = body' at *
  have hfields {bodies bodies' : List Node}
      (hbodies : List.Forall₂ (Node.BodyLike added) bodies bodies') :
      Agrees (Node.DocumentLike added)
        (header.mapM headerNode >>= fun fields =>
          pure (.unread .document (.unread .header fields :: bodies)))
        (header'.mapM headerNode >>= fun fields =>
          pure (.unread .document (.unread .header fields :: bodies'))) :=
    (Agrees.mapM hheader fun t t' ht => headerNode_like ht).bind fun fields fields' hfields =>
      .ok ⟨fields, fields', bodies, bodies', rfl, rfl, hfields, hbodies⟩
  refine (Agrees.mapM hgroups fun g g' hg => hg.read).bind fun items items' hitems => ?_
  rw [← hbody.isEmpty_eq]
  split_ifs
  · exact hfields .nil
  · exact ((readBody_like hitems).map fun b b' hb => List.Forall₂.cons hb .nil).bind
      fun bodies bodies' hbodies => hfields hbodies

end

end SingAlong
