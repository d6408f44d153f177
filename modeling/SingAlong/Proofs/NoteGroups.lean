import SingAlong.Proofs.Acceptance
import SingAlong.Proofs.Atoms

/-!
# The groups that notes and rests are put together from

The parts of notes and rests stand among other items. Putting them together succeeds exactly when
the parts between two other items are groups, each a note or a rest with its parts in order
(`AreGroups`). Then each group becomes one note or rest that has the parts as its children, and each
other item stays in its place. Otherwise the fault is at a part of the first run that does not
consist of groups (`readDurables_groups`).

Nothing goes on with a group but its own tokens (`readDurables_group`), and another item ends what
is pending, so that the items on both sides of it are put together apart from each other
(`readDurables_fault_append`). A run alone has no fault when its lexemes satisfy the grammar
(`readDurables_tokens_iff`), and tokens with such lexemes are groups (`areGroups_tokens_iff`).
-/

namespace SingAlong

/-! ## Groups -/

/-- A sign of the music: what it says, and where it stands. -/
structure Sign (α : Type) where
  pos : Nat
  region : Region
  value : α

/-- The token of a sign, which is written as a lexeme. -/
def Sign.token {α : Type} (s : Sign α) (lexeme : α → Lexeme) : Token :=
  ⟨s.pos, lexeme s.value, s.region⟩

/-- A note or rest, by the signs of its parts. -/
inductive DurableGroup where
  | note (accidental : Option (Sign Accidental)) (name : Sign NoteName)
    (octaves : Option (Sign (List OctaveMark))) (length : Option (Sign Text))
  | rest (mark : Sign Unit) (length : Option (Sign Text))

namespace DurableGroup

/-- The tokens of a group, in order. -/
def tokens : DurableGroup → List Token
  | note accidental name octaves length =>
    (accidental.map (Sign.token · .accidental)).toList ++
      name.token .note :: ((octaves.map (Sign.token · .octave)).toList ++
        (length.map (Sign.token · .length)).toList)
  | rest mark length =>
    mark.token (fun _ => .rest) :: (length.map (Sign.token · .length)).toList

/-- Where a group starts. -/
def start : DurableGroup → Nat
  | note accidental name _ _ => (accidental.map Sign.pos).getD name.pos
  | rest mark _ => mark.pos

/-- The note or rest that a group becomes: its head is the letter or the mark of the rest, and the
other parts are its children. -/
def node : DurableGroup → Node
  | note accidental name octaves length =>
    .mk (.note name.value) (some (name.token .note).span) none
      ((accidental.map fun s => (s.token .accidental).node (.accidental s.value)).toList ++
        ((octaves.map fun s => (s.token .octave).node (.octave s.value)).toList ++
          (length.map fun s => (s.token .length).node (.length s.value)).toList))
  | rest mark length =>
    .mk (.rest ['z']) (some (mark.token fun _ => .rest).span) none
      (length.map fun s => (s.token .length).node (.length s.value)).toList

/-- The items of a group. -/
def items (g : DurableGroup) : List Item :=
  g.tokens.map .token

end DurableGroup

/-- The items are those of groups, one after the other. -/
def AreGroups (run : List Item) : Prop :=
  ∃ groups : List DurableGroup, run = groups.flatMap DurableGroup.items

/-- A group, or an item that is part of none. -/
inductive Portion where
  | group (g : DurableGroup)
  | other (i : Item) (h : i.isMusic = false)

/-- The items of a portion. -/
def Portion.items : Portion → List Item
  | group g => g.items
  | other i _ => [i]

/-- What a portion is read as. -/
def Portion.piece : Portion → Piece
  | group g => .durable g.start g.node
  | other i _ => .item i

/-- The maximal runs of parts of notes and rests, between other items. -/
def musicRuns (items : List Item) : List (List Item) :=
  items.splitOnP fun i => !i.isMusic

/-- The position is that of a token of the first run that does not consist of groups. -/
def InFirstUngrouped (runs : List (List Item)) (pos : Nat) : Prop :=
  ∃ front run after, runs = front ++ run :: after ∧ (∀ r ∈ front, AreGroups r) ∧
    ¬AreGroups run ∧ ∃ t, .token t ∈ run ∧ t.pos = pos

/-! ## Groups and their lexemes -/

/-- A token with a lexeme is that of a sign. -/
theorem Token.exists_sign {α : Type} {t : Token} {lexeme : α → Lexeme} {a : α}
    (h : t.lexeme = lexeme a) : ∃ s : Sign α, s.token lexeme = t := by
  obtain ⟨pos, l, region⟩ := t
  cases h
  exact ⟨⟨pos, region, a⟩, rfl⟩

/-- A part that may be missing is there as the sign of a token, or not at all. -/
theorem exists_sign_of_toList {α : Type} {ts : List Token} {lexeme : α → Lexeme} {a : Option α}
    (h : ts.map Token.lexeme = (a.map lexeme).toList) :
    ∃ s : Option (Sign α), (s.map (Sign.token · lexeme)).toList = ts := by
  cases a with
  | none => exact ⟨none, (List.map_eq_nil_iff.1 h).symm⟩
  | some a =>
    obtain ⟨t, ts, rfl, ht, hts⟩ := List.map_eq_cons_iff.1 h
    obtain rfl := List.map_eq_nil_iff.1 hts
    obtain ⟨s, rfl⟩ := Token.exists_sign ht
    exact ⟨some s, rfl⟩

/-- Tokens with the lexemes of a note or rest are a group. -/
theorem exists_group {ts : List Token} {d : Durable} (h : ts.map Token.lexeme = d.lexemes) :
    ∃ g : DurableGroup, g.tokens = ts := by
  cases d with
  | note accidental name octaves length =>
    obtain ⟨front, rest, rfl, hfront, hrest⟩ := List.map_eq_append_iff.1 h
    obtain ⟨t, rest, rfl, ht, hrest⟩ := List.map_eq_cons_iff.1 hrest
    obtain ⟨marks, back, rfl, hmarks, hback⟩ := List.map_eq_append_iff.1 hrest
    obtain ⟨a, rfl⟩ := exists_sign_of_toList hfront
    obtain ⟨n, rfl⟩ := Token.exists_sign ht
    obtain ⟨o, rfl⟩ := exists_sign_of_toList hmarks
    obtain ⟨l, rfl⟩ := exists_sign_of_toList hback
    exact ⟨.note a n o l, rfl⟩
  | rest length =>
    obtain ⟨⟨pos, l, region⟩, back, rfl, ht, hback⟩ := List.map_eq_cons_iff.1 h
    obtain rfl : l = .rest := ht
    obtain ⟨l, rfl⟩ := exists_sign_of_toList hback
    exact ⟨.rest ⟨pos, region, ()⟩ l, rfl⟩

/-- The lexemes of a group are those of a note or rest. -/
theorem DurableGroup.exists_durable (g : DurableGroup) :
    ∃ d : Durable, g.tokens.map Token.lexeme = d.lexemes := by
  cases g with
  | note accidental name octaves length =>
    refine ⟨.note (accidental.map Sign.value) name.value (octaves.map Sign.value)
      (length.map Sign.value), ?_⟩
    cases accidental <;> cases octaves <;> cases length <;> rfl
  | rest mark length =>
    refine ⟨.rest (length.map Sign.value), ?_⟩
    cases length <;> rfl

/-- Tokens are those of groups exactly when their lexemes are those of notes and rests. -/
theorem areGroups_tokens_iff {ts : List Token} :
    AreGroups (ts.map .token) ↔ AreDurables (ts.map Token.lexeme) := by
  constructor
  · rintro ⟨groups, hgroups⟩
    induction groups generalizing ts with
    | nil =>
      obtain rfl := List.map_eq_nil_iff.1 hgroups
      exact AreDurables.nil
    | cons g groups ih =>
      obtain ⟨front, back, rfl, hfront, hback⟩ := List.map_eq_append_iff.1 hgroups
      obtain rfl := List.map_injective_iff.2 (fun _ _ => Item.token.inj) hfront
      obtain ⟨d, hd⟩ := g.exists_durable
      obtain ⟨ds, hds⟩ := ih hback
      exact ⟨d :: ds, by rw [List.map_append, hd, hds, List.flatMap_cons]⟩
  · rintro ⟨ds, hds⟩
    induction ds generalizing ts with
    | nil =>
      obtain rfl := List.map_eq_nil_iff.1 hds
      exact ⟨[], rfl⟩
    | cons d ds ih =>
      obtain ⟨front, back, rfl, hfront, hback⟩ := List.map_eq_append_iff.1 hds
      obtain ⟨g, rfl⟩ := exists_group hfront
      obtain ⟨groups, hgroups⟩ := ih hback
      exact ⟨g :: groups, by rw [List.map_append, hgroups]; rfl⟩

/-! ## A run -/

section Run

variable {run : List Item}

/-- A run of parts of notes and rests is a run of tokens. -/
theorem exists_tokens_of_isMusic (hrun : ∀ i ∈ run, i.isMusic) :
    ∃ ts : List Token, run = ts.map .token := by
  induction run with
  | nil => exact ⟨[], rfl⟩
  | cons i run ih =>
    obtain ⟨hi, hrest⟩ := List.forall_mem_cons.1 hrun
    obtain ⟨t, rfl⟩ := Item.exists_token hi
    obtain ⟨ts, rfl⟩ := ih hrest
    exact ⟨t :: ts, rfl⟩

/-- A run alone is put together without a fault exactly when it consists of groups. -/
theorem readDurables_run_iff (hrun : ∀ i ∈ run, i.isMusic) :
    (readDurables .nothing run).fault = none ↔ AreGroups run := by
  obtain ⟨ts, rfl⟩ := exists_tokens_of_isMusic hrun
  rw [areGroups_tokens_iff]
  exact readDurables_tokens_iff (List.forall_mem_map.2 (List.forall_mem_map.1 hrun))

/-- The fault of a run alone is at one of its tokens. -/
theorem readDurables_run_located (hrun : ∀ i ∈ run, i.isMusic) :
    ∀ e ∈ (readDurables .nothing run).fault, ∃ t, .token t ∈ run ∧ t.pos = e.pos := by
  let P pos := ∃ t, Item.token t ∈ run ∧ t.pos = pos
  have hnothing : Pending.nothing.Within P := trivial
  refine (readDurables_located hnothing fun i hi => ?_).2
  obtain ⟨t, rfl⟩ := Item.exists_token (hrun i hi)
  exact ⟨t, hi, rfl⟩

end Run

/-! ## Runs and other items -/

section Other

variable {o : Item}

/-- Another item ends what is pending: what comes after it is put together from nothing on. -/
theorem readDurables_fault_append (ho : o.isMusic = false) (p : Pending) (items rest : List Item) :
    (readDurables p (items ++ o :: rest)).fault =
      (readDurables p items).fault.or (readDurables .nothing rest).fault := by
  induction items generalizing p with
  | nil =>
    rw [List.nil_append, readDurables]
    cases hp : p.fault? with
    | some e => rw [readDurables_lone ho hp]; rfl
    | none => rw [readDurables_item ho hp]; rfl
  | cons i items ih =>
    rw [List.cons_append]
    by_cases hm : i.isMusic
    · obtain ⟨t, rfl⟩ := Item.exists_token hm
      rcases htake : p.take t with ⟨done, e | p'⟩
      · rw [readDurables_unexpected hm htake, readDurables_unexpected hm htake]
        rfl
      · rw [readDurables_music hm htake, readDurables_music hm htake]
        exact ih p'
    · rw [Bool.not_eq_true] at hm
      cases hp : p.fault? with
      | some e => rw [readDurables_lone hm hp, readDurables_lone hm hp]; rfl
      | none =>
        rw [readDurables_item hm hp, readDurables_item hm hp]
        exact ih .nothing

/-- To prove something of all items, prove it of a run, and of a run before another item. -/
theorem runs_induction {motive : List Item → Prop}
    (run : ∀ run : List Item, (∀ i ∈ run, i.isMusic) → motive run)
    (other : ∀ (run : List Item) (o : Item) (rest : List Item), (∀ i ∈ run, i.isMusic) →
      o.isMusic = false → motive rest → motive (run ++ o :: rest))
    (items : List Item) : motive items := by
  -- The induction is on the items that come after the first run.
  induction hn : items.length using Nat.strong_induction_on generalizing items with
  | _ n ih =>
    rw [← List.takeWhile_append_dropWhile (p := Item.isMusic) (l := items)]
    have hrun : ∀ i ∈ items.takeWhile Item.isMusic, i.isMusic := fun i => List.mem_takeWhile_imp
    cases hrest : items.dropWhile Item.isMusic with
    | nil =>
      rw [List.append_nil]
      exact run _ hrun
    | cons o rest =>
      have ho : o.isMusic = false := by
        simpa [hrest] using List.head?_dropWhile_not Item.isMusic items
      have hshorter : rest.length < n := by
        have hle := (List.dropWhile_suffix Item.isMusic (l := items)).length_le
        rw [hrest, List.length_cons] at hle
        omega
      exact other _ o rest hrun ho (ih _ hshorter rest rfl)

/-- Parts of notes and rests alone are one run. -/
theorem musicRuns_run {run : List Item} (hrun : ∀ i ∈ run, i.isMusic) : musicRuns run = [run] :=
  List.splitOnP_eq_singleton fun i hi => by simp [hrun i hi]

/-- Another item ends the first run. -/
theorem musicRuns_append {run : List Item} (hrun : ∀ i ∈ run, i.isMusic) (ho : o.isMusic = false)
    (rest : List Item) : musicRuns (run ++ o :: rest) = run :: musicRuns rest := by
  have hsplit : musicRuns (run ++ o :: rest) = musicRuns run ++ musicRuns rest :=
    List.splitOnP_append_cons run rest (by rw [ho]; rfl)
  rw [hsplit, musicRuns_run hrun]
  rfl

end Other

/-! ## What groups are read as -/

/-- What is pending after the tokens of a group: octave marks can still come before a length, and a
length when there is none. -/
def DurableGroup.pending : DurableGroup → Pending
  | note a n o l =>
    .durable (note a n o l).start (note a n o l).node (o.isNone && l.isNone) l.isNone
  | rest m l => .durable (rest m l).start (rest m l).node false l.isNone

/-- The tokens of a group are taken one after the other. -/
theorem readDurables_items (g : DurableGroup) (rest : List Item) :
    readDurables .nothing (g.items ++ rest) = readDurables g.pending rest := by
  -- Which parts there are decides which of them are waited for.
  cases g with
  | note a n o l => cases a <;> cases o <;> cases l <;> rfl
  | rest m l => cases l <;> rfl

/-- The tokens of a group are put together to its note or rest. -/
theorem readDurables_group (g : DurableGroup) {rest : List Item} (hrest : Fresh rest) :
    readDurables .nothing (g.items ++ rest) =
      .cons (.durable g.start g.node) (readDurables .nothing rest) := by
  rw [readDurables_items]
  cases g with
  | note | rest => exact readDurables_fresh rfl hrest

/-- A group or another item does not go on with a note or rest. -/
theorem fresh_portions (portions : List Portion) : Fresh (portions.flatMap Portion.items) := by
  cases portions with
  | nil => exact nofun
  | cons portion portions =>
    rw [List.flatMap_cons]
    rintro i hi
    cases portion with
    | other o ho =>
      obtain rfl := Option.some.inj hi
      exact Item.goesOn_of_not_isMusic ho
    | group g =>
      cases g with
      | note a n o l => cases a <;> (obtain rfl := Option.some.inj hi; rfl)
      | rest m l => obtain rfl := Option.some.inj hi; rfl

/-- Groups and other items are read one by one. -/
theorem readDurables_portions (portions : List Portion) :
    readDurables .nothing (portions.flatMap Portion.items) =
      ⟨portions.map Portion.piece, none⟩ := by
  induction portions with
  | nil => rfl
  | cons portion portions ih =>
    rw [List.flatMap_cons, List.map_cons]
    cases portion with
    | group g =>
      refine (readDurables_group g (fresh_portions portions)).trans ?_
      rw [ih]
      rfl
    | other o ho =>
      rw [Portion.items, List.singleton_append, readDurables_item ho rfl, ih]
      rfl

/-- Where every run consists of groups, the items are groups and other items. -/
theorem exists_portions {items : List Item} (h : ∀ run ∈ musicRuns items, AreGroups run) :
    ∃ portions : List Portion, items = portions.flatMap Portion.items := by
  have hgroups {run : List Item} (hrun : AreGroups run) :
      ∃ portions : List Portion, run = portions.flatMap Portion.items := by
    obtain ⟨groups, rfl⟩ := hrun
    exact ⟨groups.map .group, by rw [List.flatMap_map]; rfl⟩
  induction items using runs_induction with
  | run run hrun =>
    rw [musicRuns_run hrun] at h
    exact hgroups (h run List.mem_cons_self)
  | other run o rest hrun ho ih =>
    rw [musicRuns_append hrun ho] at h
    obtain ⟨hfirst, hlater⟩ := List.forall_mem_cons.1 h
    obtain ⟨portions, rfl⟩ := hgroups hfirst
    obtain ⟨later, rfl⟩ := ih hlater
    exact ⟨portions ++ .other o ho :: later, by rw [List.flatMap_append, List.flatMap_cons]; rfl⟩

/-! ## The first fault -/

/-- Either every run consists of groups and there is no fault, or there is one in the first run that
does not. -/
theorem readDurables_runs (items : List Item) :
    ((readDurables .nothing items).fault = none ∧ ∀ run ∈ musicRuns items, AreGroups run) ∨
      ∃ e, (readDurables .nothing items).fault = some e ∧
        InFirstUngrouped (musicRuns items) e.pos := by
  have hfirst {run : List Item} (hrun : ∀ i ∈ run, i.isMusic) (after : List (List Item))
      {e : SourceError} (he : (readDurables .nothing run).fault = some e) :
      InFirstUngrouped (run :: after) e.pos := by
    refine ⟨[], run, after, rfl, nofun, fun hgroups => ?_, readDurables_run_located hrun e he⟩
    rw [(readDurables_run_iff hrun).2 hgroups] at he
    cases he
  induction items using runs_induction with
  | run run hrun =>
    rw [musicRuns_run hrun]
    cases hfault : (readDurables .nothing run).fault with
    | some e => exact .inr ⟨e, rfl, hfirst hrun [] hfault⟩
    | none => exact .inl ⟨rfl, List.forall_mem_singleton.2 ((readDurables_run_iff hrun).1 hfault)⟩
  | other run o rest hrun ho ih =>
    rw [musicRuns_append hrun ho, readDurables_fault_append ho]
    cases hfault : (readDurables .nothing run).fault with
    | some e => exact .inr ⟨e, rfl, hfirst hrun _ hfault⟩
    | none =>
      have hgroups := (readDurables_run_iff hrun).1 hfault
      obtain ⟨hnone, hlater⟩ | ⟨e, he, front, bad, after, heq, hfront, hbad⟩ := ih
      · exact .inl ⟨hnone, List.forall_mem_cons.2 ⟨hgroups, hlater⟩⟩
      · refine .inr ⟨e, he, run :: front, bad, after, by rw [heq]; rfl, ?_, hbad⟩
        exact List.forall_mem_cons.2 ⟨hgroups, hfront⟩

/-- Notes and rests are put together without a fault exactly when every run of their parts consists
of groups. Then the items are groups and other items, and however they are divided into these, each
group has become its note or rest and each other item stays in its place. Otherwise the fault is at
a token of the first run that does not consist of groups. -/
theorem readDurables_groups (items : List Item) :
    ((readDurables .nothing items).fault = none ↔ ∀ run ∈ musicRuns items, AreGroups run) ∧
    ((readDurables .nothing items).fault = none →
      ∃ portions : List Portion, items = portions.flatMap Portion.items) ∧
    (∀ portions : List Portion, items = portions.flatMap Portion.items →
      readDurables .nothing items = ⟨portions.map Portion.piece, none⟩) ∧
    ∀ e, (readDurables .nothing items).fault = some e →
      InFirstUngrouped (musicRuns items) e.pos := by
  have hread (portions : List Portion) (h : items = portions.flatMap Portion.items) :
      readDurables .nothing items = ⟨portions.map Portion.piece, none⟩ := by
    rw [h]
    exact readDurables_portions portions
  obtain ⟨hnone, hruns⟩ | ⟨e, he, hfirst⟩ := readDurables_runs items
  · rw [hnone]
    exact ⟨iff_of_true rfl hruns, fun _ => exists_portions hruns, hread, nofun⟩
  · rw [he]
    refine ⟨iff_of_false nofun fun hall => ?_, nofun, hread, fun e' he' => ?_⟩
    · obtain ⟨front, run, after, heq, -, hrun, -⟩ := hfirst
      exact hrun (hall run (heq ▸ List.mem_append_right front List.mem_cons_self))
    · obtain rfl := Option.some.inj he'
      exact hfirst

end SingAlong
