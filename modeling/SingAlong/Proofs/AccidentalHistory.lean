import SingAlong.Proofs.Alteration
import Mathlib.Data.List.DropRight
import Mathlib.Data.List.Nodup

/-!
# The history of an accidental table

An accidental table is told to apply accidentals and to go back to its key signature, in any order.
What it then holds for a letter can be read off the calls, without a table: the accidentals that
have been applied to the letter since the table last went back have their effect on the alteration
of the key (`AccidentalTable.callAll_history`).

`AccidentalTable.Records` ties the table to the calls that it has been given. Each call keeps it
(`Records.apply`, `Records.reset`), a refused one as well, and so do all calls (`callAll_records`).
-/

namespace SingAlong

/-- What an accidental table can be told: to apply the accidental with a spelling to a letter, or to
go back to the alterations of its key. -/
inductive TableCall where
  | apply (letter spelling : Text)
  | reset
  deriving DecidableEq, Repr

/-! ## The alteration of a letter -/

/-- The alteration of a letter, in either case, in the key signature. Texts that are no letters are
not altered. -/
def Key.alterationOf (k : Key) (letter : Text) : Int :=
  ((Letter.ofText? (Text.upper letter)).map k.alteration).getD 0

namespace TableCall

/-- The accidental that a call applies to a letter. An unknown spelling applies none. -/
def accidentalOn? (letter : Text) : TableCall → Option Accidental
  | apply other spelling =>
    if Text.upper other = Text.upper letter then Accidental.ofText? spelling else none
  | reset => none

/-- The accidentals applied to a letter since the table last went back to its key, in order. -/
def accidentalsOn (letter : Text) (calls : List TableCall) : List Accidental :=
  (calls.rtakeWhile (· ≠ reset)).filterMap (accidentalOn? letter)

variable (letter : Text) (calls : List TableCall)

/-- Nothing has been applied right after the table went back. -/
theorem accidentalsOn_append_reset : accidentalsOn letter (calls ++ [reset]) = [] := by
  unfold accidentalsOn
  rw [List.rtakeWhile_concat_neg _ _ _ (by simp), List.filterMap_nil]

/-- The accidental that is applied is the last one of its letter. -/
theorem accidentalsOn_append_apply (other spelling : Text) :
    accidentalsOn letter (calls ++ [apply other spelling]) =
      accidentalsOn letter calls ++
        (if Text.upper other = Text.upper letter then Accidental.ofText? spelling
          else none).toList := by
  unfold accidentalsOn
  rw [List.rtakeWhile_concat_pos _ _ _ (by simp), List.filterMap_append]
  change _ ++ [apply other spelling].filterMap (accidentalOn? letter) =
    _ ++ (accidentalOn? letter (apply other spelling)).toList
  cases h : accidentalOn? letter (apply other spelling) <;> simp [h]

end TableCall

namespace AccidentalTable

/-- The table after a call, and the refusal of a spelling that is not that of an accidental. -/
def call (table : AccidentalTable) : TableCall → AccidentalTable × Option UnknownAccidental
  | .apply letter spelling =>
    match table.applySpelled letter spelling with
    | .ok applied => (applied, none)
    | .error e => (table, some e)
  | .reset => (table.reset, none)

/-- The table after some calls. -/
def callAll (table : AccidentalTable) (calls : List TableCall) : AccidentalTable :=
  calls.foldl (fun table c => (table.call c).1) table

/-- An accidental that is spelled right is applied; otherwise the call is refused, and the table
stays as it is. -/
theorem call_apply (table : AccidentalTable) (letter spelling : Text) :
    table.call (.apply letter spelling) =
      match Accidental.ofText? spelling with
      | some a => (table.apply letter a, none)
      | none => (table, some ⟨spelling⟩) := by
  unfold call applySpelled
  dsimp only
  cases Accidental.ofText? spelling <;> rfl

/-! ## The entries of a table -/

/-- The names of the letters that have an entry. -/
def names (entries : List (Text × Int)) : List Text :=
  entries.map Prod.fst

/-- Putting an entry adds its name, unless it is there. -/
theorem names_put (letter : Text) (n : Int) (entries : List (Text × Int)) :
    names (put letter n entries) =
      if letter ∈ names entries then names entries else names entries ++ [letter] := by
  unfold names
  induction entries with
  | nil => rfl
  | cons entry rest ih =>
    unfold put
    by_cases h : entry.1 = letter
    · rw [if_pos h, if_pos (by simp [h]), List.map_cons, List.map_cons, h]
    · have hmem : letter ∈ (entry :: rest).map Prod.fst ↔ letter ∈ rest.map Prod.fst := by
        rw [List.map_cons, List.mem_cons]
        exact or_iff_right (Ne.symm h)
      rw [if_neg h, List.map_cons, ih, if_congr hmem rfl rfl, List.map_cons]
      split_ifs <;> rfl

/-- When no name has two entries, an entry is there if it is the one that is found. -/
theorem mem_iff_lookup {entries : List (Text × Int)} (h : (names entries).Nodup) (name : Text)
    (n : Int) : (name, n) ∈ entries ↔ entries.lookup name = some n := by
  unfold names at h
  induction entries with
  | nil => exact iff_of_false List.not_mem_nil nofun
  | cons entry rest ih =>
    rw [List.map_cons, List.nodup_cons] at h
    rw [List.mem_cons, lookup_cons, ih h.2]
    split_ifs with hname
    · -- The name has no other entry.
      have hother : rest.lookup name ≠ some n := by
        intro hrest
        exact h.1 (hname ▸ List.mem_map_of_mem ((ih h.2).2 hrest))
      rw [or_iff_left hother, Option.some.injEq, hname, Prod.ext_iff]
      exact ⟨fun heq => heq.2.symm, fun heq => ⟨rfl, heq.symm⟩⟩
    · refine or_iff_right fun heq => hname (congrArg Prod.fst heq)

/-- The names of a key signature are those of note letters, and each is there once. -/
theorem names_ofKey (k : Key) : (names (ofKey k).entries).Nodup ∧
    ∀ name ∈ names (ofKey k).entries, ∃ l : Letter, l.text = name := by
  constructor
  · obtain ⟨mode, place⟩ := k
    cases mode <;> revert place <;> decide +kernel
  · intro name hname
    obtain ⟨entry, hentry, rfl⟩ := List.mem_map.1 hname
    obtain ⟨⟨l, n⟩, -, rfl⟩ := List.mem_map.1 hentry
    exact ⟨l, rfl⟩

/-- The alteration of a letter depends on its uppercase alone. -/
theorem get_congr (table : AccidentalTable) {letter other : Text}
    (h : Text.upper letter = Text.upper other) : table.get letter = table.get other := by
  unfold get
  rw [h]

/-- The table of a key holds the alteration in the key for each text. -/
theorem get_ofKey_text (k : Key) (letter : Text) :
    (ofKey k).get letter = k.alterationOf letter := by
  unfold Key.alterationOf Letter.ofText?
  cases hletter : Letter.all.find? fun l => l.text == Text.upper letter with
  | some l =>
    have hfound := List.find?_some hletter
    have htext : l.text = Text.upper letter := eq_of_beq hfound
    have hupper : Text.upper letter = Text.upper l.text := by rw [Letter.upper_text, htext]
    rw [get_congr _ hupper, get_ofKey]
    rfl
  | none =>
    -- Only note letters are in the key signature.
    have hnone : (ofKey k).entries.lookup (Text.upper letter) = none := by
      rw [List.lookup_eq_none_iff]
      intro entry hentry
      obtain ⟨l, hl⟩ := (names_ofKey k).2 _ (List.mem_map_of_mem hentry)
      rw [bne_iff_ne, ← hl]
      have hall : l ∈ Letter.all := by cases l <;> decide
      have hother := List.find?_eq_none.1 hletter l hall
      exact fun heq => hother (beq_iff_eq.2 heq.symm)
    unfold get
    rw [hnone]
    rfl

/-! ## The history -/

/-- The table holds what the calls that it has been given say, and has one entry for each letter. -/
structure Records (table : AccidentalTable) (k : Key) (calls : List TableCall) : Prop where
  key : table.key = k
  value : ∀ letter, table.get letter =
    Accidental.effect (k.alterationOf letter) (TableCall.accidentalsOn letter calls)
  nodup : (names table.entries).Nodup
  upper : ∀ name ∈ names table.entries, ∃ letter, Text.upper letter = name

section Records

variable {table : AccidentalTable} {k : Key} {calls : List TableCall}

/-- The table of a key holds what its calls say when nothing has been applied. -/
theorem Records.ofKey {k : Key} (h : ∀ letter, TableCall.accidentalsOn letter calls = []) :
    (ofKey k).Records k calls where
  key := rfl
  value letter := by
    rw [get_ofKey_text, h]
    exact (add_zero (k.alterationOf letter)).symm
  nodup := (names_ofKey k).1
  upper name hname := by
    obtain ⟨l, rfl⟩ := (names_ofKey k).2 name hname
    exact ⟨l.text, l.upper_text⟩

/-- Going back to the key starts anew. -/
theorem Records.reset (h : table.Records k calls) :
    (table.call .reset).1.Records k (calls ++ [.reset]) := by
  unfold call AccidentalTable.reset
  rw [h.key]
  exact .ofKey fun letter => TableCall.accidentalsOn_append_reset letter calls

/-- An accidental that is applied, or refused, is part of the history. -/
theorem Records.apply (h : table.Records k calls) (letter spelling : Text) :
    (table.call (.apply letter spelling)).1.Records k (calls ++ [.apply letter spelling]) := by
  have hvalue (other : Text) := TableCall.accidentalsOn_append_apply other calls letter spelling
  rw [call_apply]
  cases hspelling : Accidental.ofText? spelling with
  | none =>
    refine { h with value := fun other => ?_ }
    rw [hvalue, hspelling, ite_self, Option.toList_none, List.append_nil]
    exact h.value other
  | some a =>
    refine ⟨h.key, fun other => ?_, ?_, ?_⟩
    · dsimp only
      rw [get_apply_upper, hvalue, hspelling]
      by_cases hother : Text.upper other = Text.upper letter
      · rw [if_pos hother, if_pos hother.symm, Option.toList_some, Accidental.effect_append,
          ← h.value, get_congr table hother]
      · rw [if_neg hother, if_neg (Ne.symm hother), Option.toList_none, List.append_nil]
        exact h.value other
    · dsimp only [AccidentalTable.apply]
      rw [names_put]
      split_ifs with hmem
      · exact h.nodup
      · exact List.nodup_append_comm.1 (List.nodup_cons.2 ⟨hmem, h.nodup⟩)
    · dsimp only [AccidentalTable.apply]
      rw [names_put]
      split_ifs with hmem
      · exact h.upper
      · exact List.forall_mem_append.2 ⟨h.upper, List.forall_mem_singleton.2 ⟨letter, rfl⟩⟩

/-- A table that is told anything holds what it has been told. -/
theorem callAll_records (k : Key) (calls : List TableCall) :
    ((ofKey k).callAll calls).Records k calls := by
  induction calls using List.reverseRecOn with
  | nil => exact .ofKey fun letter => rfl
  | append_singleton calls c ih =>
    unfold callAll at ih ⊢
    rw [List.foldl_append]
    cases c with
    | reset => exact ih.reset
    | apply letter spelling => exact ih.apply letter spelling

/-- The altered letters are those whose alteration is not zero, under their uppercase. -/
theorem Records.mem_altered (h : table.Records k calls) (name : Text) (n : Int) :
    (name, n) ∈ table.altered ↔
      n ≠ 0 ∧ ∃ letter, Text.upper letter = name ∧ table.get letter = n := by
  unfold altered
  rw [List.mem_filter, mem_iff_lookup h.nodup, bne_iff_ne, and_comm]
  refine and_congr_right fun hn => ⟨fun hfound => ?_, ?_⟩
  · obtain ⟨letter, hletter⟩ :=
      h.upper name (List.mem_map_of_mem ((mem_iff_lookup h.nodup name n).2 hfound))
    refine ⟨letter, hletter, ?_⟩
    unfold get
    rw [hletter, hfound]
    rfl
  · rintro ⟨letter, rfl, hget⟩
    unfold get at hget
    -- A letter without entry is not altered.
    cases hfound : table.entries.lookup (Text.upper letter) with
    | none =>
      rw [hfound] at hget
      exact absurd hget.symm hn
    | some m =>
      rw [hfound] at hget
      exact congrArg some hget

end Records

/-- A spelling is unknown when it is that of no accidental. -/
theorem ofText?_eq_none {spelling : Text} :
    Accidental.ofText? spelling = none ↔ ∀ a : Accidental, a.text ≠ spelling := by
  unfold Accidental.ofText?
  rw [List.find?_eq_none]
  have hall (a : Accidental) : a ∈ Accidental.all := by cases a <;> decide
  simp only [beq_iff_eq]
  exact ⟨fun h a => h a (hall a), fun h a _ => h a⟩

/-- An accidental table is its history. Whatever it has been told, it holds for each letter the
effect that the accidentals applied to the letter, in either case, since it last went back to its
key have on the alteration of the key. Its altered letters are those with an alteration other than
zero, each once and in uppercase; it refuses the spellings that are those of no accidental, and
then stays as it is; and its key never changes, so that it can always go back to it. -/
theorem callAll_history (k : Key) (calls : List TableCall) :
    let table := (ofKey k).callAll calls
    (∀ letter, table.get letter =
        Accidental.effect (k.alterationOf letter) (TableCall.accidentalsOn letter calls)) ∧
      (∀ letter other, Text.upper letter = Text.upper other → table.get letter = table.get other) ∧
      (∀ l : Letter, table.get [l.lowChar] = table.get [l.char]) ∧
      (names table.altered).Nodup ∧
      (∀ name n, (name, n) ∈ table.altered ↔
        n ≠ 0 ∧ ∃ letter, Text.upper letter = name ∧ table.get letter = n) ∧
      (∀ letter spelling, table.call (.apply letter spelling) = (table, some ⟨spelling⟩) ↔
        ∀ a : Accidental, a.text ≠ spelling) ∧
      table.key = k ∧ table.reset = ofKey k := by
  intro table
  have h : table.Records k calls := callAll_records k calls
  refine ⟨h.value, fun letter other => get_congr table, fun l => ?_, ?_, h.mem_altered,
    fun letter spelling => ?_, h.key, ?_⟩
  · refine get_congr table ?_
    cases l <;> rfl
  · exact h.nodup.sublist (List.filter_sublist.map Prod.fst)
  · rw [call_apply, ← ofText?_eq_none]
    cases Accidental.ofText? spelling with
    | none => exact iff_of_true rfl rfl
    | some a => exact iff_of_false (fun h => nomatch congrArg Prod.snd h) nofun
  · unfold reset
    rw [h.key]

end AccidentalTable

end SingAlong
