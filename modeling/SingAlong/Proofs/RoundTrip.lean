import SingAlong.Proofs.Atoms
import SingAlong.Proofs.Body
import SingAlong.Proofs.Spelling

/-!
# Reading what is written

A tune that is written and read again is the same tune (`readTune_write`). The document is the tree
of a score (`readTune_score`), its text has the lexemes of the score (`Score.lex_text`), and tokens
with these lexemes are read as the score again (`readTune_text`).

The triples `Draft.Leads` go from the pieces of a body, which are its atoms, to its parts: for each
kind of element and of part one triple says what the draft is after its atoms.
-/

namespace SingAlong

open Score (Member Element Comment Value Line Part HeaderField Entry Atom Suffix bodyAtoms)

/-! ## From pieces to parts -/

namespace Draft

/-- The draft has these nodes and these elements of the current line, and no open tuplet. -/
structure Has (nodes line : List Node) (d : Draft) : Prop where
  nodes : d.nodes.map Node.unplaced = nodes
  line : d.line.map Node.unplaced = line
  tuplet : d.tuplet = none

/-- The draft has these nodes and elements, and a tuplet that has been begun. -/
structure Opens (nodes line : List Node) (size : TupletSize) (members : List Member) (d : Draft) :
    Prop where
  nodes : d.nodes.map Node.unplaced = nodes
  line : d.line.map Node.unplaced = line
  tuplet : ∃ t, d.tuplet = some t ∧ t.size = size ∧
    t.members.map Node.unplaced = members.map Member.node

/-- Adding pieces that are these atoms succeeds, and it leads from drafts with one property to
drafts with the other. -/
def Leads (P : Draft → Prop) (atoms : List Atom) (Q : Draft → Prop) : Prop :=
  ∀ d, P d → ∀ pieces, List.Forall₂ Piece.Is pieces atoms →
    ∃ d', List.foldlM Draft.addPiece d pieces = .ok d' ∧ Q d'

section Leads

variable {P Q R : Draft → Prop} {as bs : List Atom}

/-- Without atoms the draft stays. -/
theorem Leads.nil : Leads P [] P := by
  rintro d hd _ ⟨⟩
  exact ⟨d, rfl, hd⟩

/-- One atom leads where its piece does. -/
theorem Leads.single {a : Atom}
    (h : ∀ d, P d → ∀ piece : Piece, piece.Is a → ∃ d', d.addPiece piece = .ok d' ∧ Q d') :
    Leads P [a] Q := by
  rintro d hd _ (_ | ⟨hpiece, _ | _⟩)
  obtain ⟨d', hstep, hd'⟩ := h d hd _ hpiece
  refine ⟨d', ?_, hd'⟩
  rw [List.foldlM_cons]
  exact bind_eq_ok.2 ⟨d', hstep, rfl⟩

/-- Atoms lead on from where the atoms before them lead. -/
theorem Leads.append (h₁ : Leads P as Q) (h₂ : Leads Q bs R) : Leads P (as ++ bs) R := by
  intro d hd pieces hpieces
  obtain ⟨d₁, hd₁, hQ⟩ := h₁ d hd _ (List.forall₂_take_append _ _ _ hpieces)
  obtain ⟨d₂, hd₂, hR⟩ := h₂ d₁ hQ _ (List.forall₂_drop_append _ _ _ hpieces)
  refine ⟨d₂, ?_, hR⟩
  rw [← List.take_append_drop as.length pieces, List.foldlM_append]
  exact bind_eq_ok.2 ⟨d₁, hd₁, hd₂⟩

end Leads

variable {nodes line : List Node}

/-- A bar is added to the line. -/
theorem leads_bar (b : Bar) :
    Leads (Has nodes line) [.bar b] (Has nodes (line ++ [(Element.bar b).node])) := by
  refine .single fun d hd piece hpiece => ?_
  obtain ⟨t, rfl, ht⟩ := hpiece.token rfl
  refine ⟨{ d with line := d.line ++ [t.node (.bar b)] }, ?_, hd.nodes, ?_, hd.tuplet⟩
  · unfold addPiece addToken checkTuplet
    dsimp only
    rw [ht, hd.tuplet]
    rfl
  · rw [List.map_append, hd.line]
    rfl

/-- The piece of a note or chord, which is added as such. -/
theorem addPiece_member {piece : Piece} {m : Member} (h : piece.Is m.atom) :
    ∃ start n, n.unplaced = m.node ∧ ∀ d : Draft, d.addPiece piece = d.add start n := by
  cases m with
  | note note =>
    match piece with
    | .durable start n => exact ⟨start, n, h, fun _ => rfl⟩
    | .item (.token t) | .item (.chord start n) | .item (.lyrics n) => cases h
  | chord c =>
    match piece with
    | .item (.chord start n) => exact ⟨start, n, h, fun _ => rfl⟩
    | .durable start n | .item (.token t) | .item (.lyrics n) => cases h

/-- The piece of a rest, which is added as such. -/
theorem addPiece_rest {piece : Piece} {s : Suffix} (h : piece.Is (.rest s)) :
    ∃ start n, n.unplaced = s.rest ∧ ∀ d : Draft, d.addPiece piece = d.add start n := by
  match piece with
  | .durable start n => exact ⟨start, n, h, fun _ => rfl⟩
  | .item (.token t) | .item (.chord start n) | .item (.lyrics n) => cases h

/-- A line with elements is not empty in the draft. -/
theorem Has.line_isEmpty {d : Draft} (hd : d.Has nodes line) (hline : line ≠ []) :
    d.line.isEmpty = false := by
  rw [List.isEmpty_eq_false_iff]
  intro hnil
  exact hline (by rw [← hd.line, hnil]; rfl)

/-- Outside tuplets, what is added goes to the line. -/
theorem Has.add {d : Draft} (hd : d.Has nodes line) (start : Nat) (n : Node) :
    ∃ d', d.add start n = .ok d' ∧ d'.Has nodes (line ++ [n.unplaced]) := by
  refine ⟨{ d with line := d.line ++ [n] }, ?_, hd.nodes, ?_, hd.tuplet⟩
  · unfold Draft.add
    rw [hd.tuplet]
  · rw [List.map_append, hd.line]
    rfl

/-- A tuplet is begun. -/
theorem leads_mark (size : TupletSize) :
    Leads (Has nodes line) [.tuplet size] (Opens nodes line size []) := by
  refine .single fun d hd piece hpiece => ?_
  obtain ⟨t, rfl, ht⟩ := hpiece.token rfl
  refine ⟨{ d with tuplet := some ⟨t, size, []⟩ }, ?_, hd.nodes, hd.line, _, rfl, rfl, rfl⟩
  unfold addPiece addToken
  dsimp only
  rw [ht, hd.tuplet]

/-- What is added to a tuplet completes it, or else it is one more member. -/
theorem Opens.add {d : Draft} {size : TupletSize} {members : List Member} {m : Member}
    (hd : d.Opens nodes line size members) (start : Nat) {n : Node} (hn : n.unplaced = m.node) :
    ∃ d', d.add start n = .ok d' ∧
      if (members ++ [m]).length = size.count then
        d'.Has nodes (line ++ [.unread (.tuplet size) ((members ++ [m]).map Member.node)])
      else d'.Opens nodes line size (members ++ [m]) := by
  obtain ⟨t, ht, hsize, hmembers⟩ := hd.tuplet
  have hsung : n.label.isSung := by
    rw [← n.label_unplaced, hn]
    cases m <;> rfl
  obtain ⟨hmembers', hlength⟩ := map_unplaced_concat hmembers hn
  unfold Draft.add
  rw [ht]
  dsimp only
  rw [if_pos hsung, hlength, hsize]
  split_ifs with hcount
  · refine ⟨_, rfl, hd.nodes, ?_, rfl⟩
    rw [List.map_append, hd.line, List.map_singleton, Node.unplaced_mk, hmembers']
  · exact ⟨_, rfl, hd.nodes, hd.line, _, rfl, rfl, hmembers'⟩

/-- A member that is added to a tuplet completes it, or else it is one more member. -/
theorem leads_member {size : TupletSize} {members : List Member} (m : Member) :
    Leads (Opens nodes line size members) [m.atom]
      (if (members ++ [m]).length = size.count then
        Has nodes (line ++ [.unread (.tuplet size) ((members ++ [m]).map Member.node)])
      else Opens nodes line size (members ++ [m])) := by
  refine .single fun d hd piece hpiece => ?_
  obtain ⟨start, n, hn, hadd⟩ := addPiece_member hpiece
  obtain ⟨d', hd', hcases⟩ := hd.add start hn
  refine ⟨d', (hadd d).trans hd', ?_⟩
  split_ifs at hcases ⊢
  · exact hcases
  · exact hcases

/-- The members of a tuplet complete it. -/
theorem leads_members {size : TupletSize} (ms members : List Member) (hms : ms ≠ [])
    (hcount : (members ++ ms).length = size.count) :
    Leads (Opens nodes line size members) (ms.map Member.atom)
      (Has nodes (line ++ [.unread (.tuplet size) ((members ++ ms).map Member.node)])) := by
  induction ms generalizing members with
  | nil => exact absurd rfl hms
  | cons m ms ih =>
    have hstep := @leads_member nodes line size members m
    by_cases hlast : ms = []
    · subst hlast
      rwa [if_pos hcount] at hstep
    · -- With more members to come the tuplet is not complete.
      have hmore : (members ++ [m]).length ≠ size.count := by
        have hpos := List.length_pos_iff.2 hlast
        simp only [List.length_append, List.length_cons, List.length_nil] at hcount ⊢
        omega
      rw [if_neg hmore] at hstep
      have hrest := ih (members ++ [m]) hlast (by rw [List.append_assoc]; exact hcount)
      rw [List.append_assoc] at hrest
      exact hstep.append hrest

/-- Outside tuplets, an atom whose piece is added as this node goes to the line. -/
theorem leads_played {a : Atom} {node : Node} (h : ∀ piece : Piece, piece.Is a →
      ∃ start n, n.unplaced = node ∧ ∀ d : Draft, d.addPiece piece = d.add start n) :
    Leads (Has nodes line) [a] (Has nodes (line ++ [node])) := by
  refine .single fun d hd piece hpiece => ?_
  obtain ⟨start, n, rfl, hadd⟩ := h piece hpiece
  obtain ⟨d', hd', hhas⟩ := hd.add start n
  exact ⟨d', (hadd d).trans hd', hhas⟩

/-- The atoms of an element add it to the line. -/
theorem leads_element (e : Element) :
    Leads (Has nodes line) e.atoms (Has nodes (line ++ [e.node])) := by
  cases e with
  | member m => exact leads_played fun _ => addPiece_member
  | rest s => exact leads_played fun _ => addPiece_rest
  | tuplet t =>
    have hne : t.members ≠ [] := by
      intro hnil
      have hcount := t.complete
      rw [hnil] at hcount
      exact absurd hcount.symm t.size.count_pos.ne'
    exact (leads_mark t.size).append (leads_members t.members [] hne t.complete)
  | bar b => exact leads_bar b

/-- The atoms of elements add them to the line. -/
theorem leads_elements (es : List Element) :
    Leads (Has nodes line) (es.flatMap Element.atoms)
      (Has nodes (line ++ es.map Element.node)) := by
  induction es generalizing line with
  | nil =>
    rw [List.map_nil, List.append_nil]
    exact .nil
  | cons e es ih =>
    have hrest := @ih (line ++ [e.node])
    rw [List.append_assoc] at hrest
    exact (leads_element e).append hrest

/-- A comment goes to the end of the line, if the line has elements. -/
theorem leads_comment_line (comment : Option Comment) (hline : line ≠ []) :
    Leads (Has nodes line) (comment.map Atom.comment).toList
      (Has nodes (line ++ (comment.map Comment.node).toList)) := by
  cases comment with
  | none =>
    rw [Option.map_none, Option.map_none, Option.toList_none, Option.toList_none, List.append_nil]
    exact .nil
  | some c =>
    refine .single fun d hd piece hpiece => ?_
    obtain ⟨t, rfl, ht⟩ := hpiece.token rfl
    have hnonempty := hd.line_isEmpty hline
    refine ⟨{ d with line := d.line ++ [t.node (.comment c.text)] }, ?_, hd.nodes, ?_, hd.tuplet⟩
    · unfold addPiece addToken
      dsimp only
      rw [ht]
      dsimp only
      rw [hnonempty, if_neg Bool.false_ne_true]
    · rw [List.map_append, hd.line]
      rfl

/-- A newline ends a line that has elements. -/
theorem leads_newline_line (hline : line ≠ []) :
    Leads (Has nodes line) [.newline]
      (Has (nodes ++ [.unread .line (line ++ [Node.leaf (.endOfLine Text.lineEnd)])]) []) := by
  refine .single fun d hd piece hpiece => ?_
  obtain ⟨t, rfl, ht⟩ := hpiece.token rfl
  have hnonempty := hd.line_isEmpty hline
  have htext : t.text = Text.lineEnd := by
    rw [Token.text, ht]
    rfl
  refine ⟨{ d with
    nodes := d.nodes ++ [.unread .line (d.line ++ [t.node (.endOfLine t.text)])], line := [] },
    ?_, ?_, rfl, hd.tuplet⟩
  · unfold addPiece addToken checkTuplet endLine
    dsimp only
    rw [ht, hd.tuplet, hnonempty, if_neg Bool.false_ne_true]
    rfl
  · rw [List.map_append, hd.nodes, List.map_singleton, Node.unplaced_unread, List.map_append,
      hd.line, List.map_singleton, Token.unplaced_node, htext]

/-- The atoms of a line of music make it a part. -/
theorem leads_line (l : Line) :
    Leads (Has nodes []) (Part.line l).atoms (Has (nodes ++ [l.node]) []) := by
  have hnonempty : l.elements.map Element.node ≠ [] := by
    rw [Ne, List.map_eq_nil_iff]
    exact l.nonempty
  have helements := @leads_elements nodes [] l.elements
  rw [List.nil_append] at helements
  have hcommented : l.elements.map Element.node ++ (l.comment.map Comment.node).toList ≠ [] :=
    fun hnil => hnonempty (List.append_eq_nil_iff.1 hnil).1
  exact (helements.append (leads_comment_line l.comment hnonempty)).append
    (leads_newline_line hcommented)

/-- A newline without elements before it ends nothing. -/
theorem leads_newline : Leads (Has nodes []) [.newline] (Has nodes []) := by
  refine .single fun d hd piece hpiece => ?_
  obtain ⟨t, rfl, ht⟩ := hpiece.token rfl
  have hempty : d.line = [] := List.map_eq_nil_iff.1 hd.line
  refine ⟨d, ?_, hd⟩
  unfold addPiece addToken checkTuplet endLine
  dsimp only
  rw [ht, hd.tuplet, hempty]
  rfl

/-- The atoms of a part add it to the parts that are complete. -/
theorem leads_part (p : Part) : Leads (Has nodes []) p.atoms (Has (nodes ++ [p.node]) []) := by
  cases p with
  | comment c =>
    refine .single fun d hd piece hpiece => ?_
    obtain ⟨t, rfl, ht⟩ := hpiece.token rfl
    have hempty : d.line = [] := List.map_eq_nil_iff.1 hd.line
    refine ⟨{ d with nodes := d.nodes ++ [t.node (.comment c.text)] }, ?_, ?_, hd.line, hd.tuplet⟩
    · unfold addPiece addToken
      dsimp only
      rw [ht, hempty]
      rfl
    · rw [List.map_append, hd.nodes]
      rfl
  | voice v =>
    refine .single fun d hd piece hpiece => ?_
    obtain ⟨t, rfl, ht⟩ := hpiece.token rfl
    refine ⟨{ d with nodes := d.nodes ++ [t.node (.voiceField (Field.written 'V' v.text))] },
      ?_, ?_, hd.line, hd.tuplet⟩
    · unfold addPiece addToken
      dsimp only
      rw [ht]
      dsimp only
      rw [v.trimEnd_written]
    · rw [List.map_append, hd.nodes]
      rfl
  | line l => exact leads_line l
  | lyrics l =>
    refine .single fun d hd piece hpiece => ?_
    match piece with
    | .item (.lyrics n) =>
      refine ⟨{ d with nodes := d.nodes ++ [n] }, rfl, ?_, hd.line, hd.tuplet⟩
      have hn : n.unplaced = l.node := hpiece
      rw [List.map_append, hd.nodes, List.map_singleton, hn]
      rfl
    | .durable start n | .item (.token t) | .item (.chord start n) => cases hpiece

/-- The atoms between two parts add nothing. -/
theorem leads_gap (p : Part) : Leads (Has nodes []) p.gapAtoms (Has nodes []) := by
  cases p with
  | comment c => exact leads_newline
  | voice v => exact leads_newline
  | line l => exact .nil
  | lyrics l => exact .nil

/-- The atoms of a body add its parts. -/
theorem leads_body (parts : List Part) :
    Leads (Has nodes []) (bodyAtoms parts) (Has (nodes ++ parts.map Part.node) []) := by
  cases parts with
  | nil =>
    rw [List.map_nil, List.append_nil]
    exact .nil
  | cons p parts =>
    induction parts generalizing nodes p with
    | nil => exact leads_part p
    | cons q parts ih =>
      have hrest := @ih (nodes ++ [p.node]) q
      rw [List.append_assoc] at hrest
      exact ((leads_part p).append (leads_gap p)).append hrest

end Draft

/-- A body is read from pieces that are its atoms. -/
theorem readBody_parts {items : List Item} {pieces : List Piece} {parts : List Part}
    (hread : readDurables .nothing items = ⟨pieces, none⟩)
    (hpieces : List.Forall₂ Piece.Is pieces (bodyAtoms parts)) :
    ∃ n, readBody items = .ok n ∧ n.unplaced = .unread .body (parts.map Part.node) := by
  have hempty : Draft.empty.Has [] [] := ⟨rfl, rfl, rfl⟩
  obtain ⟨d, hd, hhas⟩ := Draft.leads_body parts Draft.empty hempty pieces hpieces
  have hline : d.line = [] := List.map_eq_nil_iff.1 hhas.line
  refine ⟨.unread .body d.nodes, ?_, ?_⟩
  · unfold readBody
    rw [hread]
    refine bind_eq_ok.2 ⟨d, hd, ?_⟩
    unfold Draft.checkTuplet Draft.endLine
    rw [hhas.tuplet, hline]
    rfl
  · rw [Node.unplaced_unread, hhas.nodes]
    rfl

/-! ## The header and the whole tune -/

/-- The entries of a header are read from their tokens. -/
theorem mapM_headerNode {entries : List Entry} {ks : List Token}
    (hks : ks.map Token.lexeme = entries.map Entry.lexeme) :
    ∃ ns, ks.mapM headerNode = .ok ns ∧ ns.map Node.unplaced = entries.map Entry.node := by
  induction entries generalizing ks with
  | nil =>
    obtain rfl := List.map_eq_nil_iff.1 hks
    exact ⟨[], rfl, rfl⟩
  | cons e entries ih =>
    obtain ⟨k, ks, rfl, hk, hks⟩ := List.map_eq_cons_iff.1 hks
    obtain ⟨ns, hns, hnodes⟩ := ih hks
    obtain ⟨n, hn, hnode⟩ : ∃ n, headerNode k = .ok n ∧ n.unplaced = e.node := by
      unfold headerNode
      rw [hk]
      cases e with
      | field f => exact ⟨k.node (.field (Text.trimEnd f.text)), rfl, by
          rw [HeaderField.text, f.value.trimEnd_written]; rfl⟩
      | comment c => exact ⟨k.node (.comment c.text), rfl, rfl⟩
    refine ⟨n :: ns, ?_, by rw [List.map_cons, hnode, hnodes]; rfl⟩
    rw [List.mapM_cons]
    exact bind_eq_ok.2 ⟨n, hn, bind_eq_ok.2 ⟨ns, hns, rfl⟩⟩

/-- The key field is read from its token, whose newline is not kept. -/
theorem headerNode_keyField {k : Token} {v : Value} {ending : Text}
    (he : ending = [] ∨ ending = Text.lineEnd) (hk : k.lexeme = .keyField (v.keyText ++ ending)) :
    ∃ n, headerNode k = .ok n ∧ n.unplaced = Node.leaf (.keyField v.keyText) := by
  refine ⟨k.node (.keyField (Text.trimEnd (v.keyText ++ ending))), ?_, ?_⟩
  · unfold headerNode
    rw [hk]
  · have htrim : Text.trimEnd (v.keyText ++ ending) = v.keyText := by
      rcases he with rfl | rfl
      · rw [List.append_nil]
        exact v.trimEnd_written 'K'
      · rw [Text.trimEnd_lineEnd]
        exact v.trimEnd_written 'K'
    rw [Token.unplaced_node, htrim]

/-- The key field, if there is one, is read from its token. -/
theorem mapM_headerNode_key {key : Option Value} {ending : Text} {ks : List Token}
    (he : ending = [] ∨ ending = Text.lineEnd)
    (hks : ks.map Token.bare =
      (key.map fun v => (Lexeme.keyField (v.keyText ++ ending), Region.header)).toList) :
    ∃ ns, ks.mapM headerNode = .ok ns ∧
      ns.map Node.unplaced = (key.map fun v => Node.leaf (.keyField v.keyText)).toList ∧
      ∀ k ∈ ks, k.region = .header := by
  cases key with
  | none =>
    obtain rfl := List.map_eq_nil_iff.1 hks
    exact ⟨[], rfl, rfl, nofun⟩
  | some v =>
    obtain ⟨k, rfl, hk⟩ := List.map_eq_singleton_iff.1 hks
    obtain ⟨hlexeme, hregion⟩ := Prod.mk.inj hk
    obtain ⟨n, hn, hnode⟩ := headerNode_keyField he hlexeme
    refine ⟨[n], ?_, by rw [List.map_singleton, hnode]; rfl, List.forall_mem_singleton.2 hregion⟩
    exact bind_eq_ok.2 ⟨n, hn, rfl⟩

/-- No lexeme of a body belongs to the header. -/
theorem Score.Atom.region_lexemes (a : Atom) : ∀ e ∈ a.lexemes, e.2 ≠ .header := by
  have hmap {ls : List Lexeme} {r : Region} (hr : r ≠ .header) :
      ∀ e ∈ ls.map (·, r), e.2 ≠ .header := by
    intro e he
    obtain ⟨l, -, rfl⟩ := List.mem_map.1 he
    exact hr
  cases a with
  | note n => exact hmap nofun
  | rest s => exact List.forall_mem_cons.2 ⟨nofun, hmap nofun⟩
  | chord c =>
    refine List.forall_mem_cons.2 ⟨nofun, List.forall_mem_append.2 ⟨hmap nofun, ?_⟩⟩
    exact List.forall_mem_singleton.2 nofun
  | lyrics l =>
    refine List.forall_mem_cons.2 ⟨nofun, List.forall_mem_append.2 ⟨?_, ?_⟩⟩
    · intro e he
      obtain ⟨k, hk, rfl⟩ := List.mem_map.1 he
      exact tokensFrom_ne_header (r := .lyric) nofun k hk
    · exact List.forall_mem_singleton.2 nofun
  | _ => exact List.forall_mem_singleton.2 nofun

/-- No lexeme of atoms belongs to the header. -/
theorem region_of_atoms (atoms : List Atom) : ∀ e ∈ atoms.flatMap Atom.lexemes, e.2 ≠ .header := by
  intro e he
  obtain ⟨a, -, ha⟩ := List.mem_flatMap.1 he
  exact a.region_lexemes e ha

/-- A body with parts is read from its tokens, and without a body there is nothing to read. -/
theorem readBody_tokens {body : List Token} {parts : Option (List Part)} (hparts : parts ≠ some [])
    (hbody : body.map Token.bare =
      parts.elim [] fun parts => (bodyAtoms parts).flatMap Atom.lexemes) :
    ∃ items bodies, (groupFrom body).2.mapM Group.read = .ok items ∧
      (if body.isEmpty then .ok [] else (readBody items).map ([·])) = .ok bodies ∧
      bodies.map Node.unplaced =
        (parts.map fun parts => Node.unread .body (parts.map Part.node)).toList := by
  cases parts with
  | none =>
    obtain rfl := List.map_eq_nil_iff.1 hbody
    exact ⟨[], [], rfl, rfl, rfl⟩
  | some parts =>
    obtain ⟨-, items, pieces, hitems, -, hread, hpieces⟩ := groupFrom_atoms hbody
    obtain ⟨n, hn, hnode⟩ := readBody_parts hread hpieces
    have hnonempty : body.isEmpty = false := by
      rw [List.isEmpty_eq_false_iff]
      rintro rfl
      -- Nothing is read from no tokens, but the parts are.
      cases hitems
      cases hread
      cases hn
      exact hparts (congrArg some (List.map_eq_nil_iff.1 (Node.mk.inj hnode).2.2.2.symm))
    refine ⟨items, [n], hitems, ?_, ?_⟩
    · rw [hnonempty, if_neg Bool.false_ne_true, hn]
      rfl
    · rw [List.map_singleton, hnode]
      rfl

/-- A source with the lexemes of a header, and after them those of a body that is read as these
nodes from any tokens, is read as the header and these nodes. -/
theorem readTune_lexemes {source : Text} {entries : List Entry} {key : Option Value} {ending : Text}
    {ls : List (Lexeme × Region)} {nodes : List Node}
    (hsource : lex .header source = entries.map (fun e => (e.lexeme, .header)) ++
      (key.map fun v => (.keyField (v.keyText ++ ending), .header)).toList ++ ls)
    (hending : ending = [] ∨ ending = Text.lineEnd) (hregion : ∀ l ∈ ls, l.2 ≠ .header)
    (hread : ∀ body : List Token, body.map Token.bare = ls →
      ∃ items bodies, (groupFrom body).2.mapM Group.read = .ok items ∧
        (if body.isEmpty then .ok [] else (readBody items).map ([·])) = .ok bodies ∧
        bodies.map Node.unplaced = nodes) :
    ∃ n, readTune source = .ok n ∧ n.unplaced = .unread .document (.unread .header
      (entries.map Entry.node ++ (key.map fun v => Node.leaf (.keyField v.keyText)).toList) ::
        nodes) := by
  -- The tokens split as the lexemes do.
  have hlex : (tokens source).map Token.bare = _ := hsource
  obtain ⟨header, body, ht, hheader, hrest⟩ := List.map_eq_append_iff.1 hlex
  obtain ⟨fields, keys, rfl, hfields, hkeys⟩ := List.map_eq_append_iff.1 hheader
  have hentries : fields.map Token.bare = (entries.map Entry.lexeme).map (·, .header) := by
    rw [hfields, List.map_map]
    rfl
  obtain ⟨hlexemes, hregions⟩ := map_lexeme_of_bare hentries
  obtain ⟨entryNodes, hmapM, hentryNodes⟩ := mapM_headerNode hlexemes
  obtain ⟨keyNodes, hkeyMapM, hkeyNodes, hkeyRegions⟩ := mapM_headerNode_key hending hkeys
  obtain ⟨items, bodies, hitems, hbodies, hbodyNodes⟩ := hread body hrest
  have hbodyRegions : ∀ k ∈ body, k.region ≠ .header :=
    fun k hk => hregion k.bare (hrest ▸ List.mem_map_of_mem hk)
  refine ⟨.unread .document (.unread .header (entryNodes ++ keyNodes) :: bodies), ?_, ?_⟩
  · refine (readTune_eq_ok ht (List.forall_mem_append.2 ⟨hregions, hkeyRegions⟩) hbodyRegions).2
      ⟨items, bodies, entryNodes ++ keyNodes, hitems, hbodies, ?_, rfl⟩
    rw [List.mapM_append]
    exact bind_eq_ok.2 ⟨entryNodes, hmapM, bind_eq_ok.2 ⟨keyNodes, hkeyMapM, rfl⟩⟩
  · rw [Node.unplaced_unread, List.map_cons, Node.unplaced_unread, List.map_append, hentryNodes,
      hkeyNodes, hbodyNodes]

/-- The text of a score is read as the score. A body must have parts, because nothing else tells it
from a tune that ends with its key field. -/
theorem readTune_text (s : Score) (hbody : s.body ≠ some []) :
    ∃ n, readTune s.text = .ok n ∧ n.unplaced = s.node := by
  refine readTune_lexemes s.lex_text ?_ ?_ fun body hrest => readBody_tokens hbody hrest
  · cases s.body with
    | none => exact .inl rfl
    | some parts => exact .inr rfl
  · cases s.body with
    | none => exact nofun
    | some parts => exact region_of_atoms (bodyAtoms parts)

/-! ## Writing undoes reading -/

/-- A document that is the tree of a score with an empty body has a body without children. -/
theorem first?_body_of_empty {document : Node} {s : Score} (h : document.unplaced = s.node)
    (hempty : s.body = some []) : ∃ b, document.first? .body = some b ∧ b.children = [] := by
  have hchildren : document.children.map Node.unplaced = s.node.children := by
    rw [← document.children_unplaced, h]
  -- The document has the header and the body as its only children.
  unfold Score.node at hchildren
  rw [hempty] at hchildren
  obtain ⟨header, bodies, hdocument, hheader, hbodies⟩ := List.map_eq_cons_iff.1 hchildren
  obtain ⟨b, rfl, hb⟩ := List.map_eq_singleton_iff.1 hbodies
  have hheaderLabel : header.label = .header := by
    rw [← header.label_unplaced, hheader]
    rfl
  have hbodyLabel : b.label = .body := by
    rw [← b.label_unplaced, hb]
    rfl
  refine ⟨b, ?_, ?_⟩
  · unfold Node.first? Node.kind
    rw [hdocument, List.find?_cons_of_neg, List.find?_cons_of_pos]
    · rw [hbodyLabel]
      rfl
    · rw [hheaderLabel]
      decide
  · have hnone := b.children_unplaced
    rw [hb] at hnone
    exact List.map_eq_nil_iff.1 hnone.symm

/-- A tune that is read, written and read again is the same tune, if its lines of lyrics have no
blanks but spaces, tabs and carriage returns, and its body, if there is one, is not empty. -/
theorem readTune_write {source : Text} {document : Node} (h : readTune source = .ok document)
    (hlyrics : LyricTexts Text.PlainBlanks source (tokens source))
    (hbody : ∀ body, document.first? .body = some body → body.children ≠ []) :
    ∃ document', readTune document.write = .ok document' ∧ document'.same document := by
  obtain ⟨s, hs, hparts⟩ := readTune_score h hlyrics
  have hplain : ∀ parts ∈ s.body, ∀ p ∈ parts, p.PlainLyrics := by
    rintro parts hmem p hp l rfl
    exact hparts parts hmem l hp
  have hwrite : document.write = s.text := by
    rw [← document.write_unplaced, hs, s.write_node hplain]
  have hne : s.body ≠ some [] := by
    intro hempty
    obtain ⟨b, hb, hnone⟩ := first?_body_of_empty hs hempty
    exact hbody b hb hnone
  obtain ⟨document', hread, hunplaced⟩ := readTune_text s hne
  refine ⟨document', hwrite ▸ hread, ?_⟩
  rw [Node.same_iff, hunplaced, hs]

/-- A tune with a comment at the end of a line, a repeat next to a chord, a tuplet, an ending, and
lyrics with hyphens and a tab. -/
def melody : Text :=
  "T:a %b\nK:G\n|:[C2E2] (3abc ^F,/2 [1 z :| %c\nw:la-\tla\\-b *~_ %d\n V:1 \nd".text

/-- The tune stays the same when it is written and read again. -/
theorem readTune_write_melody :
    ∃ document document', readTune melody = .ok document ∧
      readTune document.write = .ok document' ∧ document'.same document := by
  have hread : (readTune melody).toOption.any fun document =>
      (document.first? .body).all fun body => !body.children.isEmpty := by
    decide +kernel
  have hlyrics : LyricTexts Text.PlainBlanks melody (tokens melody) := by
    unfold LyricTexts Text.PlainBlanks
    decide +kernel
  cases h : readTune melody with
  | error e =>
    rw [h] at hread
    cases hread
  | ok document =>
    obtain ⟨document', hagain, hsame⟩ := readTune_write h hlyrics fun body hbody hnone => by
      rw [h] at hread
      simp [Except.toOption, hbody, hnone] at hread
    exact ⟨document, document', rfl, hagain, hsame⟩

end SingAlong
