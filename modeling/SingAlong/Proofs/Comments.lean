import SingAlong.Proofs.UncommentedBody

/-!
# Comments in a song

Comments are neutral (`Song.read_uncommented`): a source and the source without its comments are
read as the same song, or neither is read and the errors are alike.

The voices of the tokens after the header (`readVoices`) are the same without the comments among
them, and a newline in front of them, which a comment after the key field leaves there, belongs to
no voice. The fields of the header have the same texts. So both documents are compiled to the same
song, or fail with the same error (`readTune_uncommented`).
-/

namespace SingAlong

/-- Lists have the same images when their entries have. -/
theorem map_eq_iff_forall₂ {α β γ : Type} {f : α → γ} {g : β → γ} {as : List α} {bs : List β} :
    as.map f = bs.map g ↔ List.Forall₂ (fun a b => f a = g b) as bs := by
  rw [← List.forall₂_eq_eq_eq, List.forall₂_map_left_iff, List.forall₂_map_right_iff]

/-- A stage that makes the same of related entries makes the same of related lists. -/
theorem mapM_congr_forall₂ {α β γ ε : Type} {like : α → β → Prop} {f : α → Except ε γ}
    {g : β → Except ε γ} {as : List α} {bs : List β} (h : List.Forall₂ like as bs)
    (hfg : ∀ a b, like a b → f a = g b) : as.mapM f = bs.mapM g := by
  induction h with
  | nil => rfl
  | cons hab _ ih => rw [List.mapM_cons, List.mapM_cons, hfg _ _ hab, ih]

/-! ## The voices of a body -/

/-- The bodies that the tokens after the header are read as: one, or none without such tokens. -/
def readBodies (ts : List Token) : Except SourceError (List Node) := do
  let items ← (groupFrom ts).2.mapM Group.read
  if ts.isEmpty then .ok [] else (readBody items).map ([·])

/-- The voices of the tokens after the header. -/
def readVoices (ts : List Token) : Except SourceError (List (Text × VoiceParts)) := do
  let items ← (groupFrom ts).2.mapM Group.read
  return (← readBody items).voiceParts

/-- The voices of the first body of nodes; there are none without a body. -/
def firstVoices (ns : List Node) : List (Text × VoiceParts) :=
  (((Node.unread .document ns).first? .body).map Node.voiceParts).getD []

section

variable {ts ts' : List Token}

/-- A body that is read holds its nodes. -/
theorem exists_of_readBody {items : List Item} {body : Node} (h : readBody items = .ok body) :
    ∃ ns, body = .unread .body ns := by
  obtain ⟨d, -, h⟩ := bind_eq_ok.1 h
  split at h
  next => cases h
  next =>
    obtain ⟨_, -, h⟩ := bind_eq_ok.1 h
    cases h
    exact ⟨_, rfl⟩

/-- The bodies have the voices of the tokens. -/
theorem readBodies_voices (ts : List Token) :
    Agrees (fun bodies voices => ∀ fields,
      firstVoices (.unread .header fields :: bodies) = voices) (readBodies ts) (readVoices ts) := by
  cases ts with
  | nil => exact .ok fun fields => rfl
  | cons k ts =>
    unfold readBodies readVoices
    refine (Agrees.refl _).bind fun items items' hitems => ?_
    subst hitems
    cases hbody : readBody items with
    | error e => exact .error e e
    | ok body =>
      obtain ⟨ns, rfl⟩ := exists_of_readBody hbody
      exact .ok fun fields => rfl

/-- Without the comments the voices are the same. -/
theorem readVoices_dropComments (hts : IsBody ts) (hends : ts.IsChain Token.EndsLine) :
    Agrees Eq (readVoices ts) (readVoices (Token.dropComments ts)) := by
  have hcomments := groupFrom_comments hends hts.region
  unfold readVoices
  rw [mapM_read_dropComments hts.nested (fun k hk => ⟨hts.taken k hk, hts.region k hk⟩) hends]
  cases hitems : (groupFrom ts).2.mapM Group.read with
  | error e => exact .error e e
  | ok items =>
    obtain ⟨hgenuine, hchain⟩ := mapM_read hts.genuine hcomments hitems
    exact (readBody_dropComments hgenuine hchain).bind fun body body' h => .ok h

/-- A newline in front of the items ends no line. -/
theorem readBody_newline {k : Token} (hl : k.lexeme = .newline) (items : List Item) :
    readBody (.token k :: items) = readBody items := by
  have hother : (Item.token k).isMusic = false := by rw [Item.isMusic, hl]; rfl
  have hempty : Draft.empty.addToken k = .ok Draft.empty := by
    unfold Draft.addToken
    rw [hl]
    rfl
  unfold readBody
  rw [readDurables_item hother rfl]
  dsimp only [Pending.complete]
  rw [List.nil_append, List.foldlM_cons,
    show Draft.empty.addPiece (.item (.token k)) = .ok Draft.empty from hempty]
  rfl

/-- A newline in front of the tokens belongs to no voice. -/
theorem readVoices_newline {k : Token} (hk : k.bare = (.newline, .body)) (ts : List Token) :
    readVoices (k :: ts) = readVoices ts := by
  obtain ⟨hl, hr⟩ := Prod.mk.inj hk
  have hgroups : (groupFrom (k :: ts)).2 = .single k :: (groupFrom ts).2 := by
    rw [groupFrom, hl, hr]
  have hread : Group.read (.single k) = .ok (.token k) := rfl
  unfold readVoices
  rw [hgroups, List.mapM_cons, hread]
  cases (groupFrom ts).2.mapM Group.read with
  | error e => rfl
  | ok items =>
    exact congrArg (fun body => body >>= fun b => .ok b.voiceParts) (readBody_newline hl items)

/-- Tokens that are alike have voices that are alike. -/
theorem readVoices_like (hts : IsBody ts) (h : List.Forall₂ Token.Like ts ts') :
    Agrees (VoicesLike False) (readVoices ts) (readVoices ts') := by
  have hspread : Token.Spread False ts ts' := .of_forall₂ h
  have hgroups := (groupFrom_like hspread hts.nested hts.taken).2
  refine (Agrees.mapM hgroups fun g g' hg => hg.read).bind fun items items' hitems => ?_
  refine (readBody_like hitems).bind fun body body' hbody => .ok ?_
  obtain ⟨ns, ns', rfl, rfl, hns⟩ := hbody
  exact splitVoices_like hns _ .nil

/-- The voices are alike for tokens that have the same lexemes other than comments, except that a
newline may come first. -/
theorem readVoices_uncommented (hts : IsBody ts) (hends : ts.IsChain Token.EndsLine)
    (hts' : IsBody ts') (h : ∃ lead, (lead = [] ∨ lead = [(.newline, .body)]) ∧
      dropComments (ts.map Token.bare) = lead ++ ts'.map Token.bare) :
    Agrees (fun vs vs' => VoicesLike False vs' vs) (readVoices ts) (readVoices ts') := by
  have hmap : dropComments (ts.map Token.bare) = (Token.dropComments ts).map Token.bare :=
    List.filter_map
  have hlike {ks : List Token} (hks : ks.map Token.bare = ts'.map Token.bare) :
      Agrees (VoicesLike False) (readVoices ts') (readVoices ks) := by
    refine readVoices_like hts' ((map_eq_iff_forall₂.1 hks.symm).imp fun k k' hk => ?_)
    exact ⟨congrArg (fun e => e.1.plain) hk, congrArg Prod.snd hk⟩
  have hsame : Agrees (VoicesLike False) (readVoices ts') (readVoices (Token.dropComments ts)) := by
    obtain ⟨lead, rfl | rfl, hbare⟩ := h
    · exact hlike (hmap.symm.trans hbare)
    · obtain ⟨k, ks, hts, hk, hks⟩ := List.map_eq_cons_iff.1 (hmap.symm.trans hbare)
      rw [hts, readVoices_newline hk]
      exact hlike hks
  refine ((readVoices_dropComments hts hends).trans hsame.symm).mono fun vs vs' hvs => ?_
  obtain ⟨_, rfl, hvs⟩ := hvs
  exact hvs

end

/-! ## The fields of the header -/

/-- Without the comments the nodes of the header are those other than comments. -/
theorem mapM_headerNode_dropComments (ts : List Token) :
    (Token.dropComments ts).mapM headerNode = (ts.mapM headerNode).map Node.dropComments := by
  refine mapM_filter (fun k n hn => ?_) (fun k hk => ?_) ts
  · unfold headerNode at hn
    split at hn
    next text hl => cases hn; rw [hl]; rfl
    next text hl => cases hn; rw [hl]; rfl
    next text hl => cases hn; rw [hl]; rfl
    next => cases hn
  · obtain ⟨text, hl⟩ := Lexeme.exists_of_isComment (by simpa using hk)
    exact ⟨k.node (.comment text), by rw [headerNode, hl]⟩

/-- Comments do not matter to the texts of the fields. -/
theorem headerFields_dropComments (fields : List Node) :
    (Node.unread .header (Node.dropComments fields)).headerFields =
      (Node.unread .header fields).headerFields := by
  have htexts : ((Node.dropComments fields).filterMap fun n => n.label.fieldText?) =
      fields.filterMap fun n => n.label.fieldText? := by
    unfold Node.dropComments
    rw [List.filterMap_filter]
    refine List.filterMap_congr fun n _ => ?_
    cases n.label <;> rfl
  unfold Node.headerFields Node.fields
  exact congrArg (fun texts : List Text => (texts.mapM _ >>= _ : Except CompileError Fields)) htexts

/-- Headers with plainly the same lexemes other than comments have the same fields. -/
theorem headerFields_uncommented {ts ts' : List Token}
    (h : (dropComments (ts.map Token.bare)).map plainEntry =
      (ts'.map Token.bare).map plainEntry) :
    Agrees (fun fields fields' => (Node.unread .header fields).headerFields =
        (Node.unread .header fields').headerFields)
      (ts.mapM headerNode) (ts'.mapM headerNode) := by
  have hmap : dropComments (ts.map Token.bare) = (Token.dropComments ts).map Token.bare :=
    List.filter_map
  rw [hmap, List.map_map, List.map_map] at h
  have hlike : List.Forall₂ Token.Like (Token.dropComments ts) ts' :=
    (map_eq_iff_forall₂.1 h).imp fun k k' hk => Prod.mk.inj hk
  have hread := Agrees.mapM hlike fun k k' hk => headerNode_like hk
  rw [mapM_headerNode_dropComments] at hread
  refine hread.of_map.mono fun fields fields' hfields => ?_
  rw [← headerFields_dropComments, headerFields_like hfields]

/-! ## The song -/

/-- Voices that are alike are compiled to the same. -/
theorem Compiler.voice_congr (c : Compiler) {p p' : VoiceParts} (h : p.Like False p') :
    c.voice p.elements p.lyrics = c.voice p'.elements p'.lyrics := by
  have hlabels := map_label_eq h.elements
  have horder : expand p.elements = expand p'.elements := expandFrom_congr hlabels _ _
  have hempty : p.lyrics.isEmpty = p'.lyrics.isEmpty := by
    have hmap := h.lyrics.isEmpty_eq
    rwa [List.isEmpty_map, List.isEmpty_map] at hmap
  have htimeline (expressions : List Music) (order : List Nat) :
      lyricTimeline p.elements p.lyrics expressions order =
        lyricTimeline p'.elements p'.lyrics expressions order :=
    lyricTimeline_congr hlabels (align_unspread not_false h.lyrics _) order
  unfold voice
  rw [c.compileVoice_unplaced h.elements, horder, hempty]
  simp only [htimeline]

/-- Bodies with voices that are alike are compiled to the same. -/
theorem Song.ofBody_congr (c : Compiler) {body body' : Option Node}
    (h : VoicesLike False ((body.map Node.voiceParts).getD [])
      ((body'.map Node.voiceParts).getD [])) : Song.ofBody c body = Song.ofBody c body' := by
  unfold Song.ofBody
  rw [mapM_congr_forall₂ h]
  rintro ⟨name, p⟩ ⟨name', p'⟩ ⟨hname, hparts⟩
  obtain rfl : name = name' := hname
  dsimp only
  rw [c.voice_congr hparts]

/-- Documents with the same fields and with voices that are alike are compiled to the same. -/
theorem Song.ofDocument_congr {fields fields' bodies bodies' : List Node}
    (hfields : (Node.unread .header fields).headerFields =
      (Node.unread .header fields').headerFields)
    (hvoices : VoicesLike False (firstVoices (.unread .header fields :: bodies))
      (firstVoices (.unread .header fields' :: bodies'))) (instrument : Instrument) :
    Song.ofDocument (.unread .document (.unread .header fields :: bodies)) instrument =
      Song.ofDocument (.unread .document (.unread .header fields' :: bodies')) instrument := by
  have hheader (fields bodies : List Node) :
      (Node.unread .document (.unread .header fields :: bodies)).first? .header =
        some (.unread .header fields) := rfl
  unfold Song.ofDocument
  rw [hheader, hheader]
  dsimp only
  rw [hfields]
  simp only [Song.ofBody_congr _ hvoices]

/-! ## Reading a source -/

/-- Lexemes of the header and those after it, taken apart. -/
theorem span_bare {header body : List Token} (hh : ∀ k ∈ header, k.region = .header)
    (hb : ∀ k ∈ body, k.region ≠ .header) :
    ((header ++ body).map Token.bare).takeWhile inHeader = header.map Token.bare ∧
      ((header ++ body).map Token.bare).dropWhile inHeader = body.map Token.bare := by
  have hspan := span_header hh hb
  rw [List.span_eq_takeWhile_dropWhile] at hspan
  obtain ⟨hfront, hrest⟩ := Prod.mk.inj hspan
  have hregion : inHeader ∘ Token.bare = fun k => decide (k.region = .header) := rfl
  rw [List.takeWhile_map, List.dropWhile_map, hregion, hfront, hrest]
  exact ⟨rfl, rfl⟩

/-- The tokens of a source and the stages of reading them. -/
theorem readTune_stages (source : Text) : ∃ header body : List Token,
    (lex .header source).takeWhile inHeader = header.map Token.bare ∧
      (lex .header source).dropWhile inHeader = body.map Token.bare ∧
      IsBody body ∧ body.IsChain Token.EndsLine ∧
      readTune source = readBodies body >>= fun bodies => header.mapM headerNode >>= fun fields =>
        .ok (.unread .document (.unread .header fields :: bodies)) := by
  obtain ⟨header, body, ht, hheader, hbody⟩ := exists_isBody source
  have hregion := fun k hk => (hheader k hk).2
  have hlex : lex .header source = (header ++ body).map Token.bare := congrArg (List.map _) ht
  obtain ⟨hfront, hrest⟩ := span_bare hregion hbody.region
  rw [← hlex] at hfront hrest
  have hchain : (header ++ body).IsChain Token.EndsLine := ht ▸ tokensFrom_comments .header 0 source
  refine ⟨header, body, hfront, hrest, hbody, hchain.suffix (List.suffix_append _ _), ?_⟩
  rw [readTune_eq ht hregion hbody.region, ← bind_assoc]
  rfl

/-- The documents of a source and of the source without its comments are compiled to the same. -/
theorem readTune_uncommented (t : Text) (instrument : Instrument) :
    Agrees (fun d d' => Song.ofDocument d instrument = Song.ofDocument d' instrument)
      (readTune t) (readTune t.uncommented) := by
  obtain ⟨header, body, hheader, hrest, hbody, hends, hread⟩ := readTune_stages t
  obtain ⟨header', body', hheader', hrest', hbody', -, hread'⟩ := readTune_stages t.uncommented
  obtain ⟨hfields, hvoices⟩ := uncommented_header t
  rw [hheader, hheader'] at hfields
  rw [hrest, hrest'] at hvoices
  -- The bodies agree as far as their voices do.
  have hbodies := ((readBodies_voices body).trans
    (readVoices_uncommented hbody hends hbody' hvoices)).trans (readBodies_voices body').symm
  rw [hread, hread']
  refine hbodies.bind fun bodies bodies' ⟨vs', ⟨vs, hvs, hlike⟩, hvs'⟩ => ?_
  refine (headerFields_uncommented hfields).bind fun fields fields' hf => .ok ?_
  refine (Song.ofDocument_congr hf.symm ?_ instrument).symm
  rw [hvs fields, hvs' fields']
  exact hlike

/-- Documents that are compiled to the same make the same song. -/
theorem Song.read_congr {t t' : Text} (instrument : Instrument)
    (h : Agrees (fun d d' => ofDocument d instrument = ofDocument d' instrument)
      (readTune t) (readTune t')) :
    Song.read t instrument = Song.read t' instrument ∨
      ∃ e e', Song.read t instrument = .error (.source e) ∧
        Song.read t' instrument = .error (.source e') := by
  unfold Song.read
  generalize readTune t = x, readTune t' = y at h
  cases h with
  | ok h => exact .inl (congrArg (Except.mapError SongError.compile) h)
  | error e e' => exact .inr ⟨e, e', rfl, rfl⟩

/-- Errors of the same kind: both are found in the source, or they are the same. -/
def SongError.Alike : SongError → SongError → Prop
  | .source _, .source _ => True
  | e, e' => e = e'

/-- An error is of the same kind as itself. -/
theorem SongError.Alike.refl (e : SongError) : e.Alike e := by
  cases e <;> trivial

/-- Comments are neutral: a source and the source without its comments are read as the same song,
or neither is read and the errors are of the same kind. -/
theorem Song.read_uncommented (t : Text) (instrument : Instrument) :
    (∀ song, Song.read t instrument = .ok song ↔ Song.read t.uncommented instrument = .ok song) ∧
      ∀ e, Song.read t instrument = .error e →
        ∃ e', Song.read t.uncommented instrument = .error e' ∧ e.Alike e' := by
  rcases Song.read_congr instrument (readTune_uncommented t instrument) with
    hsame | ⟨e, e', he, he'⟩
  · rw [hsame]
    exact ⟨fun song => Iff.rfl, fun e he => ⟨e, he, .refl e⟩⟩
  · rw [he, he']
    refine ⟨fun song => ⟨nofun, nofun⟩, ?_⟩
    rintro _ ⟨⟩
    exact ⟨_, rfl, trivial⟩

end SingAlong
