import NdsDevkit.Tokenizer.Runs

namespace NdsDevkit.Tokenizer

open Framework Text NdsUnicode61Cursor

namespace NdsUnicode61Cursor

variable {fresh : Nat → Nat → UInt8} {table : UnicharDecompositionTable} {module : NdsUnicode61}
  {cursor : NdsUnicode61Cursor} {off : Nat} {clean : Bool} {p : Piece} {ps : List Piece}

theorem nextBody_end (h : cursor.isEnd = true) :
    nextBody fresh table module cursor = .exit ⟨sqliteDone, none, cursor⟩ := by
  simp [nextBody, h]

theorem nextBody_read (h : cursor.isEnd = false) (hstate : cursor.state ≠ .unknown) :
    nextBody fresh table module cursor = readToken fresh table module cursor := by
  simp [nextBody, h, hstate]

/-- The cursor stands at the pieces and no bigram is under way. -/
structure Placed (module : NdsUnicode61) (cursor : NdsUnicode61Cursor) (ps : List Piece)
    (clean : Bool) : Prop where
  stands : ∃ off, cursor.Stands module off ps clean
  state : cursor.state = stateAt module ps
  clean_of_nil : ps = [] → clean = true

theorem Placed.index_succ (h : cursor.Placed module ps clean) :
    ({ cursor with index := cursor.index + 1 } : NdsUnicode61Cursor).Placed module ps clean := by
  obtain ⟨⟨off, hs⟩, hstate, hclean⟩ := h
  exact ⟨⟨off, hs.congr rfl rfl rfl rfl⟩, hstate, hclean⟩

theorem stateAt_of_token (h : p.kind module ≠ .separator) (ps : List Piece) :
    stateAt module (p :: ps) = if isBigrammable p.base.1 then .bigramStart else .latin := by
  rw [stateAt]
  cases hkind : p.kind module with
  | separator => exact absurd hkind h
  | latin => simp [(kind_latin.mp hkind).2]
  | bigram => simp [(kind_bigram.mp hkind).2]

/-- A pass that looks for the next token. -/
theorem nextBody_seek (fresh : Nat → Nat → UInt8) (table : UnicharDecompositionTable)
    (module : NdsUnicode61) {l : Chars} (h : cursor.Left off l clean)
    (hstate : cursor.state = .unknown) (hend : cursor.isEnd = false) :
    (behindSeparators module (pieces module off l) = [] ∧ ∃ r,
      nextBody fresh table module cursor = .exit r ∧
        r.code = if clean then sqliteDone else sqliteError) ∨
    ∃ cursor', cursor'.Placed module (behindSeparators module (pieces module off l)) clean ∧
      behindSeparators module (pieces module off l) ≠ [] ∧ cursor'.index = cursor.index ∧
      cursor'.token = cursor.token ∧
      (∃ cursor1, seekTokenStart module cursor = (true, cursor1) ∧ cursor1.isEnd = false ∧
        cursor' = { cursor1 with
          state := if isBigrammable cursor1.currentCharacter then .bigramStart else .latin }) ∧
      nextBody fresh table module cursor = nextBody fresh table module cursor' := by
  obtain ⟨cursor1, off1, hseek, hstands, hmoved, htoken⟩ :=
    seekTokenStart_spec module h fun _ => hend
  have hfirst : ∀ q ∈ (behindSeparators module (pieces module off l)).head?,
      q.kind module ≠ .separator := by
    intro q hq
    have hnot := List.head?_dropWhile_not (fun q => decide (q.kind module = .separator))
      (pieces module off l)
    unfold behindSeparators at hq
    rw [hq] at hnot
    simpa using hnot
  generalize behindSeparators module (pieces module off l) = rest at hseek hstands hfirst
  cases rest with
  | nil =>
    refine .inl ⟨rfl, ?_⟩
    have hisEnd := hstands.nil.place.2
    cases clean with
    | false =>
      exact ⟨⟨sqliteError, none, cursor1⟩, by simp [nextBody, hend, hstate, hseek], rfl⟩
    | true =>
      exact ⟨⟨sqliteDone, none, cursor1⟩, by simp [nextBody, hend, hstate, hseek, hisEnd], rfl⟩
  | cons q qs =>
    obtain ⟨_, _, hchar, hisEnd⟩ := hstands.cons
    have hq := hfirst q (by simp)
    have hstateAt := stateAt_of_token hq qs
    refine .inr ⟨{ cursor1 with state := stateAt module (q :: qs) },
      ⟨⟨off1, hstands.congr rfl rfl rfl rfl⟩, rfl, by simp⟩, by simp, hmoved.index, htoken,
      ⟨cursor1, by simpa using hseek, hisEnd, by rw [hstateAt, hchar]⟩, ?_⟩
    have hisEnd' : ({ cursor1 with state := stateAt module (q :: qs) } :
        NdsUnicode61Cursor).isEnd = false := hisEnd
    have hne : stateAt module (q :: qs) ≠ .unknown := by
      rw [hstateAt]
      split <;> simp
    rw [nextBody_read hisEnd' hne]
    simp [nextBody, hend, hstate, hseek, hisEnd, hstateAt, hchar]

/-- A pass that reads a Latin token. -/
theorem nextBody_latin (fresh : Nat → Nat → UInt8) (table : UnicharDecompositionTable)
    {k : Piece} {run rest : List Piece}
    (h : cursor.Placed module (k :: run ++ rest) clean)
    (hrun : IsRun (Piece.kind module) .latin (k :: run) rest) :
    (rest = [] ∧ clean = false ∧
      ∃ r, nextBody fresh table module cursor = .exit r ∧ r.code = sqliteError) ∨
    ∃ text cursor', nextBody fresh table module cursor =
        .exit (report text k.start (runEnd k.start (k :: run)) cursor') ∧
      cursor'.index = cursor.index ∧ text.length = clusterSize table module (k :: run) ∧
      (cursor.token.Exact → text = clusterText table module (k :: run) ∧ cursor'.token.Exact) ∧
      cursor'.Placed module rest clean := by
  obtain ⟨⟨off, hstands⟩, hstate, _⟩ := h
  obtain ⟨hcurrent, rfl, _, hisEnd⟩ := hstands.cons
  have hlatin : cursor.state = .latin := by
    rw [hstate, List.cons_append, stateAt, hrun.same k List.mem_cons_self]
  rw [nextBody_read hisEnd (by simp [hlatin])]
  rw [readToken]
  rw [if_pos hlatin]
  rcases nextLatin_spec fresh table hstands hrun with
    ⟨hrest, hclean, cursor', hnext⟩ |
    ⟨cursor', hnext, hle, hclean, hstands', hstate', hindex, htext⟩
  · exact .inl ⟨hrest, hclean, ⟨sqliteError, none, cursor'⟩,
      by simp [hnext, sqliteOk, sqliteError], rfl⟩
  · refine .inr ⟨cursor'.token.getBuffer, cursor', ?_, hindex, by simp [htext.size],
      htext.of_flush, ⟨⟨_, hstands'⟩, hstate', hclean⟩⟩
    simp only [hnext, hcurrent, offset, Option.getD_some, ne_eq, not_true_eq_false, if_false]
    rw [Nat.add_sub_cancel' hle]

/-- A bigram has been reported; its second cluster is still in the token buffer. -/
structure InBigram (table : UnicharDecompositionTable) (module : NdsUnicode61)
    (cursor : NdsUnicode61Cursor) (k : Piece) (ps : List Piece) (clean : Bool) : Prop where
  stands : ∃ off, cursor.Stands module off ps clean
  state : cursor.state = .bigram
  offset2 : cursor.bigramOffset2 = k.start
  size : cursor.token.size = cursor.bigramFirstCharSize + clusterSize table module [k]
  clean_of_nil : ps = [] → clean = true

theorem InBigram.index_succ {k : Piece} (h : InBigram table module cursor k ps clean) :
    InBigram table module { cursor with index := cursor.index + 1 } k ps clean := by
  obtain ⟨⟨off, hs⟩, hstate, hoff, hsize, hclean⟩ := h
  exact ⟨⟨off, hs.congr rfl rfl rfl rfl⟩, hstate, hoff, hsize, hclean⟩

/-- The end of the token buffer is the text of the cluster `k`. -/
def Trails (table : UnicharDecompositionTable) (module : NdsUnicode61)
    (cursor : NdsUnicode61Cursor) (k : Piece) : Prop :=
  cursor.token.Exact ∧
    cursor.token.getBuffer.drop cursor.bigramFirstCharSize = clusterText table module [k]

/-- Whether a run of bigrammable clusters goes on. -/
def continues (module : NdsUnicode61) (ps : List Piece) : Bool :=
  ps.head?.any fun q => q.kind module = .bigram

theorem continues_cases (module : NdsUnicode61) (ps : List Piece) :
    (continues module ps = false ∧ ∀ q ∈ ps.head?, q.kind module ≠ .bigram) ∨
      ∃ q qs, ps = q :: qs ∧ q.kind module = .bigram := by
  rw [continues]
  cases ps with
  | nil => exact .inl ⟨rfl, by simp⟩
  | cons q qs =>
    by_cases hq : q.kind module = .bigram
    · exact .inr ⟨q, qs, rfl, hq⟩
    · exact .inl ⟨by simpa using hq, by simpa using hq⟩

theorem lastBigram_eq (h : cursor.Stands module off ps clean) (hnil : ps = [] → clean = true) :
    lastBigram module cursor = !continues module ps := by
  rw [lastBigram, continues]
  cases ps with
  | nil => simp [h.nil.place.2, hnil rfl]
  | cons q qs =>
    obtain ⟨_, _, hchar, hisEnd⟩ := h.cons
    rw [hisEnd, hchar]
    cases ht : module.isTokenChar q.base.1 <;> cases hb : isBigrammable q.base.1 <;>
      simp [Piece.kind, ht, hb]

theorem offset_current (h : cursor.Stands module off ps clean) (hnil : ps = [] → clean = true) :
    offset cursor.current = off := by
  cases ps with
  | nil =>
    have hend := h.nil
    rw [hnil rfl] at hend
    rw [hend.current_end]
    rfl
  | cons q qs =>
    rw [h.cons.1]
    rfl

theorem readToken_again {cursor' : NdsUnicode61Cursor} (hstate : cursor.state ≠ .latin)
    (h : nextBigram fresh table module cursor = (sqliteOk, false, cursor')) :
    readToken fresh table module cursor = .again cursor' := by
  simp [readToken, hstate, h]

theorem readToken_bigram {cursor' : NdsUnicode61Cursor} (hstate : cursor.state ≠ .latin)
    (h : nextBigram fresh table module cursor = (sqliteOk, true, cursor'))
    (hstands : cursor'.Stands module off ps clean) (hclean : ps = [] → clean = true) :
    readToken fresh table module cursor =
      .exit (report cursor'.token.getBuffer cursor'.bigramOffset1
        (if continues module ps then cursor'.bigramOffset2 else off) cursor') := by
  have hlast := lastBigram_eq hstands hclean
  have hcurrent := offset_current hstands hclean
  cases hcont : continues module ps <;> simp [readToken, hstate, h, hlast, hcurrent, hcont]

/-- The failure of a first cluster is taken for a success without a token, again and again. -/
theorem Stuck.diverges_start (h : cursor.Stuck module .bigramStart) :
    Diverges (nextBody fresh table module) cursor := by
  refine diverges_of_closed (fun cursor => cursor.Stuck module .bigramStart) ?_ h
  intro cursor ⟨⟨off, hstands⟩, hstate⟩
  have hflushed : ({ cursor with
      token := cursor.token.flush, bigramOffset1 := offset cursor.current } :
        NdsUnicode61Cursor).Stands module off [] false := hstands.congr rfl rfl rfl rfl
  obtain ⟨cursor', hacc, hstands', hmoved, _⟩ := hflushed.accumulate_stuck fresh table
  refine ⟨cursor', ?_, ⟨off, hstands'⟩, hmoved.state.trans hstate⟩
  rw [nextBody_read hstands.nil.place.2 (by simp [hstate])]
  refine readToken_again (by simp [hstate]) ?_
  rw [nextBigram, firstOfBigram]
  rw [if_pos hstate, hacc]
  rfl

/-- The first part in a run: the last cluster becomes the first one. -/
def shifted (cursor : NdsUnicode61Cursor) : NdsUnicode61Cursor :=
  let token := cursor.token.popFront cursor.bigramFirstCharSize
  { cursor with token, bigramFirstCharSize := token.getSize, bigramOffset1 := cursor.bigramOffset2 }

/-- Only the text of the last cluster is left. -/
theorem Trails.shifted {k : Piece} (h : Trails table module cursor k) :
    cursor.shifted.token.Exact ∧ cursor.shifted.token.getBuffer = clusterText table module [k] := by
  refine ⟨h.1.popFront _, ?_⟩
  rw [NdsUnicode61Cursor.shifted]
  rw [StringBuffer.popFront_getBuffer, h.2]

theorem nextBigram_shifted (fresh : Nat → Nat → UInt8) (table : UnicharDecompositionTable)
    (module : NdsUnicode61) (hstate : cursor.state = .bigram) :
    nextBigram fresh table module cursor =
      secondOfBigram fresh table module cursor.shifted := by
  simp [nextBigram, firstOfBigram, hstate, shifted]

/-- The same with a later cluster, if its last character still looks like one. -/
theorem Stuck.diverges_bigram (h : cursor.Stuck module .bigram)
    (hchar : (module.isTokenChar cursor.currentCharacter &&
      isBigrammable cursor.currentCharacter) = true) :
    Diverges (nextBody fresh table module) cursor := by
  refine diverges_of_closed (fun cursor => cursor.Stuck module .bigram ∧
    (module.isTokenChar cursor.currentCharacter &&
      isBigrammable cursor.currentCharacter) = true) ?_ ⟨h, hchar⟩
  intro cursor ⟨⟨⟨off, hstands⟩, hstate⟩, hchar⟩
  have hmarked : ({ cursor.shifted with bigramOffset2 := offset cursor.shifted.current } :
      NdsUnicode61Cursor).Stands module off [] false := hstands.congr rfl rfl rfl rfl
  obtain ⟨cursor', hacc, hstands', hmoved, hsame⟩ := hmarked.accumulate_stuck fresh table
  refine ⟨cursor', ?_, ⟨⟨off, hstands'⟩, hmoved.state.trans hstate⟩, by rw [hsame]; exact hchar⟩
  rw [nextBody_read hstands.nil.place.2 (by simp [hstate])]
  refine readToken_again (by simp [hstate]) ?_
  have hisEnd : cursor.shifted.isEnd = false := hstands.nil.place.2
  rw [nextBigram_shifted fresh table module hstate]
  rw [secondOfBigram]
  simp only [hisEnd, Bool.not_false, if_true]
  rw [if_pos (by simpa [shifted] using hchar), hacc]
  rfl

/-- A Latin token does not begin where nothing more can be decoded. -/
theorem nextBody_latin_stuck (fresh : Nat → Nat → UInt8) (table : UnicharDecompositionTable)
    (h : cursor.Stuck module .latin) :
    ∃ r, nextBody fresh table module cursor = .exit r ∧ r.code = sqliteError := by
  obtain ⟨⟨off, hstands⟩, hstate⟩ := h
  have hflushed : ({ cursor with token := cursor.token.flush } : NdsUnicode61Cursor).Stands module
      off [] false := hstands.congr rfl rfl rfl rfl
  obtain ⟨cursor', hacc, _⟩ := hflushed.accumulate_stuck fresh table
  refine ⟨⟨sqliteError, none, cursor'⟩, ?_, rfl⟩
  rw [nextBody_read hstands.nil.place.2 (by simp [hstate])]
  rw [readToken, nextLatin]
  rw [if_pos hstate, hacc]
  rfl

/-- A later cluster of a run that cannot be decoded to its end. -/
theorem Stuck.serves {exact : Prop} {ss : List Segment} (h : cursor.Stuck module .bigram) :
    Serves fresh table module cursor exact ss false
      (module.isTokenChar cursor.currentCharacter && isBigrammable cursor.currentCharacter) := by
  cases hchar : module.isTokenChar cursor.currentCharacter &&
      isBigrammable cursor.currentCharacter with
  | true => exact .hang (h.diverges_bigram hchar)
  | false =>
    obtain ⟨⟨off, hstands⟩, hstate⟩ := h
    have hisEnd : cursor.shifted.isEnd = false := hstands.nil.place.2
    have hleave : nextBigram fresh table module cursor = (sqliteOk, false,
        { cursor.shifted with
          state := if !module.isTokenChar cursor.currentCharacter then .unknown else .latin }) := by
      rw [nextBigram_shifted fresh table module hstate]
      rw [secondOfBigram]
      simp only [hisEnd, Bool.not_false, if_true]
      rw [if_neg (by simpa [shifted] using hchar)]
      simp [shifted, hstate]
    have hbody := readToken_again (by simp [hstate]) hleave
    rw [← nextBody_read hstands.nil.place.2 (by simp [hstate])] at hbody
    refine Serves.of_again hbody rfl id ?_
    cases htoken : module.isTokenChar cursor.currentCharacter with
    | true =>
      have hstuck : Stuck module ({ cursor.shifted with state := .latin } : NdsUnicode61Cursor)
          .latin := ⟨⟨off, hstands.congr rfl rfl rfl rfl⟩, rfl⟩
      obtain ⟨r, hr, hcode⟩ := nextBody_latin_stuck fresh table hstuck
      exact .error hr hcode
    | false =>
      have hleft : Left ({ cursor.shifted with state := .unknown } : NdsUnicode61Cursor) off []
          false := ⟨hstands.nil.nonempty, hstands.nil.place.1, hstands.nil.rest⟩
      rcases nextBody_seek fresh table module hleft rfl hisEnd with
        ⟨_, r, hr, hcode⟩ | ⟨_, _, hne, _⟩
      · exact .error hr hcode
      · exact absurd (by simp [behindSeparators]) hne

/-- A pass whose first part has left the cluster `k` in the buffer, at the next cluster. -/
theorem readToken_pair {cursor1 : NdsUnicode61Cursor} {k q : Piece} {qs : List Piece}
    (hstate : cursor.state ≠ .latin)
    (hnext : nextBigram fresh table module cursor = secondOfBigram fresh table module cursor1)
    (hstands : cursor1.Stands module off (q :: qs) clean) (hq : q.kind module = .bigram)
    (hsize : cursor1.token.size = clusterSize table module [k])
    (hfirst : cursor1.bigramFirstCharSize = clusterSize table module [k]) :
    (qs = [] ∧ clean = false ∧ ∃ cursor', readToken fresh table module cursor = .again cursor' ∧
      Stuck module cursor' cursor1.state ∧ cursor'.index = cursor1.index ∧
      cursor'.currentCharacter = q.last) ∨
    ∃ text cursor', readToken fresh table module cursor =
        .exit (report text cursor1.bigramOffset1
          (if continues module qs then q.start else q.stop) cursor') ∧
      cursor'.index = cursor1.index ∧ text.length = clusterSize table module [k, q] ∧
      (cursor1.token.Exact → cursor1.token.getBuffer = clusterText table module [k] →
        text = clusterText table module [k, q] ∧ Trails table module cursor' q) ∧
      InBigram table module cursor' q qs clean := by
  rcases secondOfBigram_enter fresh table hstands hq with
    ⟨hnil, hclean, cursor', hsecond, hstuck, hindex, hlast⟩ |
    ⟨cursor', hsecond, hclean, hstands', hstate', hindex, hfirst', hoffset1, hoffset2, htext⟩
  · exact .inl ⟨hnil, hclean, cursor', readToken_again hstate (hnext.trans hsecond), hstuck,
      hindex, hlast⟩
  · have hsize' := htext.size
    rw [length_clusterText] at hsize'
    refine .inr ⟨cursor'.token.getBuffer, cursor', ?_, hindex, ?_, ?_, ⟨_, hstands'⟩, hstate',
      hoffset2, ?_, hclean⟩
    · rw [readToken_bigram hstate (hnext.trans hsecond) hstands' hclean, hoffset1, hoffset2]
    · rw [StringBuffer.length_getBuffer, hsize', hsize, clusterSize_cons k [q]]
    · intro hexact hbuffer
      obtain ⟨hexact', hbuffer'⟩ := htext.exact hexact
      rw [hbuffer] at hbuffer'
      refine ⟨by rw [hbuffer', clusterText_cons k [q]], hexact', ?_⟩
      rw [hbuffer', hfirst', hfirst, ← length_clusterText, List.drop_left]
    · rw [hsize', hsize, hfirst', hfirst]

/-- A pass at the first cluster of a run. -/
theorem nextBody_bigramStart (fresh : Nat → Nat → UInt8) (table : UnicharDecompositionTable)
    (h : cursor.Placed module (p :: ps) clean)
    (hp : p.kind module = .bigram) :
    (clean = false ∧ (ps = [] ∨ ∃ q, ps = [q] ∧ q.kind module = .bigram) ∧
      Diverges (nextBody fresh table module) cursor) ∨
    (∃ text cursor', (∀ q ∈ ps.head?, q.kind module ≠ .bigram) ∧
      nextBody fresh table module cursor = .exit (report text p.start p.stop cursor') ∧
      cursor'.index = cursor.index ∧ text.length = clusterSize table module [p] ∧
      (cursor.token.Exact → text = clusterText table module [p] ∧ cursor'.token.Exact) ∧
      cursor'.Placed module ps clean) ∨
    ∃ q qs text cursor', ps = q :: qs ∧ q.kind module = .bigram ∧
      nextBody fresh table module cursor =
        .exit (report text p.start (if continues module qs then q.start else q.stop) cursor') ∧
      cursor'.index = cursor.index ∧ text.length = clusterSize table module [p, q] ∧
      (cursor.token.Exact →
        text = clusterText table module [p, q] ∧ Trails table module cursor' q) ∧
      InBigram table module cursor' q qs clean := by
  obtain ⟨⟨off, hstands⟩, hstate, _⟩ := h
  have hstart : cursor.state = .bigramStart := by
    rw [hstate, stateAt, hp]
  have hlatin : cursor.state ≠ .latin := by simp [hstart]
  have hbody : nextBody fresh table module cursor = readToken fresh table module cursor :=
    nextBody_read hstands.cons.2.2.2 (by simp [hstart])
  rw [hbody]
  rcases firstOfBigram_start fresh table hstands hp hstart with
    ⟨hnil, hclean, cursor1, hfirst, hstuck⟩ |
    ⟨cursor1, hfirst, hclean, hstands1, hstate1, hindex1, hfirstSize, hoffset1, htext1⟩
  · have hfailed : nextBigram fresh table module cursor = (sqliteOk, false, cursor1) := by
      rw [nextBigram, hfirst]
      rfl
    exact .inl ⟨hclean, .inl hnil,
      .of_again (hbody.trans (readToken_again hlatin hfailed)) hstuck.diverges_start⟩
  have hnext : nextBigram fresh table module cursor =
      secondOfBigram fresh table module cursor1 := by
    rw [nextBigram, hfirst]
  have hsize1 : cursor1.token.size = clusterSize table module [p] := by
    rw [htext1.size]
    simp
  rcases continues_cases module ps with ⟨hcont, hps⟩ | ⟨q, qs, rfl, hq⟩
  · -- a lone cluster
    have hleave := secondOfBigram_leave fresh table hstands1 hps hclean
    rw [hstate1, decide_eq_true rfl, ← hnext] at hleave
    have hstands2 : ({ cursor1 with state := stateAt module ps } : NdsUnicode61Cursor).Stands module
        p.stop ps clean := hstands1.congr rfl rfl rfl rfl
    refine .inr (.inl ⟨cursor1.token.getBuffer, { cursor1 with state := stateAt module ps }, hps,
      ?_, hindex1, by simp [hsize1], htext1.of_flush, ⟨_, hstands2⟩, rfl, hclean⟩)
    rw [readToken_bigram hlatin hleave hstands2 hclean, hcont, ← hoffset1]
    rfl
  · rcases readToken_pair hlatin hnext hstands1 hq hsize1 hfirstSize with
      ⟨rfl, hclean', cursor2, hagain, hstuck, _, _⟩ |
      ⟨text, cursor2, hexit, hindex2, hsize2, htext2, hin⟩
    · rw [hstate1] at hstuck
      exact .inl ⟨hclean', .inr ⟨q, rfl, hq⟩, .of_again (hbody.trans hagain) hstuck.diverges_start⟩
    · rw [hoffset1] at hexit
      refine .inr (.inr ⟨q, qs, text, cursor2, rfl, hq, hexit, hindex2.trans hindex1, hsize2, ?_,
        hin⟩)
      intro hexact
      obtain ⟨hbuffer1, hexact1⟩ := htext1.of_flush hexact
      exact htext2 hexact1 hbuffer1

/-- A pass inside a run. -/
theorem nextBody_bigram (fresh : Nat → Nat → UInt8) {k q : Piece} {qs : List Piece}
    (h : InBigram table module cursor k (q :: qs) clean) :
    (q.kind module ≠ .bigram ∧ ∃ cursor', nextBody fresh table module cursor = .again cursor' ∧
      cursor'.index = cursor.index ∧ (Trails table module cursor k → cursor'.token.Exact) ∧
      cursor'.Placed module (q :: qs) clean) ∨
    (q.kind module = .bigram ∧ qs = [] ∧ clean = false ∧
      ∃ cursor', nextBody fresh table module cursor = .again cursor' ∧
        cursor'.index = cursor.index ∧
        Stuck module cursor' .bigram ∧ cursor'.currentCharacter = q.last) ∨
    (q.kind module = .bigram ∧ ∃ text cursor',
      nextBody fresh table module cursor =
        .exit (report text k.start (if continues module qs then q.start else q.stop) cursor') ∧
      cursor'.index = cursor.index ∧ text.length = clusterSize table module [k, q] ∧
      (Trails table module cursor k →
        text = clusterText table module [k, q] ∧ Trails table module cursor' q) ∧
      InBigram table module cursor' q qs clean) := by
  obtain ⟨⟨off, hstands⟩, hstate, hoffset2, hsize, hclean⟩ := h
  have hlatin : cursor.state ≠ .latin := by simp [hstate]
  have hbody : nextBody fresh table module cursor = readToken fresh table module cursor :=
    nextBody_read hstands.cons.2.2.2 (by simp [hstate])
  have hnext := nextBigram_shifted fresh table module hstate
  have hstands1 : cursor.shifted.Stands module off (q :: qs) clean :=
    hstands.congr rfl rfl rfl rfl
  have hsize1 : cursor.shifted.token.size = clusterSize table module [k] := by
    simp [shifted, hsize]
  rw [hbody]
  by_cases hq : q.kind module = .bigram
  · have hstate1 : cursor.shifted.state = .bigram := hstate
    have hoffset1 : cursor.shifted.bigramOffset1 = k.start := hoffset2
    rcases readToken_pair hlatin hnext hstands1 hq hsize1 hsize1 with
      ⟨hnil, hclean', cursor2, hagain, hstuck, hindex2, hlast⟩ |
      ⟨text, cursor2, hexit, hindex2, hsize2, htext2, hin⟩
    · rw [hstate1] at hstuck
      exact .inr (.inl ⟨hq, hnil, hclean', cursor2, hagain, hindex2, hstuck, hlast⟩)
    · rw [hoffset1] at hexit
      refine .inr (.inr ⟨hq, text, cursor2, hexit, hindex2, hsize2, ?_, hin⟩)
      intro htrails
      exact htext2 htrails.shifted.1 htrails.shifted.2
  · have hleave := secondOfBigram_leave fresh table hstands1 (by simpa using hq) (by simp)
    refine .inl ⟨hq, { cursor.shifted with state := stateAt module (q :: qs) }, ?_, rfl,
      fun htrails => htrails.shifted.1, ⟨_, hstands1.congr rfl rfl rfl rfl⟩, rfl, by simp⟩
    refine readToken_again hlatin ?_
    rw [hnext, hleave]
    simp [shifted, hstate]

end NdsUnicode61Cursor

end NdsDevkit.Tokenizer
