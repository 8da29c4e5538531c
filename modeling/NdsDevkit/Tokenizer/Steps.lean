import NdsDevkit.Tokenizer.Segmentation

namespace NdsDevkit.Tokenizer

open Framework Text

variable {fresh : Nat → Nat → UInt8} {table : UnicharDecompositionTable} {module : NdsUnicode61}

/-- The number of bytes a list of pieces contributes to a token. -/
def clusterSize (table : UnicharDecompositionTable) (module : NdsUnicode61)
    (ks : List Piece) : Nat :=
  textSize table module (ks.flatMap Piece.chars)

@[simp] theorem clusterSize_nil : clusterSize table module [] = 0 := rfl

theorem clusterSize_cons (k : Piece) (ks : List Piece) : clusterSize table module (k :: ks) =
    clusterSize table module [k] + clusterSize table module ks := by
  simp [clusterSize, textSize_append]

/-- These bytes. -/
def clusterText (table : UnicharDecompositionTable) (module : NdsUnicode61)
    (ks : List Piece) : List UInt8 :=
  textBytes table module (ks.flatMap Piece.chars)

@[simp] theorem length_clusterText (ks : List Piece) :
    (clusterText table module ks).length = clusterSize table module ks :=
  length_textBytes _

theorem clusterText_cons (k : Piece) (ks : List Piece) : clusterText table module (k :: ks) =
    clusterText table module [k] ++ clusterText table module ks := by
  simp [clusterText]

theorem length_pieces_le (module : NdsUnicode61) (off : Nat) (l : Chars) :
    (pieces module off l).length ≤ l.length := by
  fun_induction pieces module off l with
  | case1 off => rfl
  | case2 off c l hc ih =>
    have hle := length_behindMarks_le l
    simp only [List.length_cons]
    omega
  | case3 off c l hc ih =>
    simp only [List.length_cons]
    omega

namespace NdsUnicode61Cursor

variable {cursor : NdsUnicode61Cursor} {off : Nat} {l : Chars} {clean : Bool} {p : Piece}
  {ps : List Piece}

/-- The cursor has tried to read on from an offset, and these pieces begin there. -/
def Stands (module : NdsUnicode61) (cursor : NdsUnicode61Cursor) (off : Nat) (ps : List Piece)
    (clean : Bool) : Prop :=
  ∃ l, cursor.Ahead off l clean ∧ pieces module off l = ps

/-- Only the input and the place in it matter. -/
theorem Stands.congr {cursor' : NdsUnicode61Cursor} (h : cursor.Stands module off ps clean)
    (hinput : cursor'.input = cursor.input) (hcurrent : cursor'.current = cursor.current)
    (hchar : cursor'.currentCharacter = cursor.currentCharacter)
    (hnext : cursor'.next = cursor.next) : cursor'.Stands module off ps clean := by
  obtain ⟨l, ⟨hne, hrest, hplace⟩, hps⟩ := h
  have hend : cursor'.isEnd = cursor.isEnd := by
    rw [isEnd, isEnd, inputEnd, inputEnd, hinput, hcurrent]
  refine ⟨l, ⟨by rwa [hinput], by rwa [hinput], ?_⟩, hps⟩
  cases l with
  | nil => rwa [hnext, hend]
  | cons c l => rwa [hcurrent, hchar, hnext]

theorem Stands.nil (h : cursor.Stands module off [] clean) : cursor.Ahead off [] clean := by
  obtain ⟨l, hahead, hps⟩ := h
  rwa [pieces_eq_nil.mp hps] at hahead

theorem Stands.cons (h : cursor.Stands module off (p :: ps) clean) :
    cursor.current = some off ∧ p.start = off ∧ cursor.currentCharacter = p.base.1 ∧
      cursor.isEnd = false := by
  obtain ⟨l, hahead, hps⟩ := h
  cases l with
  | nil =>
    rw [pieces_nil] at hps
    cases hps
  | cons c l =>
    obtain ⟨marks, rest, heq⟩ := pieces_cons module off c l
    rw [heq] at hps
    cases hps
    exact ⟨hahead.place.1, rfl, hahead.place.2.1, hahead.isEnd_cons⟩

theorem Stands.length_lt (h : cursor.Stands module off ps clean) :
    ps.length < cursor.input.length + 1 := by
  obtain ⟨l, hahead, hps⟩ := h
  have h1 := length_pieces_le module off l
  have h2 := hahead.rest.length_le
  rw [hps] at h1
  omega

/-- A cluster is added to the token. This fails where the input cannot be decoded behind it. -/
theorem Stands.accumulate (fresh : Nat → Nat → UInt8) (table : UnicharDecompositionTable)
    (h : cursor.Stands module off (p :: ps) clean) (hp : module.isTokenChar p.base.1 = true) :
    ∃ cursor', cursor'.Stands module p.stop ps clean ∧ Moved cursor cursor' ∧
      cursor.token.Appends cursor'.token (clusterText table module [p]) ∧
      ((accumulateTokenCharacter fresh table module cursor = (false, cursor') ∧ ps = [] ∧
          clean = false ∧ cursor'.currentCharacter = p.last) ∨
        (accumulateTokenCharacter fresh table module cursor = (true, cursor') ∧
          (ps = [] → clean = true))) := by
  obtain ⟨l, hahead, hps⟩ := h
  cases l with
  | nil =>
    rw [pieces_nil] at hps
    cases hps
  | cons c l =>
    have hc : module.isTokenChar c.1 = true := by
      obtain ⟨marks, rest, heq⟩ := pieces_cons module off c l
      rw [heq] at hps
      cases hps
      exact hp
    rw [pieces_cluster hc] at hps
    cases hps
    obtain ⟨cursor', hacc, hahead', hmoved, htext, hlast⟩ :=
      accumulateTokenCharacter_spec fresh table module hahead
    refine ⟨cursor', ⟨_, hahead', rfl⟩, hmoved, by simpa [clusterText, Piece.chars] using htext, ?_⟩
    rw [hacc, pieces_eq_nil]
    cases hb : behindMarks l with
    | nil =>
      cases clean with
      | true => exact .inr ⟨rfl, fun _ => rfl⟩
      | false => exact .inl ⟨rfl, rfl, rfl, hlast hb⟩
    | cons d ds => exact .inr ⟨by simp, by simp⟩

theorem skipSeparators_spec (module : NdsUnicode61) {n : Nat} (h : cursor.Left off l clean)
    (hend : clean = false → cursor.isEnd = false) (hn : l.length < n) :
    ∃ cursor' off', skipSeparators module n cursor =
        (!(behindSeparators module (pieces module off l)).isEmpty, cursor') ∧
      cursor'.Stands module off' (behindSeparators module (pieces module off l)) clean ∧
      Moved cursor cursor' ∧ cursor'.token = cursor.token := by
  induction n generalizing cursor off l with
  | zero => omega
  | succ n ih =>
    obtain ⟨cursor1, hget, hahead, hmoved, htoken, _⟩ := getNextChar_spec h hend
    rw [skipSeparators]
    rw [hget]
    cases l with
    | nil =>
      rw [pieces_nil]
      exact ⟨cursor1, off, rfl, ⟨[], hahead, pieces_nil off⟩, hmoved, htoken⟩
    | cons c l =>
      simp only [List.isEmpty_cons, Bool.not_false]
      rw [hahead.place.2.1]
      cases hc : module.isTokenChar c.1 with
      | true =>
        have hb : behindSeparators module (pieces module off (c :: l)) =
            pieces module off (c :: l) := by
          rw [pieces_cluster hc]
          simp [behindSeparators, kind_separator, hc]
        obtain ⟨marks, rest, heq⟩ := pieces_cons module off c l
        rw [hb]
        exact ⟨cursor1, off, by simp [heq], ⟨_, hahead, rfl⟩, hmoved, htoken⟩
      | false =>
        have hb : behindSeparators module (pieces module off (c :: l)) =
            behindSeparators module (pieces module (off + c.2) l) := by
          rw [pieces_separator hc]
          simp [behindSeparators, kind_separator, hc]
        rw [hb]
        obtain ⟨cursor2, off2, hskip, hstands, hmoved2, htoken2⟩ :=
          ih hahead.left (fun _ => hahead.isEnd_cons) (Nat.lt_of_succ_lt_succ hn)
        exact ⟨cursor2, off2, hskip, hstands, hmoved.trans hmoved2, htoken2.trans htoken⟩

theorem seekTokenStart_spec (module : NdsUnicode61) (h : cursor.Left off l clean)
    (hend : clean = false → cursor.isEnd = false) :
    ∃ cursor' off', seekTokenStart module cursor =
        (clean || !(behindSeparators module (pieces module off l)).isEmpty, cursor') ∧
      cursor'.Stands module off' (behindSeparators module (pieces module off l)) clean ∧
      Moved cursor cursor' ∧ cursor'.token = cursor.token := by
  have hlen := h.rest.length_le
  obtain ⟨cursor', off', hskip, hstands, hmoved, htoken⟩ :=
    skipSeparators_spec module (n := cursor.input.length + 1) h hend (by omega)
  refine ⟨cursor', off', ?_, hstands, hmoved, htoken⟩
  rw [seekTokenStart]
  rw [hskip]
  cases hb : behindSeparators module (pieces module off l) with
  | nil =>
    rw [hb] at hstands
    simp [hstands.nil.place.2]
  | cons p ps =>
    rw [hb] at hstands
    simp [hstands.cons.2.2.2]

/-- The rest of a Latin token. -/
theorem scanLatin_spec (fresh : Nat → Nat → UInt8) (table : UnicharDecompositionTable)
    {n : Nat} {run rest : List Piece}
    (h : cursor.Stands module off (run ++ rest) clean) (hrun : ∀ k ∈ run, k.kind module = .latin)
    (hrest : ∀ q ∈ rest.head?, q.kind module ≠ .latin) (hend : run ++ rest = [] → clean = true)
    (hn : run.length < n) :
    ∃ scan, scanLatin fresh table module n cursor = scan ∧
      scan.success = (clean || !rest.isEmpty) ∧
      (∀ q ∈ rest.head?, scan.currentIsSeparator = !module.isTokenChar q.base.1) ∧
      scan.cursor.Stands module (runEnd off run) rest clean ∧ off ≤ runEnd off run ∧
      Moved cursor scan.cursor ∧
      cursor.token.Appends scan.cursor.token (clusterText table module run) := by
  induction n generalizing cursor off run with
  | zero => omega
  | succ n ih =>
    refine ⟨_, rfl, ?_⟩
    rw [scanLatin]
    cases run with
    | nil =>
      rw [List.nil_append] at h hend
      cases rest with
      | nil =>
        have hclean := hend rfl
        rw [if_pos (by rw [h.nil.place.2, hclean])]
        exact ⟨by simp [hclean], by simp, h, Nat.le_refl _, Moved.refl cursor, .refl _⟩
      | cons q rest =>
        obtain ⟨_, _, hchar, hisEnd⟩ := h.cons
        have hnot : ¬ (!isBigrammable q.base.1 && !!module.isTokenChar q.base.1) = true := by
          have hq := hrest q (by simp)
          rw [ne_eq, kind_latin] at hq
          cases hb : isBigrammable q.base.1 <;> simp_all
        rw [if_neg (by rw [hisEnd]; simp), hchar, if_neg hnot]
        exact ⟨by simp, by simp, h, Nat.le_refl _, Moved.refl cursor, .refl _⟩
    | cons k run =>
      obtain ⟨_, hstart, hchar, hisEnd⟩ := h.cons
      have hk := kind_latin.mp (hrun k List.mem_cons_self)
      have hle : off ≤ k.stop := by
        rw [← hstart, Piece.stop]
        omega
      obtain ⟨cursor1, hstands, hmoved, htext, hacc⟩ := h.accumulate fresh table hk.1
      rw [if_neg (by rw [hisEnd]; simp), hchar, if_pos (by simp [hk]), runEnd_cons]
      rcases hacc with ⟨hacc, hnil, rfl, _⟩ | ⟨hacc, hend'⟩
      · obtain ⟨rfl, rfl⟩ : run = [] ∧ rest = [] := by simpa using hnil
        rw [hacc]
        exact ⟨by simp, by simp, hstands, hle, hmoved, htext⟩
      · obtain ⟨scan, rfl, hsuccess, hsep, hstands2, hle2, hmoved2, htext2⟩ :=
          ih hstands (fun q hq => hrun q (List.mem_cons_of_mem k hq)) hend'
            (Nat.lt_of_succ_lt_succ hn)
        rw [hacc]
        refine ⟨hsuccess, hsep, hstands2, Nat.le_trans hle hle2, hmoved.trans hmoved2, ?_⟩
        rw [clusterText_cons]
        exact htext.trans htext2

/-- The state in which the cursor stands at pieces when no bigram is under way. -/
def stateAt (module : NdsUnicode61) : List Piece → BigramTokenizerState
  | [] => .unknown
  | p :: _ =>
    match p.kind module with
    | .separator => .unknown
    | .latin => .latin
    | .bigram => .bigramStart

/-- A Latin token is read to the end of its run. -/
theorem nextLatin_spec (fresh : Nat → Nat → UInt8) (table : UnicharDecompositionTable)
    {k : Piece} {run rest : List Piece}
    (h : cursor.Stands module off (k :: run ++ rest) clean)
    (hrun : IsRun (Piece.kind module) .latin (k :: run) rest) :
    (rest = [] ∧ clean = false ∧
      ∃ cursor', nextLatin fresh table module cursor = (sqliteError, 0, cursor')) ∨
    ∃ cursor', nextLatin fresh table module cursor =
        (sqliteOk, runEnd off (k :: run) - off, cursor') ∧
      off ≤ runEnd off (k :: run) ∧ (rest = [] → clean = true) ∧
      cursor'.Stands module (runEnd off (k :: run)) rest clean ∧
      cursor'.state = stateAt module rest ∧ cursor'.index = cursor.index ∧
      cursor.token.flush.Appends cursor'.token (clusterText table module (k :: run)) := by
  obtain ⟨hcurrent, hstart, _, _⟩ := h.cons
  have hk := kind_latin.mp (hrun.same k List.mem_cons_self)
  have hle : off ≤ k.stop := by
    rw [← hstart, Piece.stop]
    omega
  have hflushed : ({ cursor with token := cursor.token.flush } : NdsUnicode61Cursor).Stands module
      off (k :: (run ++ rest)) clean := h.congr rfl rfl rfl rfl
  obtain ⟨cursor1, hstands, hmoved, htext, hacc⟩ := hflushed.accumulate fresh table hk.1
  rw [nextLatin]
  rcases hacc with ⟨hacc, hnil, rfl, _⟩ | ⟨hacc, hend⟩
  · obtain ⟨rfl, rfl⟩ : run = [] ∧ rest = [] := by simpa using hnil
    rw [hacc]
    exact .inl ⟨rfl, rfl, _, rfl⟩
  · rw [hacc]
    have hlen := hstands.length_lt
    rw [List.length_append] at hlen
    obtain ⟨scan, hscan, hsuccess, hsep, hstands2, hle2, hmoved2, htext2⟩ :=
      scanLatin_spec fresh table (n := cursor1.input.length + 1) hstands
        (fun q hq => hrun.same q (List.mem_cons_of_mem k hq)) hrun.maximal hend (by omega)
    simp only [hscan, hsuccess]
    rw [runEnd_cons, clusterText_cons]
    have hindex : scan.cursor.index = cursor.index := hmoved2.index.trans hmoved.index
    have htoken : cursor.token.flush.Appends scan.cursor.token
        (clusterText table module [k] ++ clusterText table module run) := htext.trans htext2
    cases rest with
    | nil =>
      cases clean with
      | false => exact .inl ⟨rfl, rfl, _, rfl⟩
      | true =>
        obtain ⟨hnext, hisEnd⟩ := hstands2.nil.place
        refine .inr ⟨{ scan.cursor with state := .unknown }, ?_, Nat.le_trans hle hle2,
          fun _ => rfl, hstands2.congr rfl rfl rfl rfl, rfl, hindex, htoken⟩
        simp [hisEnd, hnext, hcurrent, offset]
    | cons q rest =>
      obtain ⟨hcurrent2, _, _, hisEnd⟩ := hstands2.cons
      refine .inr ⟨{ scan.cursor with state := stateAt module (q :: rest) }, ?_,
        Nat.le_trans hle hle2, by simp, hstands2.congr rfl rfl rfl rfl, rfl,
        hindex, htoken⟩
      have hstate' : stateAt module (q :: rest) =
          if scan.currentIsSeparator then .unknown else .bigramStart := by
        have hq := hrun.maximal q (by simp)
        rw [hsep q (by simp)]
        rw [stateAt]
        cases hkind : q.kind module with
        | separator => simp [kind_separator.mp hkind]
        | latin => exact absurd hkind hq
        | bigram => simp [(kind_bigram.mp hkind).1]
      simp [hisEnd, hcurrent2, hcurrent, offset, hstate']

/-- Outside a run of bigrammable clusters the second part only changes the state. -/
theorem secondOfBigram_leave (fresh : Nat → Nat → UInt8) (table : UnicharDecompositionTable)
    (h : cursor.Stands module off ps clean) (hps : ∀ q ∈ ps.head?, q.kind module ≠ .bigram)
    (hend : ps = [] → clean = true) :
    secondOfBigram fresh table module cursor =
      (sqliteOk, decide (cursor.state = .bigramStart),
        { cursor with state := stateAt module ps }) := by
  rw [secondOfBigram]
  cases ps with
  | nil =>
    rw [h.nil.place.2, hend rfl]
    rfl
  | cons q qs =>
    obtain ⟨_, _, hchar, hisEnd⟩ := h.cons
    have hq := hps q (by simp)
    rw [hisEnd, hchar]
    rw [stateAt]
    cases hkind : q.kind module with
    | separator => simp [kind_separator.mp hkind]
    | latin => simp [kind_latin.mp hkind]
    | bigram => exact absurd hkind hq

/-- Where nothing more can be decoded, nothing more is accumulated. -/
theorem Stands.accumulate_stuck (fresh : Nat → Nat → UInt8) (table : UnicharDecompositionTable)
    (h : cursor.Stands module off [] false) :
    ∃ cursor', accumulateTokenCharacter fresh table module cursor = (false, cursor') ∧
      cursor'.Stands module off [] false ∧ Moved cursor cursor' ∧
      cursor'.currentCharacter = cursor.currentCharacter := by
  obtain ⟨token, hadd, _⟩ :=
    addTokenCodepoint_spec fresh table module cursor cursor.currentCharacter
  have hleft := h.nil.left_nil.withToken token
  obtain ⟨cursor1, hget, hahead, hmoved, _, hchar⟩ :=
    getNextChar_spec hleft fun _ => h.nil.place.2
  refine ⟨cursor1, ?_, ⟨[], hahead, pieces_nil off⟩, hmoved.of_token, hchar rfl⟩
  rw [List.isEmpty_nil, Bool.not_true] at hget
  unfold accumulateTokenCharacter accumulateMarks
  simp only [hadd, hget, hahead.place.2, Bool.or_false]

/-- What a failed attempt to read a cluster of a bigram leaves behind: nothing more can be
decoded. -/
structure Stuck (module : NdsUnicode61) (cursor : NdsUnicode61Cursor)
    (state : BigramTokenizerState) : Prop where
  stands : ∃ off, cursor.Stands module off [] false
  state_eq : cursor.state = state

/-- Inside a run the second part adds the next cluster. -/
theorem secondOfBigram_enter (fresh : Nat → Nat → UInt8) (table : UnicharDecompositionTable)
    (h : cursor.Stands module off (p :: ps) clean) (hp : p.kind module = .bigram) :
    (ps = [] ∧ clean = false ∧
      ∃ cursor', secondOfBigram fresh table module cursor = (ndsFalse, false, cursor') ∧
        Stuck module cursor' cursor.state ∧ cursor'.index = cursor.index ∧
        cursor'.currentCharacter = p.last) ∨
    ∃ cursor', secondOfBigram fresh table module cursor = (sqliteOk, true, cursor') ∧
      (ps = [] → clean = true) ∧ cursor'.Stands module p.stop ps clean ∧
      cursor'.state = .bigram ∧ cursor'.index = cursor.index ∧
      cursor'.bigramFirstCharSize = cursor.bigramFirstCharSize ∧
      cursor'.bigramOffset1 = cursor.bigramOffset1 ∧ cursor'.bigramOffset2 = p.start ∧
      cursor.token.Appends cursor'.token (clusterText table module [p]) := by
  obtain ⟨hcurrent, hstart, hchar, hisEnd⟩ := h.cons
  obtain ⟨htoken, hbigram⟩ := kind_bigram.mp hp
  have hmarked : ({ cursor with bigramOffset2 := offset cursor.current } :
      NdsUnicode61Cursor).Stands module off (p :: ps) clean := h.congr rfl rfl rfl rfl
  obtain ⟨cursor1, hstands, hmoved, htext, hacc⟩ := hmarked.accumulate fresh table htoken
  rw [secondOfBigram]
  simp only [hisEnd, Bool.not_false, if_true]
  rw [if_pos (by simp [hchar, htoken, hbigram])]
  rcases hacc with ⟨hacc, rfl, rfl, hlast⟩ | ⟨hacc, hclean⟩
  · rw [hacc]
    exact .inl ⟨rfl, rfl, cursor1, rfl, ⟨⟨_, hstands⟩, hmoved.state⟩, hmoved.index, hlast⟩
  · rw [hacc]
    refine .inr ⟨_, rfl, hclean, hstands.congr rfl rfl rfl rfl, rfl, hmoved.index,
      hmoved.bigramFirstCharSize, hmoved.bigramOffset1, ?_, htext⟩
    simp only [hmoved.bigramOffset2, hcurrent, offset, Option.getD_some, hstart]

/-- The first part reads the first cluster of a run. -/
theorem firstOfBigram_start (fresh : Nat → Nat → UInt8) (table : UnicharDecompositionTable)
    (h : cursor.Stands module off (p :: ps) clean) (hp : p.kind module = .bigram)
    (hstate : cursor.state = .bigramStart) :
    (ps = [] ∧ clean = false ∧
      ∃ cursor', firstOfBigram fresh table module cursor = (false, cursor') ∧
        Stuck module cursor' .bigramStart) ∨
    ∃ cursor', firstOfBigram fresh table module cursor = (true, cursor') ∧
      (ps = [] → clean = true) ∧ cursor'.Stands module p.stop ps clean ∧
      cursor'.state = .bigramStart ∧ cursor'.index = cursor.index ∧
      cursor'.bigramFirstCharSize = clusterSize table module [p] ∧
      cursor'.bigramOffset1 = p.start ∧
      cursor.token.flush.Appends cursor'.token (clusterText table module [p]) := by
  obtain ⟨hcurrent, hstart, hchar, hisEnd⟩ := h.cons
  have hflushed : ({ cursor with
      token := cursor.token.flush, bigramOffset1 := offset cursor.current } :
        NdsUnicode61Cursor).Stands module off (p :: ps) clean := h.congr rfl rfl rfl rfl
  obtain ⟨cursor1, hstands, hmoved, htext, hacc⟩ :=
    hflushed.accumulate fresh table (kind_bigram.mp hp).1
  rw [firstOfBigram]
  rw [if_pos hstate]
  have hsize : cursor1.token.size = clusterSize table module [p] := by
    rw [htext.size]
    simp
  rcases hacc with ⟨hacc, rfl, rfl, _⟩ | ⟨hacc, hclean⟩
  · rw [hacc]
    exact .inl ⟨rfl, rfl, cursor1, rfl, ⟨⟨_, hstands⟩, hmoved.state.trans hstate⟩⟩
  · rw [hacc]
    refine .inr ⟨_, rfl, hclean, hstands.congr rfl rfl rfl rfl, hmoved.state.trans hstate,
      hmoved.index, hsize, ?_, htext⟩
    simp only [hmoved.bigramOffset1, hcurrent, offset, Option.getD_some, hstart]

end NdsUnicode61Cursor

end NdsDevkit.Tokenizer
