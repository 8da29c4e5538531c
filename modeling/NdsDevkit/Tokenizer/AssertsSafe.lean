import NdsDevkit.Tokenizer.Asserts

namespace NdsDevkit.Tokenizer

open Framework Text NdsUnicode61Cursor

/-- A character as the decoder yields it, which can be written if it is a token character. -/
structure Fine (module : NdsUnicode61) (c : Nat) : Prop where
  lt : c < 2 ^ 21
  token : module.isTokenChar c = true → c < 0x10ffff

theorem Fine.isAlNumAsserts {module : NdsUnicode61} {c : Nat} (h : Fine module c) :
    isAlNumAsserts c = true :=
  isAlNumAsserts_eq (Nat.lt_trans h.lt (by decide))

theorem Fine.zero (module : NdsUnicode61) : Fine module 0 := ⟨by decide, fun _ => by decide⟩

/-- The bytes of code points that can be written. -/
def Written (bs : List UInt8) : Prop :=
  ∃ cs : List Nat, (∀ c ∈ cs, c < 0x10ffff) ∧ bs = cs.flatMap encoded

theorem Written.nil : Written [] := ⟨[], by simp, rfl⟩

theorem Written.append {xs ys : List UInt8} (hx : Written xs) (hy : Written ys) :
    Written (xs ++ ys) := by
  obtain ⟨cs, hcs, rfl⟩ := hx
  obtain ⟨ds, hds, rfl⟩ := hy
  exact ⟨cs ++ ds, List.forall_mem_append.mpr ⟨hcs, hds⟩, List.flatMap_append.symm⟩

/-- They start at a boundary between characters. -/
theorem Written.boundary {b : UInt8} {bs : List UInt8} (h : Written (b :: bs)) :
    utf8IsContinuationByte b = false := by
  obtain ⟨cs, hcs, heq⟩ := h
  cases cs with
  | nil => cases heq
  | cons c cs =>
    have hc : c < 2 ^ 21 := Nat.lt_trans (hcs c List.mem_cons_self) (by decide)
    obtain ⟨b', bs', hb, hcont⟩ := utf8Bytes_boundary hc
    rw [List.flatMap_cons, encoded_eq hc, hb, List.cons_append, List.cons.injEq] at heq
    rw [heq.1]
    exact hcont

theorem popFrontAsserts_of_written {token : StringBuffer} {xs ys : List UInt8}
    (hbuffer : token.getBuffer = xs ++ ys) (hys : Written ys) :
    token.popFrontAsserts xs.length = true := by
  have hsize : token.size = xs.length + ys.length := by
    rw [← StringBuffer.length_getBuffer, hbuffer, List.length_append]
  rw [StringBuffer.popFrontAsserts]
  rw [if_neg (by omega), Bool.or_eq_true, decide_eq_true_eq, hsize]
  cases ys with
  | nil => exact .inl rfl
  | cons b ys =>
    right
    have hb : token.getBuffer[xs.length]? = some b := by simp [hbuffer]
    rw [StringBuffer.getElem?_getBuffer _ (by rw [hsize, List.length_cons]; omega),
      Option.some.injEq] at hb
    rw [hb, hys.boundary]
    rfl

namespace NdsUnicode61Cursor

variable {fresh : Nat → Nat → UInt8} {module : NdsUnicode61} {cursor : NdsUnicode61Cursor}

theorem pushDecomposedAsserts_eq (fresh : Nat → Nat → UInt8) (removeDiacritics : Bool)
    {ds : List Nat} (h : ∀ d ∈ ds, d < 0x10ffff) (token : StringBuffer) :
    pushDecomposedAsserts fresh removeDiacritics ds token = true := by
  induction ds generalizing token with
  | nil => rfl
  | cons d ds ih =>
    obtain ⟨hd, hds⟩ := List.forall_mem_cons.mp h
    have hwrite : token.pushBackUnicharAsserts fresh d = true := by
      simp only [StringBuffer.pushBackUnicharAsserts, writeUnicharAsUtf8Asserts, Bool.or_eq_true,
        decide_eq_true_eq]
      exact .inr hd
    obtain ⟨token', hpush, _⟩ := token.pushBackUnichar_appends fresh d
    rw [pushDecomposedAsserts]
    split
    · rw [hwrite, hpush]
      exact ih hds token'
    · exact ih hds token

/-- A code point that can be written is added to the token. -/
theorem addTokenCodepoint_fine (fresh : Nat → Nat → UInt8) (module : NdsUnicode61)
    (cursor : NdsUnicode61Cursor) {c : Nat} (hc : c < 0x10ffff) :
    addTokenCodepointAsserts fresh unicharDecompositionData module cursor c = true ∧
      ∃ token bs, addTokenCodepoint fresh unicharDecompositionData module cursor c =
          (true, { cursor with token }) ∧ Written bs ∧ cursor.token.Appends token bs := by
  constructor
  · have hpush := pushDecomposedAsserts_eq fresh module.removeDiacritics
      (decomposition_lt (sqlite3FtsUnicodeFold_lt hc module.removeDiacritics)) cursor.token
    simp only [addTokenCodepointAsserts, unicharDecomposeAsserts_eq, hpush, Bool.and_true,
      Bool.or_true]
    exact sqlite3FtsUnicodeFoldAsserts_eq (Nat.lt_trans hc (by decide)) _
  · obtain ⟨token, hadd, htext⟩ :=
      addTokenCodepoint_spec fresh unicharDecompositionData module cursor c
    refine ⟨token, _, hadd, ⟨_, ?_, rfl⟩, htext⟩
    simpa using retained_lt module hc

/-- The place of the cursor in the input, with nothing behind it that does harm. -/
structure FinePlace (module : NdsUnicode61) (cursor : NdsUnicode61Cursor) : Prop where
  left : ∃ off l clean, cursor.Left off l clean ∧ ∀ c ∈ l, Fine module c.1
  current : Fine module cursor.currentCharacter

def bytesLeft (cursor : NdsUnicode61Cursor) : Nat := cursor.input.length - offset cursor.next

theorem FinePlace.congr {cursor' : NdsUnicode61Cursor} (h : cursor.FinePlace module)
    (hinput : cursor'.input = cursor.input) (hnext : cursor'.next = cursor.next)
    (hchar : cursor'.currentCharacter = cursor.currentCharacter) : cursor'.FinePlace module := by
  obtain ⟨⟨off, l, clean, ⟨hne, hoff, hrest⟩, hl⟩, hcurrent⟩ := h
  exact ⟨⟨off, l, clean, ⟨by rwa [hinput], by rwa [hnext], by rwa [hinput]⟩, hl⟩, by rwa [hchar]⟩

theorem FinePlace.getNextChar (h : cursor.FinePlace module) (hend : cursor.isEnd = false) :
    ∃ success cursor', cursor.getNextChar = (success, cursor') ∧ cursor'.FinePlace module ∧
      Moved cursor cursor' ∧ cursor'.token = cursor.token ∧
      (success = true → cursor'.isEnd = false ∧ cursor'.bytesLeft < cursor.bytesLeft) ∧
      (success = false → cursor'.currentCharacter = cursor.currentCharacter) := by
  obtain ⟨⟨off, l, clean, hleft, hl⟩, hcurrent⟩ := h
  obtain ⟨cursor', hget, hahead, hmoved, htoken, hchar⟩ := getNextChar_spec hleft fun _ => hend
  refine ⟨_, cursor', hget, ?_, hmoved, htoken, ?_, ?_⟩
  · cases l with
    | nil =>
      refine ⟨⟨off, [], clean, hahead.left_nil, by simp⟩, ?_⟩
      rwa [hchar rfl]
    | cons c l =>
      obtain ⟨hc, hl'⟩ := List.forall_mem_cons.mp hl
      refine ⟨⟨off + c.2, l, clean, hahead.left, hl'⟩, ?_⟩
      rwa [hahead.place.2.1]
  · intro hsuccess
    cases l with
    | nil => cases hsuccess
    | cons c l =>
      obtain ⟨hw, hlt, _, _⟩ := hahead.rest.cons
      refine ⟨hahead.isEnd_cons, ?_⟩
      rw [bytesLeft, bytesLeft, hahead.place.2.2, hleft.next, hmoved.input]
      simp only [offset, Option.getD_some]
      rw [hmoved.input] at hlt
      omega
  · intro hfail
    cases l with
    | nil => exact hchar rfl
    | cons c l => cases hfail

/-- The marks behind a character are added to the token. -/
theorem FinePlace.accumulateMarks (fresh : Nat → Nat → UInt8) {n : Nat}
    (h : cursor.FinePlace module) (hend : cursor.isEnd = false) (hn : cursor.bytesLeft < n) :
    accumulateMarksAsserts fresh unicharDecompositionData module n cursor = true ∧
      ∃ success cursor' bs,
        accumulateMarks fresh unicharDecompositionData module n cursor = (success, cursor') ∧
        cursor'.FinePlace module ∧ Moved cursor cursor' ∧ Written bs ∧
        cursor.token.Appends cursor'.token bs ∧
        (success = true → cursor'.isEnd = false ∧ cursor'.bytesLeft < cursor.bytesLeft) ∧
        (success = false → (cursor.currentCharacter : Nat) < 0x10ffff →
          (cursor'.currentCharacter : Nat) < 0x10ffff) := by
  induction n generalizing cursor with
  | zero => omega
  | succ n ih =>
    obtain ⟨success, cursor1, hget, hplace, hmoved, htoken, hsuccess, hfail⟩ :=
      h.getNextChar hend
    rw [accumulateMarksAsserts, NdsUnicode61Cursor.accumulateMarks]
    rw [hget]
    cases success with
    | false =>
      refine ⟨rfl, false, cursor1, [], rfl, hplace, hmoved, .nil, htoken ▸ .refl _, by simp, ?_⟩
      intro _ hc
      rwa [hfail rfl]
    | true =>
      obtain ⟨hend1, hless⟩ := hsuccess rfl
      simp only
      cases hmark : isDiacritic cursor1.currentCharacter with
      | false =>
        exact ⟨rfl, true, cursor1, [], rfl, hplace, hmoved, .nil, htoken ▸ .refl _,
          fun _ => ⟨hend1, hless⟩, by simp⟩
      | true =>
        obtain ⟨hasserts, token, bs, hadd, hbs, htext⟩ :=
          addTokenCodepoint_fine fresh module cursor1 (isDiacritic_lt hmark)
        rw [htoken] at htext
        have hplace1 : ({ cursor1 with token } : NdsUnicode61Cursor).FinePlace module :=
          hplace.congr rfl rfl rfl
        obtain ⟨hasserts', success', cursor2, bs', hacc, hplace2, hmoved2, hbs', htext',
          hsuccess', hfail'⟩ := ih hplace1 hend1 (Nat.lt_of_lt_of_le hless (Nat.le_of_lt_succ hn))
        rw [hadd, hasserts]
        refine ⟨hasserts', success', cursor2, bs ++ bs', hacc, hplace2, hmoved.trans
          hmoved2.of_token, hbs.append hbs', htext.trans htext', ?_, ?_⟩
        · intro hs
          obtain ⟨hend2, hless2⟩ := hsuccess' hs
          exact ⟨hend2, Nat.lt_trans hless2 hless⟩
        · intro hs _
          exact hfail' hs (isDiacritic_lt hmark)

/-- A character that can be written and the marks behind it are added to the token. -/
theorem FinePlace.accumulateTokenCharacter (fresh : Nat → Nat → UInt8)
    (h : cursor.FinePlace module) (hend : cursor.isEnd = false)
    (hc : (cursor.currentCharacter : Nat) < 0x10ffff) :
    accumulateTokenCharacterAsserts fresh unicharDecompositionData module cursor = true ∧
      ∃ success cursor' bs,
        accumulateTokenCharacter fresh unicharDecompositionData module cursor =
          (success, cursor') ∧
        cursor'.FinePlace module ∧ Moved cursor cursor' ∧ Written bs ∧
        cursor.token.Appends cursor'.token bs ∧
        (success = true → cursor'.isEnd = true ∨ cursor'.bytesLeft < cursor.bytesLeft) ∧
        (success = false → (cursor'.currentCharacter : Nat) < 0x10ffff) := by
  obtain ⟨hasserts, token, bs, hadd, hbs, htext⟩ := addTokenCodepoint_fine fresh module cursor hc
  have hplace : ({ cursor with token } : NdsUnicode61Cursor).FinePlace module :=
    h.congr rfl rfl rfl
  obtain ⟨hasserts', success, cursor', bs', hacc, hplace', hmoved, hbs', htext', hsuccess,
    hfail⟩ := hplace.accumulateMarks fresh (n := cursor.input.length + 1) hend
      (Nat.lt_succ_of_le (Nat.sub_le _ _))
  rw [accumulateTokenCharacterAsserts, NdsUnicode61Cursor.accumulateTokenCharacter]
  rw [hasserts, hadd]
  simp only [hacc]
  refine ⟨hasserts', _, cursor', bs ++ bs', rfl, hplace', hmoved.of_token, hbs.append hbs',
    htext.trans htext', ?_, ?_⟩
  · intro hs
    rcases Bool.or_eq_true_iff.mp hs with hs | hs
    · exact .inl hs
    · exact .inr (hsuccess hs).2
  · intro hs
    exact hfail (Bool.or_eq_false_iff.mp hs).2 hc

/-- The separators in front of a token are skipped. -/
theorem FinePlace.skipSeparators {n : Nat} (h : cursor.FinePlace module)
    (hend : cursor.isEnd = false) (hn : cursor.bytesLeft < n) :
    skipSeparatorsAsserts module n cursor = true ∧ ∃ success cursor',
      skipSeparators module n cursor = (success, cursor') ∧ cursor'.FinePlace module ∧
      Moved cursor cursor' ∧ cursor'.token = cursor.token ∧
      (success = true → module.isTokenChar cursor'.currentCharacter = true) := by
  induction n generalizing cursor with
  | zero => omega
  | succ n ih =>
    obtain ⟨success, cursor1, hget, hplace, hmoved, htoken, hsuccess, _⟩ := h.getNextChar hend
    rw [skipSeparatorsAsserts, NdsUnicode61Cursor.skipSeparators]
    rw [hget]
    cases success with
    | false => exact ⟨rfl, false, cursor1, rfl, hplace, hmoved, htoken, by simp⟩
    | true =>
      obtain ⟨hend1, hless⟩ := hsuccess rfl
      simp only [hplace.current.isAlNumAsserts, Bool.true_and]
      cases hc : module.isTokenChar cursor1.currentCharacter with
      | true => exact ⟨rfl, true, cursor1, rfl, hplace, hmoved, htoken, fun _ => hc⟩
      | false =>
        obtain ⟨hasserts, success', cursor2, hskip, hplace2, hmoved2, htoken2, hsuccess2⟩ :=
          ih hplace hend1 (Nat.lt_of_lt_of_le hless (Nat.le_of_lt_succ hn))
        exact ⟨hasserts, success', cursor2, hskip, hplace2, hmoved.trans hmoved2,
          htoken2.trans htoken, hsuccess2⟩

/-- The rest of a Latin token. -/
theorem FinePlace.scanLatin (fresh : Nat → Nat → UInt8) {n : Nat} (h : cursor.FinePlace module)
    (hn : cursor.isEnd = true ∨ cursor.bytesLeft < n) (hexact : cursor.token.Exact) :
    scanLatinAsserts fresh unicharDecompositionData module n cursor = true ∧ ∃ scan,
      scanLatin fresh unicharDecompositionData module n cursor = scan ∧
      scan.cursor.FinePlace module ∧ scan.cursor.token.Exact ∧
      (scan.success = true → scan.cursor.isEnd = false →
        (scan.currentIsSeparator || scan.currentIsCJK) = true ∧
        scan.currentIsSeparator = !module.isTokenChar scan.cursor.currentCharacter) := by
  induction n generalizing cursor with
  | zero =>
    have hend : cursor.isEnd = true := hn.resolve_right (Nat.not_lt_zero _)
    refine ⟨hend, _, rfl, h, hexact, ?_⟩
    intro _ hnot
    rw [NdsUnicode61Cursor.scanLatin, hend] at hnot
    cases hnot
  | succ n ih =>
    rw [scanLatinAsserts, NdsUnicode61Cursor.scanLatin]
    cases hend : cursor.isEnd with
    | true =>
      refine ⟨rfl, _, rfl, h, hexact, ?_⟩
      intro _ hnot
      simp only [if_true] at hnot
      rw [hend] at hnot
      cases hnot
    | false =>
      have hless : cursor.bytesLeft < n + 1 := hn.resolve_left (by simp [hend])
      simp only [Bool.false_eq_true, if_false, Bool.not_not, h.current.isAlNumAsserts,
        Bool.true_and]
      split
      · next hlatin =>
        rw [Bool.and_eq_true] at hlatin
        obtain ⟨hasserts, success, cursor1, bs, hacc, hplace, _, _, htext, hsuccess, _⟩ :=
          h.accumulateTokenCharacter fresh hend (h.current.token hlatin.2)
        have hexact1 := (htext.exact hexact).1
        rw [hasserts, hacc]
        cases success with
        | false => exact ⟨rfl, _, rfl, hplace, hexact1, by simp⟩
        | true =>
          refine ih hplace ?_ hexact1
          rcases hsuccess rfl with hs | hs
          · exact .inl hs
          · exact .inr (Nat.lt_of_lt_of_le hs (Nat.le_of_lt_succ hless))
      · next hother =>
        refine ⟨rfl, _, rfl, h, hexact, ?_⟩
        intro _ _
        refine ⟨?_, rfl⟩
        cases ht : module.isTokenChar cursor.currentCharacter <;>
          cases hb : isBigrammable cursor.currentCharacter <;> simp_all

/-- What holds of every cursor between two passes. -/
structure Sound (module : NdsUnicode61) (cursor : NdsUnicode61Cursor) : Prop where
  place : cursor.FinePlace module ∨
    (cursor.next = none ∧ cursor.state = .unknown ∧ cursor.currentCharacter = 0)
  exact : cursor.token.Exact
  start : cursor.state = .latin ∨ cursor.state = .bigramStart →
    (cursor.currentCharacter : Nat) < 0x10ffff
  bigram : cursor.state = .bigram → ∃ xs ys, cursor.token.getBuffer = xs ++ ys ∧ Written xs ∧
    Written ys ∧ xs.length = cursor.bigramFirstCharSize

theorem Sound.index_succ (h : cursor.Sound module) :
    ({ cursor with index := cursor.index + 1 } : NdsUnicode61Cursor).Sound module := by
  refine ⟨?_, h.exact, h.start, h.bigram⟩
  rcases h.place with hplace | hnone
  · exact .inl (hplace.congr rfl rfl rfl)
  · exact .inr hnone

/-- Between two tokens, the place in the input is all that matters. -/
theorem Sound.of_unknown (hplace : cursor.FinePlace module) (hexact : cursor.token.Exact)
    (hstate : cursor.state = .unknown) : cursor.Sound module := by
  refine ⟨.inl hplace, hexact, ?_, ?_⟩
  · rintro (h | h) <;> rw [hstate] at h <;> cases h
  · intro h
    rw [hstate] at h
    cases h

theorem Sound.of_start (hplace : cursor.FinePlace module) (hexact : cursor.token.Exact)
    (hstate : cursor.state = .latin ∨ cursor.state = .bigramStart)
    (hc : (cursor.currentCharacter : Nat) < 0x10ffff) : cursor.Sound module := by
  refine ⟨.inl hplace, hexact, fun _ => hc, ?_⟩
  intro h
  rw [h] at hstate
  simp at hstate

theorem Sound.finePlace (h : cursor.Sound module) (hstate : cursor.state ≠ .unknown) :
    cursor.FinePlace module :=
  h.place.resolve_right fun hnone => hstate hnone.2.1

theorem Sound.isAlNumAsserts (h : cursor.Sound module) :
    isAlNumAsserts cursor.currentCharacter = true := by
  rcases h.place with hplace | ⟨_, _, hzero⟩
  · exact hplace.current.isAlNumAsserts
  · rw [hzero]
    rfl

theorem Sound.nextLatin (fresh : Nat → Nat → UInt8) (h : cursor.Sound module)
    (hend : cursor.isEnd = false) (hstate : cursor.state = .latin) :
    nextLatinAsserts fresh unicharDecompositionData module cursor = true ∧
      Sound module (nextLatin fresh unicharDecompositionData module cursor).2.2 := by
  have hplace : ({ cursor with token := cursor.token.flush } : NdsUnicode61Cursor).FinePlace
      module := (h.finePlace (by simp [hstate])).congr rfl rfl rfl
  obtain ⟨hasserts, success, cursor1, bs, hacc, hplace1, hmoved, _, htext, _, hfail⟩ :=
    hplace.accumulateTokenCharacter fresh hend (h.start (.inl hstate))
  have hexact1 : cursor1.token.Exact := (htext.exact h.exact.flush).1
  rw [nextLatinAsserts, NdsUnicode61Cursor.nextLatin]
  rw [decide_eq_true hstate]
  simp only [hasserts, hacc]
  cases success with
  | false =>
    exact ⟨rfl, .of_start hplace1 hexact1 (.inl (hmoved.state.trans hstate)) (hfail rfl)⟩
  | true =>
    obtain ⟨hasserts2, scan, hscan, hplace2, hexact2, hleft⟩ :=
      hplace1.scanLatin fresh (n := cursor1.input.length + 1)
        (.inr (Nat.lt_succ_of_le (Nat.sub_le _ _))) hexact1
    simp only [hasserts2, hscan]
    cases hsuccess : scan.success with
    | false =>
      refine ⟨rfl, .inr ⟨rfl, rfl, rfl⟩, hexact2, by simp [resetCursor], ?_⟩
      intro hs
      cases hs
    | true =>
      cases hend2 : scan.cursor.isEnd with
      | true => exact ⟨rfl, .of_unknown (hplace2.congr rfl rfl rfl) hexact2 rfl⟩
      | false =>
        obtain ⟨hstop, hsep⟩ := hleft hsuccess hend2
        refine ⟨by simpa using hstop, ?_⟩
        cases hs : scan.currentIsSeparator with
        | true => exact .of_unknown (hplace2.congr rfl rfl rfl) hexact2 rfl
        | false =>
          have htoken : module.isTokenChar scan.cursor.currentCharacter = true := by
            simpa [hs] using hsep
          exact .of_start (hplace2.congr rfl rfl rfl) hexact2 (.inr rfl)
            (hplace2.current.token htoken)

/-- The first part has left the text of one cluster in the buffer. -/
structure HoldsFirst (module : NdsUnicode61) (cursor : NdsUnicode61Cursor) : Prop where
  place : cursor.FinePlace module
  state : cursor.state = .bigram ∨ cursor.state = .bigramStart
  exact : cursor.token.Exact
  written : Written cursor.token.getBuffer
  size : cursor.token.getBuffer.length = cursor.bigramFirstCharSize

theorem Sound.firstOfBigram (fresh : Nat → Nat → UInt8) (h : cursor.Sound module)
    (hend : cursor.isEnd = false)
    (hstate : cursor.state = .bigram ∨ cursor.state = .bigramStart) :
    firstOfBigramAsserts fresh unicharDecompositionData module cursor = true ∧
      ∃ success cursor',
        firstOfBigram fresh unicharDecompositionData module cursor = (success, cursor') ∧
        (success = false → cursor'.Sound module) ∧
        (success = true → cursor'.HoldsFirst module) := by
  rw [firstOfBigramAsserts, NdsUnicode61Cursor.firstOfBigram]
  rcases hstate with hstate | hstate
  · obtain ⟨xs, ys, hbuffer, hxs, hys, hsize⟩ := h.bigram hstate
    have hplace := h.finePlace (by simp [hstate])
    have hdrop : (cursor.token.popFront cursor.bigramFirstCharSize).getBuffer = ys := by
      rw [StringBuffer.popFront_getBuffer, hbuffer, ← hsize, List.drop_left]
    rw [if_neg (by simp [hstate]), if_neg (by simp [hstate])]
    refine ⟨?_, true, _, rfl, by simp, fun _ => ⟨hplace.congr rfl rfl rfl, .inl hstate,
      h.exact.popFront _, ?_, ?_⟩⟩
    · rw [← hsize]
      exact popFrontAsserts_of_written hbuffer hys
    · simp only [hdrop]
      exact hys
    · simp only [StringBuffer.length_getBuffer, StringBuffer.getSize]
  · have hplace : ({ cursor with
        token := cursor.token.flush, bigramOffset1 := offset cursor.current } :
          NdsUnicode61Cursor).FinePlace module :=
      (h.finePlace (by simp [hstate])).congr rfl rfl rfl
    obtain ⟨hasserts, success, cursor1, bs, hacc, hplace1, hmoved, hbs, htext, _, hfail⟩ :=
      hplace.accumulateTokenCharacter fresh hend (h.start (.inr hstate))
    obtain ⟨hbuffer, hexact1⟩ := htext.of_flush h.exact
    have hstate1 := hmoved.state.trans hstate
    rw [if_pos hstate, if_pos hstate, hacc]
    refine ⟨hasserts, ?_⟩
    cases success with
    | false =>
      exact ⟨false, cursor1, rfl, fun _ => .of_start hplace1 hexact1 (.inr hstate1) (hfail rfl),
        by simp⟩
    | true =>
      refine ⟨true, _, rfl, by simp, fun _ => ⟨hplace1.congr rfl rfl rfl, .inr hstate1, hexact1, ?_,
        ?_⟩⟩
      · simp only [hbuffer]
        exact hbs
      · simp only [StringBuffer.length_getBuffer, StringBuffer.getSize]

theorem HoldsFirst.secondOfBigram (fresh : Nat → Nat → UInt8) (h : cursor.HoldsFirst module) :
    secondOfBigramAsserts fresh unicharDecompositionData module cursor = true ∧
      Sound module (secondOfBigram fresh unicharDecompositionData module cursor).2.2 := by
  rw [secondOfBigramAsserts, NdsUnicode61Cursor.secondOfBigram]
  cases hend : cursor.isEnd with
  | true =>
    exact ⟨rfl, .of_unknown (h.place.congr rfl rfl rfl) h.exact rfl⟩
  | false =>
    simp only [Bool.not_false, if_true, h.place.current.isAlNumAsserts, Bool.true_and,
      Bool.not_not]
    split
    · next hcluster =>
      rw [Bool.and_eq_true] at hcluster
      have hplace : ({ cursor with bigramOffset2 := offset cursor.current } :
          NdsUnicode61Cursor).FinePlace module := h.place.congr rfl rfl rfl
      obtain ⟨hasserts, success, cursor1, bs, hacc, hplace1, hmoved, hbs, htext, _, hfail⟩ :=
        hplace.accumulateTokenCharacter fresh hend (h.place.current.token hcluster.1)
      obtain ⟨hexact1, hbuffer⟩ := htext.exact h.exact
      have htwo : ∃ xs ys, cursor1.token.getBuffer = xs ++ ys ∧ Written xs ∧ Written ys ∧
          xs.length = cursor1.bigramFirstCharSize :=
        ⟨_, _, hbuffer, h.written, hbs, h.size.trans hmoved.bigramFirstCharSize.symm⟩
      rw [hacc]
      refine ⟨hasserts, ?_⟩
      cases success with
      | false => exact ⟨.inl hplace1, hexact1, fun _ => hfail rfl, fun _ => htwo⟩
      | true => exact ⟨.inl (hplace1.congr rfl rfl rfl), hexact1, by simp, fun _ => htwo⟩
    · refine ⟨rfl, ?_⟩
      cases ht : module.isTokenChar cursor.currentCharacter with
      | false => exact .of_unknown (h.place.congr rfl rfl rfl) h.exact rfl
      | true =>
        exact .of_start (h.place.congr rfl rfl rfl) h.exact (.inl rfl) (h.place.current.token ht)

theorem Sound.nextBigram (fresh : Nat → Nat → UInt8) (h : cursor.Sound module)
    (hend : cursor.isEnd = false)
    (hstate : cursor.state = .bigram ∨ cursor.state = .bigramStart) :
    nextBigramAsserts fresh unicharDecompositionData module cursor = true ∧
      Sound module (nextBigram fresh unicharDecompositionData module cursor).2.2 := by
  obtain ⟨hasserts, success, cursor1, hfirst, hfail, hsuccess⟩ :=
    h.firstOfBigram fresh hend hstate
  rw [nextBigramAsserts, NdsUnicode61Cursor.nextBigram]
  rw [decide_eq_true hstate, hasserts, hfirst]
  cases success with
  | false => exact ⟨rfl, hfail rfl⟩
  | true => exact (hsuccess rfl).secondOfBigram fresh

theorem Sound.readToken (fresh : Nat → Nat → UInt8) (h : cursor.Sound module)
    (hend : cursor.isEnd = false) (hstate : cursor.state ≠ .unknown) :
    readTokenAsserts fresh unicharDecompositionData module cursor = true ∧
      Sound module (behind (readToken fresh unicharDecompositionData module cursor)) := by
  rw [readTokenAsserts, NdsUnicode61Cursor.readToken]
  rw [decide_eq_true hstate, Bool.true_and]
  by_cases hlatin : cursor.state = .latin
  · obtain ⟨hasserts, hsound⟩ := h.nextLatin fresh hend hlatin
    rw [if_pos hlatin, if_pos hlatin]
    refine ⟨hasserts, ?_⟩
    simp only
    split
    · exact hsound
    · exact hsound.index_succ
  · have hbigram : cursor.state = .bigram ∨ cursor.state = .bigramStart := by
      cases hs : cursor.state with
      | unknown => exact absurd hs hstate
      | latin => exact absurd hs hlatin
      | bigramStart => exact .inr rfl
      | bigram => exact .inl rfl
    obtain ⟨hasserts, hsound⟩ := h.nextBigram fresh hend hbigram
    rw [if_neg hlatin, if_neg hlatin, hasserts]
    constructor
    · simp [lastBigramAsserts, hsound.isAlNumAsserts]
    · simp only
      split
      · exact hsound
      split
      · exact hsound.index_succ
      · exact hsound

/-- Behind a broken token there is nothing to read. -/
theorem getNextChar_reset (h : cursor.next = none) : cursor.getNextChar = (false, cursor) ∨
    cursor.getNextChar = (false, { cursor with current := cursor.inputEnd }) := by
  rw [NdsUnicode61Cursor.getNextChar]
  rw [h]
  split
  · exact .inr rfl
  · exact .inl rfl

theorem Sound.seekTokenStart (h : cursor.Sound module) (hend : cursor.isEnd = false)
    (hstate : cursor.state = .unknown) :
    seekTokenStartAsserts module cursor = true ∧ ∃ success cursor',
      seekTokenStart module cursor = (success, cursor') ∧ cursor'.Sound module ∧
      (success = true → cursor'.isEnd = false → cursor'.FinePlace module ∧
        module.isTokenChar cursor'.currentCharacter = true) := by
  rw [seekTokenStartAsserts, NdsUnicode61Cursor.seekTokenStart]
  rw [decide_eq_true hstate, Bool.true_and]
  rcases h.place with hplace | ⟨hnone, _, hzero⟩
  · obtain ⟨hasserts, success, cursor1, hskip, hplace1, hmoved, htoken, hsuccess⟩ :=
      hplace.skipSeparators (n := cursor.input.length + 1) hend
        (Nat.lt_succ_of_le (Nat.sub_le _ _))
    rw [hasserts, hskip]
    refine ⟨rfl, _, cursor1, rfl, .of_unknown hplace1 (by rw [htoken]; exact h.exact)
      (hmoved.state.trans hstate), ?_⟩
    intro hs hend1
    rw [hend1, Bool.false_or] at hs
    exact ⟨hplace1, hsuccess hs⟩
  · rw [skipSeparatorsAsserts, NdsUnicode61Cursor.skipSeparators]
    rcases getNextChar_reset hnone with hget | hget
    · rw [hget]
      refine ⟨rfl, _, cursor, rfl, h, ?_⟩
      intro hs
      rw [hend] at hs
      cases hs
    · rw [hget]
      refine ⟨rfl, _, _, rfl, ⟨.inr ⟨hnone, hstate, hzero⟩, h.exact, h.start, h.bigram⟩, ?_⟩
      intro hs hend1
      rw [hend1] at hs
      cases hs

/-- One pass keeps the invariant and comes to no assertion that fails. -/
theorem Sound.nextBody (fresh : Nat → Nat → UInt8) (h : cursor.Sound module) :
    nextBodyAsserts fresh unicharDecompositionData module cursor = true ∧
      Sound module (behind (nextBody fresh unicharDecompositionData module cursor)) := by
  rw [nextBodyAsserts, NdsUnicode61Cursor.nextBody]
  cases hend : cursor.isEnd with
  | true => exact ⟨rfl, h⟩
  | false =>
    simp only [Bool.false_eq_true, if_false]
    by_cases hstate : cursor.state = .unknown
    · obtain ⟨hasserts, success, cursor1, hseek, hsound, hfound⟩ := h.seekTokenStart hend hstate
      rw [if_pos hstate, if_pos hstate, hasserts, hseek]
      cases success with
      | false => exact ⟨rfl, hsound⟩
      | true =>
        simp only [Bool.true_and]
        cases hend1 : cursor1.isEnd with
        | true => exact ⟨rfl, hsound⟩
        | false =>
          obtain ⟨hplace, htoken⟩ := hfound rfl hend1
          simp only [Bool.false_or, Bool.false_eq_true, if_false]
          refine Sound.readToken fresh (.of_start (hplace.congr rfl rfl rfl) hsound.exact ?_
            (hplace.current.token htoken)) hend1 ?_
          · cases isBigrammable cursor1.currentCharacter <;> simp
          · cases isBigrammable cursor1.currentCharacter <;> simp
    · rw [if_neg hstate, if_neg hstate]
      exact h.readToken fresh hend hstate

theorem Sound.reaches {cursor' : NdsUnicode61Cursor} (h : cursor.Sound module)
    (hr : Reaches fresh unicharDecompositionData module cursor cursor') : cursor'.Sound module := by
  induction hr with
  | refl => exact h
  | pass _ ih => exact ih (h.nextBody fresh).2

end NdsUnicode61Cursor

theorem sound_openedExact {module : NdsUnicode61} {input : List UInt8}
    (h : ∀ c ∈ decoded input, module.isTokenChar c.1 = true → (c.1 : Nat) < 0x10ffff) :
    (openedExact input).Sound module := by
  have hexact : (openedExact input).token.Exact := ⟨rfl, Nat.zero_le _⟩
  cases input with
  | nil =>
    refine ⟨.inr ⟨rfl, rfl, rfl⟩, hexact, by simp [openedExact, opened], ?_⟩
    intro hs
    cases hs
  | cons b bs =>
    refine .of_unknown ⟨⟨0, _, _, opened_left b bs _, ?_⟩, Fine.zero module⟩ hexact rfl
    intro c hc
    exact ⟨decodeAll_lt (b :: bs) c hc, h c hc⟩

end NdsDevkit.Tokenizer
