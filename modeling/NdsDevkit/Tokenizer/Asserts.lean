import NdsDevkit.Text.DecompositionData
import NdsDevkit.Tokenizer.Groups

namespace NdsDevkit.Tokenizer

open Framework Text

/-!
The assertions of the tokenizer. The function named after one of the source, with `Asserts` behind
its name, tells whether those assertions hold that a call of it comes to.
-/

def utf8MaxCodepoint : Unichar := 0x10ffff

def removeDiacriticAsserts (c : Nat) : Bool :=
  let key := c <<< 3 ||| 0x00000007
  let iRes := (lastNotAbove aDia key (aDia.length + 1) 0 0 (aDia.length - 1)).toNat
  key ≥ aDia.getD iRes 0

/-- The parameter is an `int`. -/
def sqlite3FtsUnicodeFoldAsserts (c : Nat) (bRemoveDiacritic : Bool) : Bool :=
  decide (c < 1 <<< 31) &&
  if c < 128 then true
  else if c < 65536 then
    let iRes := lastNotAbove (foldEntries.map TableEntry.iCode) c (foldEntries.length + 1) (-1) 0
      (foldEntries.length - 1)
    let p := foldEntries.getD iRes.toNat ⟨0, 0, 0⟩
    let folds := decide (iRes ≥ 0) && decide (c < p.iCode + p.nRange) &&
      decide (0x01 &&& p.flags &&& (p.iCode ^^^ c) = 0)
    let ret := (c + aiOff.getD (p.flags >>> 1) 0) &&& 0x0000ffff
    (decide (iRes < 0) || decide (c ≥ p.iCode)) && (!folds || decide (ret > 0)) &&
      (!bRemoveDiacritic || removeDiacriticAsserts (if folds then ret else c))
  else true

def isAlNumAsserts (c : Unichar) : Bool :=
  if c < 128 then true
  else if c < 1 <<< 22 then
    let key := c <<< 10 ||| 0x000003ff
    let iRes := (lastNotAbove alNumEntries key (alNumEntries.length + 1) 0 0
      (alNumEntries.length - 1)).toNat
    decide (alNumEntries.getD 0 0 < key) && decide (key ≥ alNumEntries.getD iRes 0)
  else false

def unicharDecomposeAsserts : UnicharDecompositionTable → Unichar → Bool
  | [], _ => true
  | range :: ranges, character =>
    if range.first ≤ character ∧ character ≤ range.last then
      character - range.first < range.last - range.first + 1
    else unicharDecomposeAsserts ranges character

def writeUnicharAsUtf8Asserts (character : Unichar) (room : Nat) : Bool :=
  room = 0 || character < 0x10000 || character < utf8MaxCodepoint

section Characters

theorem lastNotAbove_spec (entries : List Nat) (key fuel : Nat) (iRes iLo iHi : Int) :
    lastNotAbove entries key fuel iRes iLo iHi = iRes ∨
      entries.getD (lastNotAbove entries key fuel iRes iLo iHi).toNat 0 ≤ key := by
  induction fuel generalizing iRes iLo iHi with
  | zero => exact .inl rfl
  | succ fuel ih =>
    rw [lastNotAbove]
    split
    · simp only
      split
      · next hkey =>
        rcases ih ((iHi + iLo).tdiv 2) ((iHi + iLo).tdiv 2 + 1) iHi with h | h
        · right
          rw [h]
          exact hkey
        · exact .inr h
      · exact ih iRes iLo _
    · exact .inl rfl

theorem getD_mem_or_eq {α : Type*} (l : List α) (i : Nat) (d : α) :
    l.getD i d ∈ l ∨ l.getD i d = d := by
  rw [List.getD_eq_getElem?_getD]
  cases h : l[i]? with
  | none => exact .inr rfl
  | some x => exact .inl (List.mem_of_getElem? h)

theorem removeDiacriticAsserts_eq (c : Nat) : removeDiacriticAsserts c = true := by
  rw [removeDiacriticAsserts]
  simp only [ge_iff_le, decide_eq_true_eq]
  rcases lastNotAbove_spec aDia (c <<< 3 ||| 7) (aDia.length + 1) 0 0 (aDia.length - 1) with h | h
  · rw [h]
    exact Nat.zero_le _
  · exact h

/-- No character that is folded is folded to 0. -/
theorem foldEntries_pos : ∀ p ∈ foldEntries, ∀ c ∈ List.range' p.iCode p.nRange,
    0x01 &&& p.flags &&& (p.iCode ^^^ c) = 0 →
      0 < (c + aiOff.getD (p.flags >>> 1) 0) &&& 0x0000ffff := by
  decide +kernel

theorem sqlite3FtsUnicodeFoldAsserts_eq {c : Nat} (hc : c < 2 ^ 31) (bRemoveDiacritic : Bool) :
    sqlite3FtsUnicodeFoldAsserts c bRemoveDiacritic = true := by
  have hfound := lastNotAbove_spec (foldEntries.map TableEntry.iCode) c (foldEntries.length + 1)
    (-1) 0 (foldEntries.length - 1)
  rw [sqlite3FtsUnicodeFoldAsserts]
  rw [decide_eq_true (by simpa using hc), Bool.true_and]
  split
  · rfl
  split
  · simp only [removeDiacriticAsserts_eq, Bool.or_true, Bool.and_true]
    generalize lastNotAbove (foldEntries.map TableEntry.iCode) c (foldEntries.length + 1) (-1) 0
      (foldEntries.length - 1) = iRes at hfound ⊢
    have hmap : (foldEntries.map TableEntry.iCode).getD iRes.toNat 0 =
        (foldEntries.getD iRes.toNat ⟨0, 0, 0⟩).iCode :=
      List.getD_map foldEntries ⟨0, 0, 0⟩ TableEntry.iCode
    rw [hmap] at hfound
    have hentry := getD_mem_or_eq foldEntries iRes.toNat ⟨0, 0, 0⟩
    generalize foldEntries.getD iRes.toNat ⟨0, 0, 0⟩ = p at hfound hentry ⊢
    have hpos : c < p.iCode + p.nRange → 0x01 &&& p.flags &&& (p.iCode ^^^ c) = 0 →
        p.iCode ≤ c → 0 < (c + aiOff.getD (p.flags >>> 1) 0) &&& 0x0000ffff := by
      intro hlt hflag hle
      rcases hentry with hp | rfl
      · exact foldEntries_pos p hp c (List.mem_range'_1.mpr ⟨hle, hlt⟩) hflag
      · exact absurd hlt (Nat.not_lt_zero c)
    rcases hfound with rfl | hle
    · simp
    · simp only [Bool.and_eq_true, Bool.or_eq_true, Bool.not_eq_true', Bool.and_eq_false_iff,
        decide_eq_true_eq, decide_eq_false_iff_not]
      tauto
  · rfl

theorem isAlNumAsserts_eq {c : Unichar} (hc : c < 2 ^ 22) : isAlNumAsserts c = true := by
  rw [isAlNumAsserts]
  split
  · rfl
  · have hkey : 0x3ff ≤ c <<< 10 ||| 0x3ff := Nat.right_le_or
    have hfirst : alNumEntries.getD 0 0 < c <<< 10 ||| 0x3ff :=
      Nat.lt_of_lt_of_le (by decide) hkey
    rw [if_pos (by simpa using hc)]
    simp only [Bool.and_eq_true, decide_eq_true_eq]
    refine ⟨hfirst, ?_⟩
    rcases lastNotAbove_spec alNumEntries (c <<< 10 ||| 0x3ff) (alNumEntries.length + 1) 0 0
      (alNumEntries.length - 1) with h | h
    · rw [h]
      exact Nat.le_of_lt hfirst
    · exact h

theorem unicharDecomposeAsserts_eq (table : UnicharDecompositionTable) (c : Unichar) :
    unicharDecomposeAsserts table c = true := by
  induction table with
  | nil => rfl
  | cons range ranges ih =>
    rw [unicharDecomposeAsserts]
    split
    · next hin =>
      obtain ⟨hfirst, hlast⟩ := hin
      rw [decide_eq_true_eq]
      exact Nat.lt_succ_of_le (Nat.sub_le_sub_right hlast range.first)
    · exact ih

theorem removeDiacritic_cases (c : Nat) : removeDiacritic c = c ∨ removeDiacritic c < 128 := by
  unfold removeDiacritic
  simp only
  split
  · exact .inl rfl
  · right
    rcases getD_mem_or_eq aChar _ 0 with h | h
    · have hall : ∀ x ∈ aChar, x < 128 := by decide
      exact hall _ h
    · rw [h]
      decide

/-- Folding does not lead out of the code points that can be written, or into them. -/
theorem sqlite3FtsUnicodeFold_lt {c : Nat} (hc : c < 0x10ffff) (bRemoveDiacritic : Bool) :
    sqlite3FtsUnicodeFold c bRemoveDiacritic < 0x10ffff := by
  rw [sqlite3FtsUnicodeFold]
  split
  · split <;> omega
  split
  · -- what the table gives is masked
    have hret : ∀ p : Prop, ∀ [Decidable p], ∀ x,
        (if p then x &&& 0x0000ffff else c) < 0x10ffff := by
      intro p _ x
      have hle : x &&& 0x0000ffff ≤ 0x0000ffff := Nat.and_le_right
      split <;> omega
    simp only
    split
    · rcases removeDiacritic_cases _ with h | h
      · rw [h]
        exact hret _ _
      · exact Nat.lt_trans h (by decide)
    · exact hret _ _
  · split <;> omega

theorem sqlite3FtsUnicodeFold_high {c : Nat} (hc : 0x10ffff ≤ c) (bRemoveDiacritic : Bool) :
    sqlite3FtsUnicodeFold c bRemoveDiacritic = c := by
  rw [sqlite3FtsUnicodeFold]
  rw [if_neg (by omega), if_neg (by omega), if_neg (by omega)]

theorem entries_lt : ∀ e ∈ entries unicharDecompositionData, e.1 < 0x10ffff ∧
    ∀ d ∈ e.2, d < 0x10ffff := by
  decide +kernel

/-- The decomposition of a code point that can be written consists of such code points. -/
theorem decomposition_lt {c : Nat} (hc : c < 0x10ffff) :
    ∀ d ∈ decomposition unicharDecompositionData c, (d : Nat) < 0x10ffff := by
  rw [decomposition]
  cases hdec : unicharDecompose unicharDecompositionData c with
  | none => simpa using hc
  | some ds => exact (entries_lt _ (mem_entries hdec)).2

theorem decomposition_high {c : Nat} (hc : 0x10ffff ≤ c) :
    decomposition unicharDecompositionData c = [c] := by
  rw [decomposition]
  cases hdec : unicharDecompose unicharDecompositionData c with
  | none => rfl
  | some ds => exact absurd (entries_lt _ (mem_entries hdec)).1 (Nat.not_lt.mpr hc)

theorem retained_lt (module : NdsUnicode61) {c : Nat} (hc : c < 0x10ffff) :
    ∀ d ∈ retained unicharDecompositionData module c, (d : Nat) < 0x10ffff := by
  unfold retained
  simp only
  split
  · simp
  · intro d hd
    exact decomposition_lt (sqlite3FtsUnicodeFold_lt hc _) d (List.mem_of_mem_filter hd)

/-- Marks can be written. -/
theorem isDiacritic_lt {c : Nat} (h : isDiacritic c = true) : c < 0x10ffff := by
  simp only [isDiacritic, unicharIsCombiningMark, Bool.or_eq_true, Bool.and_eq_true,
    decide_eq_true_eq, beq_iff_eq] at h
  rcases h with ((((h | h) | h) | h) | rfl) | rfl
  · exact Nat.lt_of_le_of_lt h.2 (by decide)
  · exact Nat.lt_of_le_of_lt h.2 (by decide)
  · exact Nat.lt_of_le_of_lt h.2 (by decide)
  · exact Nat.lt_of_le_of_lt h.2 (by decide)
  · decide
  · decide

theorem isDiacritic_high {c : Nat} (h : 0x10ffff ≤ c) : isDiacritic c = false := by
  by_contra hmark
  exact Nat.not_lt.mpr h (isDiacritic_lt (by simpa using hmark))

end Characters

namespace StringBuffer

variable (fresh : Nat → Nat → UInt8)

def pushBackUnicharAsserts (self : StringBuffer) (c : Unichar) : Bool :=
  let self := self.ensureExtraCapacity fresh 4
  writeUnicharAsUtf8Asserts c (self.capacity - self.size)

def popFrontAsserts (self : StringBuffer) (count : Nat) : Bool :=
  let count := if count > self.size then self.size else count
  count = self.size || !utf8IsContinuationByte (self.buffer count)

end StringBuffer

namespace NdsUnicode61Cursor

variable (fresh : Nat → Nat → UInt8) (table : UnicharDecompositionTable) (module : NdsUnicode61)

def pushDecomposedAsserts (removeDiacritics : Bool) : List Unichar → StringBuffer → Bool
  | [], _ => true
  | c :: decomposed, token =>
    if !removeDiacritics || !isDiacritic c then
      token.pushBackUnicharAsserts fresh c &&
        match token.pushBackUnichar fresh c with
        | (true, token) => pushDecomposedAsserts removeDiacritics decomposed token
        | (false, _) => true
    else pushDecomposedAsserts removeDiacritics decomposed token

def addTokenCodepointAsserts (cursor : NdsUnicode61Cursor) (character : Unichar) : Bool :=
  let folded := sqlite3FtsUnicodeFold character module.removeDiacritics
  sqlite3FtsUnicodeFoldAsserts character module.removeDiacritics &&
    (folded = 0 || (unicharDecomposeAsserts table folded &&
      pushDecomposedAsserts fresh module.removeDiacritics (decomposition table folded)
        cursor.token))

/-- The loop has to end within `n` passes. -/
def accumulateMarksAsserts : Nat → NdsUnicode61Cursor → Bool
  | 0, _ => false
  | n + 1, cursor =>
    match cursor.getNextChar with
    | (false, _) => true
    | (true, cursor) =>
      if isDiacritic cursor.currentCharacter then
        addTokenCodepointAsserts fresh table module cursor cursor.currentCharacter &&
          accumulateMarksAsserts n
            (addTokenCodepoint fresh table module cursor cursor.currentCharacter).2
      else true

def accumulateTokenCharacterAsserts (cursor : NdsUnicode61Cursor) : Bool :=
  addTokenCodepointAsserts fresh table module cursor cursor.currentCharacter &&
    match addTokenCodepoint fresh table module cursor cursor.currentCharacter with
    | (false, _) => true
    | (true, cursor) => accumulateMarksAsserts fresh table module (cursor.input.length + 1) cursor

/-- The loop has to end within `n` passes. -/
def skipSeparatorsAsserts : Nat → NdsUnicode61Cursor → Bool
  | 0, _ => false
  | n + 1, cursor =>
    match cursor.getNextChar with
    | (false, _) => true
    | (true, cursor) =>
      isAlNumAsserts cursor.currentCharacter &&
        (module.isTokenChar cursor.currentCharacter || skipSeparatorsAsserts n cursor)

def seekTokenStartAsserts (cursor : NdsUnicode61Cursor) : Bool :=
  decide (cursor.state = .unknown) && skipSeparatorsAsserts module (cursor.input.length + 1) cursor

/-- The loop has to end within `n` passes. -/
def scanLatinAsserts : Nat → NdsUnicode61Cursor → Bool
  | 0, cursor => cursor.isEnd
  | n + 1, cursor =>
    if cursor.isEnd then true
    else
      isAlNumAsserts cursor.currentCharacter &&
      if !isBigrammable cursor.currentCharacter && module.isTokenChar cursor.currentCharacter then
        accumulateTokenCharacterAsserts fresh table module cursor &&
          match accumulateTokenCharacter fresh table module cursor with
          | (true, cursor) => scanLatinAsserts n cursor
          | (false, _) => true
      else true

def nextLatinAsserts (cursor : NdsUnicode61Cursor) : Bool :=
  let flushed := { cursor with token := cursor.token.flush }
  decide (cursor.state = .latin) &&
  accumulateTokenCharacterAsserts fresh table module flushed &&
    match accumulateTokenCharacter fresh table module flushed with
    | (false, _) => true
    | (true, cursor) =>
      let scan := scanLatin fresh table module (cursor.input.length + 1) cursor
      scanLatinAsserts fresh table module (cursor.input.length + 1) cursor &&
        (!scan.success || scan.cursor.isEnd || scan.currentIsSeparator || scan.currentIsCJK)

def firstOfBigramAsserts (cursor : NdsUnicode61Cursor) : Bool :=
  if cursor.state = .bigramStart then
    accumulateTokenCharacterAsserts fresh table module
      { cursor with token := cursor.token.flush, bigramOffset1 := offset cursor.current }
  else cursor.token.popFrontAsserts cursor.bigramFirstCharSize

def secondOfBigramAsserts (cursor : NdsUnicode61Cursor) : Bool :=
  if !cursor.isEnd then
    isAlNumAsserts cursor.currentCharacter &&
    if module.isTokenChar cursor.currentCharacter && isBigrammable cursor.currentCharacter then
      accumulateTokenCharacterAsserts fresh table module
        { cursor with bigramOffset2 := offset cursor.current }
    else true
  else true

def nextBigramAsserts (cursor : NdsUnicode61Cursor) : Bool :=
  decide (cursor.state = .bigram ∨ cursor.state = .bigramStart) &&
  firstOfBigramAsserts fresh table module cursor &&
    match firstOfBigram fresh table module cursor with
    | (false, _) => true
    | (true, cursor) => secondOfBigramAsserts fresh table module cursor

def lastBigramAsserts (cursor : NdsUnicode61Cursor) : Bool :=
  cursor.isEnd || isAlNumAsserts cursor.currentCharacter

def readTokenAsserts (cursor : NdsUnicode61Cursor) : Bool :=
  decide (cursor.state ≠ .unknown) &&
  if cursor.state = .latin then nextLatinAsserts fresh table module cursor
  else
    nextBigramAsserts fresh table module cursor &&
      let (r, haveToken, cursor) := nextBigram fresh table module cursor
      decide (r ≠ sqliteOk) || !haveToken || lastBigramAsserts cursor

/-- The assertions of one pass of `NdsUnicode61_next`. -/
def nextBodyAsserts (cursor : NdsUnicode61Cursor) : Bool :=
  if cursor.isEnd then true
  else if cursor.state = .unknown then
    seekTokenStartAsserts module cursor &&
      match seekTokenStart module cursor with
      | (false, _) => true
      | (true, cursor) =>
        cursor.isEnd || readTokenAsserts fresh table module
          { cursor with
            state := if isBigrammable cursor.currentCharacter then .bigramStart else .latin }
  else readTokenAsserts fresh table module cursor

/-- The cursor that a pass leaves behind, to the next pass or to the next call. -/
def behind : Pass NdsUnicode61Cursor NextResult → NdsUnicode61Cursor
  | .again cursor => cursor
  | .exit r => r.cursor

/-- The cursors that the calls on a cursor lead to, pass by pass. -/
inductive Reaches : NdsUnicode61Cursor → NdsUnicode61Cursor → Prop where
  | refl (cursor) : Reaches cursor cursor
  | pass {cursor cursor'} (h : Reaches (behind (nextBody fresh table module cursor)) cursor') :
      Reaches cursor cursor'

/-- No run of calls on a cursor comes to an assertion that fails. -/
def AssertsHold (cursor : NdsUnicode61Cursor) : Prop :=
  ∀ cursor', Reaches fresh table module cursor cursor' →
    nextBodyAsserts fresh table module cursor' = true

end NdsUnicode61Cursor

end NdsDevkit.Tokenizer
