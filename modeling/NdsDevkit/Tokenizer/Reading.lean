import NdsDevkit.Tokenizer.ByteQueue
import NdsDevkit.Tokenizer.Cursor

namespace NdsDevkit.Tokenizer

open Framework Text

/-- Decoded characters with their widths in the input. -/
abbrev Chars := List (Unichar × Nat)

def width (l : Chars) : Nat := (l.map Prod.snd).sum

@[simp] theorem width_nil : width [] = 0 := rfl

@[simp] theorem width_cons (c : Unichar × Nat) (l : Chars) : width (c :: l) = c.2 + width l := by
  simp [width]

/-- `l` can be decoded from an offset on; `clean` tells whether that is all of the input. -/
structure Rest (input : List UInt8) (off : Nat) (l : Chars) (clean : Bool) : Prop where
  off_le : off ≤ input.length
  chars : (decodeAll (input.drop off)).1 = l
  clean_eq : (decodeAll (input.drop off)).2.isEmpty = clean

namespace Rest

variable {input : List UInt8} {off w : Nat} {l : Chars} {clean : Bool} {c : Unichar}

theorem decodeFirst_none (h : Rest input off [] clean) :
    decodeFirst (input.drop off) = none := by
  cases hd : decodeFirst (input.drop off) with
  | none => rfl
  | some r =>
    obtain ⟨uc, rest⟩ := r
    have := h.chars
    rw [decodeAll_some hd] at this
    cases this

theorem end_iff (h : Rest input off [] clean) : clean = true ↔ off = input.length := by
  have hle := h.off_le
  have hc := h.clean_eq
  rw [decodeAll_none h.decodeFirst_none] at hc
  rw [← hc, List.isEmpty_iff, List.drop_eq_nil_iff]
  omega

theorem cons (h : Rest input off ((c, w) :: l) clean) :
    0 < w ∧ off < input.length ∧ decodeFirst (input.drop off) = some (c, input.drop (off + w)) ∧
      Rest input (off + w) l clean := by
  have hle := h.off_le
  have hch := h.chars
  have hcl := h.clean_eq
  cases hd : decodeFirst (input.drop off) with
  | none =>
    rw [decodeAll_none hd] at hch
    cases hch
  | some r =>
    obtain ⟨uc, rest⟩ := r
    obtain ⟨n, h1, _, hn, hr, _⟩ := decodeFirst_some hd
    rw [decodeAll_some hd] at hch hcl
    simp only [List.cons.injEq, Prod.mk.injEq] at hch
    rw [List.length_drop] at hn hch
    have hw : w = n := by
      rw [hr, List.length_drop, List.length_drop] at hch
      omega
    subst hw
    rw [List.drop_drop] at hr
    obtain ⟨⟨rfl, _⟩, hl⟩ := hch
    subst hr
    exact ⟨h1, by omega, rfl, by omega, hl, hcl⟩

/-- Every character takes a byte. -/
theorem length_le (h : Rest input off l clean) : off + l.length ≤ input.length := by
  induction l generalizing off with
  | nil => exact h.off_le
  | cons c l ih =>
    obtain ⟨hw, _, _, hrest⟩ := h.cons
    have := ih hrest
    rw [List.length_cons]
    omega

end Rest

namespace NdsUnicode61Cursor

/-- The characters from `next` on. -/
structure Left (cursor : NdsUnicode61Cursor) (off : Nat) (l : Chars) (clean : Bool) : Prop where
  nonempty : 0 < cursor.input.length
  next : cursor.next = some off
  rest : Rest cursor.input off l clean

/-- The cursor has tried to read on from an offset and found `l` there: it stands at the first of
these characters, or at the end, or before bytes that cannot be decoded. -/
structure Ahead (cursor : NdsUnicode61Cursor) (off : Nat) (l : Chars) (clean : Bool) : Prop where
  nonempty : 0 < cursor.input.length
  rest : Rest cursor.input off l clean
  place : match l with
    | [] => cursor.next = some off ∧ cursor.isEnd = clean
    | c :: _ => cursor.current = some off ∧ cursor.currentCharacter = c.1 ∧
        cursor.next = some (off + c.2)

/-- Nothing but the place in the input and the token buffer has changed. -/
structure Moved (cursor cursor' : NdsUnicode61Cursor) : Prop where
  input : cursor'.input = cursor.input
  state : cursor'.state = cursor.state
  index : cursor'.index = cursor.index
  bigramFirstCharSize : cursor'.bigramFirstCharSize = cursor.bigramFirstCharSize
  bigramOffset1 : cursor'.bigramOffset1 = cursor.bigramOffset1
  bigramOffset2 : cursor'.bigramOffset2 = cursor.bigramOffset2

theorem Moved.refl (cursor : NdsUnicode61Cursor) : Moved cursor cursor :=
  ⟨rfl, rfl, rfl, rfl, rfl, rfl⟩

theorem Moved.trans {a b c : NdsUnicode61Cursor} (h : Moved a b) (h' : Moved b c) : Moved a c :=
  ⟨h'.input.trans h.input, h'.state.trans h.state, h'.index.trans h.index,
    h'.bigramFirstCharSize.trans h.bigramFirstCharSize, h'.bigramOffset1.trans h.bigramOffset1,
    h'.bigramOffset2.trans h.bigramOffset2⟩

theorem Moved.of_token {a b : NdsUnicode61Cursor} {token : StringBuffer}
    (h : Moved { a with token } b) : Moved a b :=
  ⟨h.input, h.state, h.index, h.bigramFirstCharSize, h.bigramOffset1, h.bigramOffset2⟩

variable {cursor : NdsUnicode61Cursor} {off : Nat} {l : Chars} {clean : Bool}

theorem Left.withToken (h : cursor.Left off l clean) (token : StringBuffer) :
    ({ cursor with token } : NdsUnicode61Cursor).Left off l clean :=
  ⟨h.nonempty, h.next, h.rest⟩

theorem inputEnd_eq (h : 0 < cursor.input.length) :
    cursor.inputEnd = some cursor.input.length := if_pos h

theorem Ahead.left {c : Unichar × Nat} (h : cursor.Ahead off (c :: l) clean) :
    cursor.Left (off + c.2) l clean :=
  ⟨h.nonempty, h.place.2.2, h.rest.cons.2.2.2⟩

theorem Ahead.left_nil (h : cursor.Ahead off [] clean) : cursor.Left off [] clean :=
  ⟨h.nonempty, h.place.1, h.rest⟩

theorem Ahead.isEnd_cons {c : Unichar × Nat} (h : cursor.Ahead off (c :: l) clean) :
    cursor.isEnd = false := by
  obtain ⟨_, hlt, _, _⟩ := h.rest.cons
  rw [isEnd, decide_eq_false_iff_not, h.place.1, inputEnd_eq h.nonempty, Option.some.injEq]
  omega

theorem Ahead.current_end (h : cursor.Ahead off [] true) : cursor.current = some off := by
  have hend := h.place.2
  rw [isEnd, decide_eq_true_eq, inputEnd_eq h.nonempty] at hend
  rw [hend, h.rest.end_iff.mp rfl]

/-- One reading step. At undecodable bytes nothing changes. -/
theorem getNextChar_spec (h : cursor.Left off l clean)
    (hend : clean = false → cursor.isEnd = false) :
    ∃ cursor', cursor.getNextChar = (!l.isEmpty, cursor') ∧ cursor'.Ahead off l clean ∧
      Moved cursor cursor' ∧ cursor'.token = cursor.token ∧
      (l = [] → cursor'.currentCharacter = cursor.currentCharacter) := by
  obtain ⟨hne, hnext, hrest⟩ := h
  rw [getNextChar]
  rw [hnext, inputEnd_eq hne]
  cases l with
  | nil =>
    cases clean with
    | true =>
      rw [if_pos (by rw [hrest.end_iff.mp rfl])]
      refine ⟨_, rfl, ⟨hne, hrest, rfl, ?_⟩, ⟨rfl, rfl, rfl, rfl, rfl, rfl⟩, rfl, fun _ => rfl⟩
      rw [isEnd, decide_eq_true_eq]
      exact (inputEnd_eq hne).symm
    | false =>
      have hoff : off ≠ cursor.input.length := by
        intro heq
        exact absurd (hrest.end_iff.mpr heq) (by simp)
      have hdec := Text.decodeFirst_none hrest.decodeFirst_none
      rw [List.length_drop, Int.ofNat_sub hrest.off_le] at hdec
      rw [if_neg (by simpa using hoff)]
      refine ⟨cursor, ?_, ⟨hne, hrest, hnext, hend rfl⟩, Moved.refl cursor, rfl, fun _ => rfl⟩
      simp only [Option.map_some, offset, Option.getD_some]
      split
      · next hs =>
        rw [hs] at hdec
        cases hdec
      · rfl
  | cons c l =>
    obtain ⟨c, w⟩ := c
    obtain ⟨hw, hlt, hfirst, hrest'⟩ := hrest.cons
    obtain ⟨n, _, _, _, _, hdec⟩ := decodeFirst_some hfirst
    rw [List.length_drop, Int.ofNat_sub hrest.off_le] at hdec
    rw [if_neg (by simp; omega)]
    simp only [Option.map_some, offset, Option.getD_some, hdec, List.length_drop]
    have hnext' : cursor.input.length - (cursor.input.length - (off + w)) = off + w := by
      have := hrest'.off_le
      omega
    rw [hnext']
    exact ⟨_, rfl, ⟨hne, hrest, rfl, rfl, rfl⟩, ⟨rfl, rfl, rfl, rfl, rfl, rfl⟩, rfl,
      fun hnil => by cases hnil⟩

end NdsUnicode61Cursor

/-- The last of a character and its marks. -/
def lastChar (c : Unichar) (marks : Chars) : Unichar := (marks.getLast?.map Prod.fst).getD c

theorem lastChar_cons (c : Unichar) (m : Unichar × Nat) (marks : Chars) :
    lastChar c (m :: marks) = lastChar m.1 marks := by
  cases marks with
  | nil => rfl
  | cons m' marks => simp [lastChar, List.getLast?_eq_some_getLast]

def marksOf (l : Chars) : Chars := l.takeWhile fun c => isDiacritic c.1

def behindMarks (l : Chars) : Chars := l.dropWhile fun c => isDiacritic c.1

theorem length_behindMarks_le (l : Chars) : (behindMarks l).length ≤ l.length :=
  (List.dropWhile_sublist _).length_le

section Text

variable (table : UnicharDecompositionTable) (module : NdsUnicode61)

/-- What a character contributes to the text of a token. -/
def retained (c : Unichar) : List Unichar :=
  let folded := sqlite3FtsUnicodeFold c module.removeDiacritics
  if folded = 0 then []
  else (decomposition table folded).filter fun d => !module.removeDiacritics || !isDiacritic d

/-- The bytes that characters contribute. -/
def textBytes (cs : List Unichar) : List UInt8 :=
  (cs.flatMap (retained table module)).flatMap encoded

/-- The number of these bytes. -/
def textSize (cs : List Unichar) : Nat := ((cs.flatMap (retained table module)).map utf8Width).sum

variable {table module}

@[simp] theorem length_textBytes (cs : List Unichar) :
    (textBytes table module cs).length = textSize table module cs := by
  simp [textBytes, textSize, List.length_flatMap]

@[simp] theorem textBytes_nil : textBytes table module [] = [] := rfl

@[simp] theorem textBytes_append (cs ds : List Unichar) :
    textBytes table module (cs ++ ds) = textBytes table module cs ++ textBytes table module ds := by
  simp [textBytes]

theorem textBytes_cons (c : Unichar) (cs : List Unichar) :
    textBytes table module (c :: cs) = textBytes table module [c] ++ textBytes table module cs :=
  textBytes_append [c] cs

@[simp] theorem textSize_nil : textSize table module [] = 0 := rfl

theorem textSize_append (cs ds : List Unichar) :
    textSize table module (cs ++ ds) = textSize table module cs + textSize table module ds := by
  simp [textSize]

theorem textSize_eq_zero {cs : List Unichar} :
    textSize table module cs = 0 ↔ ∀ c ∈ cs, retained table module c = [] := by
  rw [textSize]
  rw [← List.flatMap_eq_nil_iff]
  cases cs.flatMap (retained table module) with
  | nil => simp
  | cons d ds =>
    have := utf8Width_pos d
    simp only [List.map_cons, List.sum_cons, reduceCtorEq, iff_false]
    omega

namespace NdsUnicode61Cursor

theorem pushDecomposed_spec (fresh : Nat → Nat → UInt8) (removeDiacritics : Bool)
    (ds : List Unichar) (token : StringBuffer) :
    ∃ token', pushDecomposed fresh removeDiacritics ds token = (true, token') ∧
      token.Appends token'
        ((ds.filter fun d => !removeDiacritics || !isDiacritic d).flatMap encoded) := by
  induction ds generalizing token with
  | nil => exact ⟨token, rfl, .refl token⟩
  | cons d ds ih =>
    rw [pushDecomposed]
    split
    · next hkeep =>
      obtain ⟨token1, hp, hs⟩ := token.pushBackUnichar_appends fresh d
      obtain ⟨token2, hr, hs2⟩ := ih token1
      refine ⟨token2, by simp only [hp, hr], ?_⟩
      rw [List.filter_cons, if_pos hkeep, List.flatMap_cons]
      exact hs.trans hs2
    · next hdrop =>
      obtain ⟨token2, hr, hs2⟩ := ih token
      exact ⟨token2, hr, by rwa [List.filter_cons, if_neg hdrop]⟩

theorem addTokenCodepoint_spec (fresh : Nat → Nat → UInt8) (table : UnicharDecompositionTable)
    (module : NdsUnicode61) (cursor : NdsUnicode61Cursor) (c : Unichar) :
    ∃ token, addTokenCodepoint fresh table module cursor c = (true, { cursor with token }) ∧
      cursor.token.Appends token (textBytes table module [c]) := by
  unfold addTokenCodepoint textBytes retained
  rw [List.flatMap_singleton]
  simp only
  split
  · exact ⟨cursor.token, rfl, .refl cursor.token⟩
  · obtain ⟨token, hp, hs⟩ := pushDecomposed_spec fresh module.removeDiacritics
      (decomposition table (sqlite3FtsUnicodeFold c module.removeDiacritics)) cursor.token
    exact ⟨token, by simp only [hp], hs⟩

end NdsUnicode61Cursor

end Text

namespace NdsUnicode61Cursor

variable (fresh : Nat → Nat → UInt8) (table : UnicharDecompositionTable) (module : NdsUnicode61)
  {cursor : NdsUnicode61Cursor} {off : Nat} {l : Chars} {clean : Bool}

/-- The marks are added to the token. The cursor ends up at the character behind them. -/
theorem accumulateMarks_spec {n : Nat} (h : cursor.Left off l clean)
    (hend : cursor.isEnd = false) (hn : l.length < n) :
    ∃ cursor', accumulateMarks fresh table module n cursor =
        (!(behindMarks l).isEmpty, cursor') ∧
      cursor'.Ahead (off + width (marksOf l)) (behindMarks l) clean ∧ Moved cursor cursor' ∧
      cursor.token.Appends cursor'.token
        (textBytes table module ((marksOf l).map Prod.fst)) ∧
      (behindMarks l = [] →
        cursor'.currentCharacter = lastChar cursor.currentCharacter (marksOf l)) := by
  induction n generalizing cursor off l with
  | zero => omega
  | succ n ih =>
    obtain ⟨cursor1, hget, hahead, hmoved, htok, hchar⟩ := getNextChar_spec h fun _ => hend
    rw [accumulateMarks]
    rw [hget]
    cases l with
    | nil => exact ⟨cursor1, rfl, hahead, hmoved, htok ▸ .refl _, fun _ => hchar rfl⟩
    | cons c l =>
      simp only [List.isEmpty_cons, Bool.not_false]
      rw [hahead.place.2.1]
      cases hc : isDiacritic c.1 with
      | false =>
        have hm : marksOf (c :: l) = [] := by simp [marksOf, hc]
        have hb : behindMarks (c :: l) = c :: l := by simp [behindMarks, hc]
        rw [hm, hb]
        exact ⟨cursor1, rfl, hahead, hmoved, htok ▸ .refl _, fun hnil => by cases hnil⟩
      | true =>
        have hm : marksOf (c :: l) = c :: marksOf l := by simp [marksOf, hc]
        have hb : behindMarks (c :: l) = behindMarks l := by simp [behindMarks, hc]
        obtain ⟨token, hadd, htext⟩ := addTokenCodepoint_spec fresh table module cursor1 c.1
        rw [htok] at htext
        have hleft := hahead.left
        have hend1 := hahead.isEnd_cons
        obtain ⟨cursor2, hacc, hahead2, hmoved2, htext2, hlast⟩ :=
          ih (hleft.withToken token) hend1 (Nat.lt_of_succ_lt_succ hn)
        rw [hm, hb, width_cons, ← Nat.add_assoc, hadd]
        refine ⟨cursor2, hacc, hahead2, hmoved.trans hmoved2.of_token, ?_, ?_⟩
        · rw [List.map_cons, textBytes_cons c.1]
          exact htext.trans htext2
        · intro hnil
          rw [hlast hnil, lastChar_cons, ← hahead.place.2.1]

/-- A character and the marks behind it are added to the token. -/
theorem accumulateTokenCharacter_spec {c : Unichar × Nat} (h : cursor.Ahead off (c :: l) clean) :
    ∃ cursor', accumulateTokenCharacter fresh table module cursor =
        (clean || !(behindMarks l).isEmpty, cursor') ∧
      cursor'.Ahead (off + c.2 + width (marksOf l)) (behindMarks l) clean ∧ Moved cursor cursor' ∧
      cursor.token.Appends cursor'.token
        (textBytes table module (c.1 :: (marksOf l).map Prod.fst)) ∧
      (behindMarks l = [] → cursor'.currentCharacter = lastChar c.1 (marksOf l)) := by
  obtain ⟨token, hadd, htext⟩ := addTokenCodepoint_spec fresh table module cursor c.1
  have hleft := h.left
  have hlen : l.length < cursor.input.length + 1 := by
    have := hleft.rest.length_le
    omega
  obtain ⟨cursor', hacc, hahead, hmoved, htext', hlast⟩ :=
    accumulateMarks_spec fresh table module (hleft.withToken token) h.isEnd_cons hlen
  rw [accumulateTokenCharacter]
  rw [h.place.2.1, hadd]
  simp only [hacc]
  refine ⟨cursor', ?_, hahead, hmoved.of_token, ?_, ?_⟩
  · cases hb : behindMarks l with
    | nil =>
      rw [hb] at hahead
      simp [hahead.place.2]
    | cons d ds => simp
  · rw [textBytes_cons c.1]
    exact htext.trans htext'
  · intro hnil
    rw [hlast hnil, ← h.place.2.1]

end NdsUnicode61Cursor

end NdsDevkit.Tokenizer
