import Mathlib.Tactic.Common
import Mathlib.Algebra.Order.Ring.Nat

namespace NdsDevkit.Text

abbrev Unichar := Nat

def utf8ContinuationDataBits : Nat := 6

def utf8IsContinuationByte (byte : UInt8) : Bool := byte &&& 0xc0 == 0x80

/-- Number of bytes of a character and the data bits of its first byte; 0 bytes when no
character starts with this byte. -/
def utf8CharLenValue (firstByte : UInt8) : Nat × Unichar :=
  if firstByte &&& 0x80 = 0x00 then (1, (firstByte &&& 0x7f).toNat)
  else if firstByte &&& 0xe0 = 0xc0 then (2, (firstByte &&& 0x1f).toNat)
  else if firstByte &&& 0xf0 = 0xe0 then (3, (firstByte &&& 0x0f).toNat)
  else if firstByte &&& 0xf8 = 0xf0 then (4, (firstByte &&& 0x07).toNat)
  else (0, 0)

/-- The loop over the remaining bytes of a character: what is left, and the character. -/
def decodeContinuation : Nat → List UInt8 → Unichar → Option (List UInt8 × Unichar)
  | 0, p, uc => some (p, uc)
  | n + 1, currentByte :: p, uc =>
    if utf8IsContinuationByte currentByte then
      decodeContinuation n p
        (uc <<< utf8ContinuationDataBits ||| (currentByte &&& 0x3f).toNat)
    else none
  | _ + 1, [], _ => none

/-- `*pStr` and `*strLen`: a pointer, as the bytes from it on, and a length that is not larger
than their number. -/
structure Utf8Input where
  str : Option (List UInt8)
  strLen : Int

/-- The next character, and what the two variables hold afterwards. -/
def decodeNextUtf8CharToUnichar (i : Utf8Input) : Option Unichar × Utf8Input :=
  match i.str with
  | none => (none, i)
  | some [] => (none, i)
  | some (firstByte :: p) =>
    if i.strLen ≤ 0 then (none, i)
    else
      let (charLen, uc) := utf8CharLenValue firstByte
      if i.strLen < charLen ∨ charLen = 0 then (none, i)
      else
        let strLen := i.strLen - charLen
        match decodeContinuation (charLen - 1) p uc with
        | some (p, uc) => (some uc, ⟨some p, strLen⟩)
        | none => (none, ⟨i.str, strLen⟩)

/-- The last `n` bytes of a character. Each written part is masked out of it. -/
def utf8Continuation : Nat → Unichar → List UInt8
  | 0, _ => []
  | n + 1, character =>
    let shift := utf8ContinuationDataBits * n
    UInt8.ofNat (0x80 ||| character >>> shift) ::
      utf8Continuation n (character &&& (0xffffffff ^^^ (0x3f <<< shift)))

/-- First byte, the rest of the character and the number of bytes still to write. -/
def utf8FirstByte (character : Unichar) : UInt8 × Unichar × Nat :=
  if character < 0x80 then (UInt8.ofNat character, 0, 0)
  else if character < 0x800 then
    (UInt8.ofNat (0xc0 ||| character >>> utf8ContinuationDataBits), character &&& 0x3f, 1)
  else if character < 0x10000 then
    (UInt8.ofNat (0xe0 ||| character >>> (2 * utf8ContinuationDataBits)), character &&& 0xfff, 2)
  else
    (UInt8.ofNat (0xf0 ||| character >>> (3 * utf8ContinuationDataBits)),
      character &&& 0x3ffff, 3)

/-- Writes a character into `room` bytes: success, and the bytes `*pStr` has moved over. -/
def writeUnicharAsUtf8 (character : Unichar) (room : Nat) : Bool × List UInt8 :=
  if room = 0 then (false, [])
  else
    let (first, character, bytesRemaining) := utf8FirstByte character
    (decide (bytesRemaining ≤ room - 1),
      first :: (utf8Continuation bytesRemaining character).take (room - 1))

/-- The bytes that are written for a character when there is room for all of them. -/
def encoded (character : Unichar) : List UInt8 := (writeUnicharAsUtf8 character 4).2

/-- The first character of a byte string and the bytes behind it. -/
def decodeFirst (bytes : List UInt8) : Option (Unichar × List UInt8) :=
  match decodeNextUtf8CharToUnichar ⟨some bytes, bytes.length⟩ with
  | (some uc, ⟨some rest, _⟩) => some (uc, rest)
  | _ => none

/-- The characters of the longest decodable prefix with their widths in bytes, and the bytes
behind it. Each character takes a byte, so the length is enough fuel. -/
def decodeFuel : Nat → List UInt8 → List (Unichar × Nat) × List UInt8
  | 0, bytes => ([], bytes)
  | n + 1, bytes =>
    match decodeFirst bytes with
    | none => ([], bytes)
    | some (uc, rest) =>
      let (chars, stop) := decodeFuel n rest
      ((uc, bytes.length - rest.length) :: chars, stop)

def decodeAll (bytes : List UInt8) : List (Unichar × Nat) × List UInt8 :=
  decodeFuel bytes.length bytes

theorem utf8CharLenValue_le (b : UInt8) : (utf8CharLenValue b).1 ≤ 4 := by
  rw [utf8CharLenValue]
  split_ifs <;> simp

theorem decodeContinuation_eq {n : Nat} {p p' : List UInt8} {uc uc' : Unichar}
    (h : decodeContinuation n p uc = some (p', uc')) : p' = p.drop n ∧ n ≤ p.length := by
  induction n generalizing p uc with
  | zero =>
    cases h
    exact ⟨rfl, Nat.zero_le _⟩
  | succ n ih =>
    cases p with
    | nil => cases h
    | cons b p =>
      simp only [decodeContinuation] at h
      split at h
      · obtain ⟨he, hl⟩ := ih h
        exact ⟨he, Nat.succ_le_succ hl⟩
      · cases h

/-- What a successful call does: it moves over between one and four bytes. -/
theorem decodeNext_some {i i' : Utf8Input} {uc : Unichar}
    (h : decodeNextUtf8CharToUnichar i = (some uc, i')) :
    ∃ bytes n, i.str = some bytes ∧ 1 ≤ n ∧ n ≤ 4 ∧ n ≤ bytes.length ∧ (n : Int) ≤ i.strLen ∧
      i' = ⟨some (bytes.drop n), i.strLen - n⟩ := by
  unfold decodeNextUtf8CharToUnichar at h
  split at h
  · cases h
  · cases h
  · next b p hstr =>
    have hle := utf8CharLenValue_le b
    split at h
    · cases h
    · generalize utf8CharLenValue b = v at h hle
      obtain ⟨charLen, val⟩ := v
      simp only at h hle
      split at h
      · cases h
      · split at h
        · next hn _ p' uc' hd =>
          obtain ⟨hp, hl⟩ := decodeContinuation_eq hd
          cases h
          obtain ⟨k, rfl⟩ : ∃ k, charLen = k + 1 := ⟨charLen - 1, by omega⟩
          refine ⟨_, k + 1, hstr, by omega, hle, ?_, by omega, ?_⟩
          · simpa using hl
          · rw [hp]
            rfl
        · cases h

theorem decodeFirst_some {bytes rest : List UInt8} {uc : Unichar}
    (h : decodeFirst bytes = some (uc, rest)) :
    ∃ n, 1 ≤ n ∧ n ≤ 4 ∧ n ≤ bytes.length ∧ rest = bytes.drop n ∧
      decodeNextUtf8CharToUnichar ⟨some bytes, bytes.length⟩ =
        (some uc, ⟨some rest, rest.length⟩) := by
  unfold decodeFirst at h
  split at h
  · next uc' rest' len hd =>
    cases h
    obtain ⟨bytes', n, hb, h1, h4, hl, _, hi⟩ := decodeNext_some hd
    cases hb
    obtain ⟨hr, hlen⟩ := Utf8Input.mk.inj hi
    cases hr
    refine ⟨n, h1, h4, hl, rfl, ?_⟩
    rw [hd, hlen]
    simp only [List.length_drop]
    congr 2
    omega
  · cases h

theorem decodeFirst_none {bytes : List UInt8} (h : decodeFirst bytes = none) :
    (decodeNextUtf8CharToUnichar ⟨some bytes, bytes.length⟩).1 = none := by
  unfold decodeFirst at h
  split at h
  · cases h
  · next hn =>
    rcases hd : decodeNextUtf8CharToUnichar ⟨some bytes, bytes.length⟩ with ⟨_ | uc, i⟩
    · rfl
    · obtain ⟨bytes', n, _, _, _, _, _, hi⟩ := decodeNext_some hd
      subst hi
      exact absurd hd (hn _ _ _)

@[simp] theorem decodeFirst_nil : decodeFirst [] = none := rfl

theorem decodeFuel_eq {n m : Nat} {bytes : List UInt8} (hn : bytes.length ≤ n)
    (hm : bytes.length ≤ m) : decodeFuel n bytes = decodeFuel m bytes := by
  induction n generalizing m bytes with
  | zero =>
    have hnil : bytes = [] := List.length_eq_zero_iff.mp (by omega)
    subst hnil
    cases m <;> rfl
  | succ n ih =>
    cases m with
    | zero =>
      have hnil : bytes = [] := List.length_eq_zero_iff.mp (by omega)
      subst hnil
      rfl
    | succ m =>
      simp only [decodeFuel]
      split
      · rfl
      · next uc rest hd =>
        obtain ⟨k, h1, _, _, hr, _⟩ := decodeFirst_some hd
        have hlen : rest.length ≤ n ∧ rest.length ≤ m := by
          rw [hr, List.length_drop]
          omega
        rw [ih hlen.1 hlen.2]

theorem decodeAll_none {bytes : List UInt8} (h : decodeFirst bytes = none) :
    decodeAll bytes = ([], bytes) := by
  rw [decodeAll]
  cases hl : bytes.length with
  | zero => rfl
  | succ n => simp [decodeFuel, h]

theorem decodeAll_some {bytes rest : List UInt8} {uc : Unichar}
    (h : decodeFirst bytes = some (uc, rest)) :
    decodeAll bytes = ((uc, bytes.length - rest.length) :: (decodeAll rest).1,
      (decodeAll rest).2) := by
  obtain ⟨k, h1, _, hl, hr, _⟩ := decodeFirst_some h
  have hlen : rest.length < bytes.length := by
    rw [hr, List.length_drop]
    omega
  obtain ⟨n, hn⟩ : ∃ n, bytes.length = n + 1 := ⟨bytes.length - 1, by omega⟩
  have hfuel : decodeFuel rest.length rest = decodeFuel n rest :=
    decodeFuel_eq (Nat.le_refl _) (by omega)
  unfold decodeAll
  rw [hfuel, hn]
  simp [decodeFuel, h, hn]

@[simp] theorem decodeAll_nil : decodeAll [] = ([], []) := rfl

/-- How many bytes a character takes. -/
def utf8Width (character : Unichar) : Nat := (utf8FirstByte character).2.2 + 1

theorem utf8Width_pos (character : Unichar) : 0 < utf8Width character := Nat.succ_pos _

theorem utf8FirstByte_le (character : Unichar) : (utf8FirstByte character).2.2 ≤ 3 := by
  rw [utf8FirstByte]
  split_ifs <;> simp

theorem length_utf8Continuation (n : Nat) (character : Unichar) :
    (utf8Continuation n character).length = n := by
  induction n generalizing character with
  | zero => rfl
  | succ n ih => simp [utf8Continuation, ih]

theorem utf8Width_le (character : Unichar) : utf8Width character ≤ 4 :=
  Nat.succ_le_succ (utf8FirstByte_le character)

theorem encoded_eq_cons (character : Unichar) :
    encoded character = (utf8FirstByte character).1 ::
      utf8Continuation (utf8FirstByte character).2.2 (utf8FirstByte character).2.1 := by
  have hle := utf8FirstByte_le character
  rw [encoded, writeUnicharAsUtf8]
  rw [if_neg (by omega)]
  simp only [List.cons.injEq, true_and]
  apply List.take_of_length_le
  rw [length_utf8Continuation]
  exact hle

@[simp] theorem length_encoded (character : Unichar) :
    (encoded character).length = utf8Width character := by
  rw [encoded_eq_cons, List.length_cons, length_utf8Continuation, utf8Width]

/-- The writer succeeds when all bytes fit, and writes as many of them as do. -/
theorem writeUnicharAsUtf8_take (character : Unichar) (room : Nat) :
    writeUnicharAsUtf8 character room =
      (decide (utf8Width character ≤ room), (encoded character).take room) := by
  rw [encoded_eq_cons, writeUnicharAsUtf8, utf8Width]
  split
  · next h0 => simp [h0]
  · next hpos =>
    obtain ⟨n, rfl⟩ : ∃ n, room = n + 1 := ⟨room - 1, by omega⟩
    simp

theorem writeUnicharAsUtf8_spec (character : Unichar) {room : Nat}
    (hroom : utf8Width character ≤ room) :
    writeUnicharAsUtf8 character room = (true, encoded character) := by
  rw [writeUnicharAsUtf8_take, decide_eq_true hroom,
    List.take_of_length_le (by rwa [length_encoded])]

end NdsDevkit.Text
