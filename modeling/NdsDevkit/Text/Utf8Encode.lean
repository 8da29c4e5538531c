import NdsDevkit.Framework.ByteField
import NdsDevkit.Text.Utf8
import Mathlib.Data.Nat.Bitwise

namespace NdsDevkit.Text

open Framework (forall_byte)

/-- A continuation byte with the six data bits `x`. -/
def continuationByte (x : Nat) : UInt8 := UInt8.ofNat (0x80 + x)

/-- The UTF-8 form of a character of up to 21 bits. -/
def utf8Bytes (c : Nat) : List UInt8 :=
  if c < 0x80 then [UInt8.ofNat c]
  else if c < 0x800 then [UInt8.ofNat (0xc0 + c / 64), continuationByte (c % 64)]
  else if c < 0x10000 then
    [UInt8.ofNat (0xe0 + c / 4096), continuationByte (c % 4096 / 64), continuationByte (c % 64)]
  else
    [UInt8.ofNat (0xf0 + c / 262144), continuationByte (c % 262144 / 4096),
      continuationByte (c % 4096 / 64), continuationByte (c % 64)]

def utf8Text (cs : List Unichar) : List UInt8 := cs.flatMap utf8Bytes

@[simp] theorem utf8Text_nil : utf8Text [] = [] := rfl

@[simp] theorem utf8Text_append (cs ds : List Unichar) :
    utf8Text (cs ++ ds) = utf8Text cs ++ utf8Text ds :=
  List.flatMap_append

@[simp] theorem utf8Text_singleton (c : Unichar) : utf8Text [c] = utf8Bytes c := by
  simp [utf8Text]

/-- Setting marker bits above the data bits adds them. -/
theorem or_eq_add (a : Nat) {k x : Nat} (h : x < 2 ^ k) : a <<< k ||| x = a * 2 ^ k + x := by
  rw [← Nat.shiftLeft_add_eq_or_of_lt h, Nat.shiftLeft_eq]

/-- Masking the written bits out leaves the bits below them. -/
theorem mask_written {n c : Nat} (hn : n ≤ 3) (hc : c < 2 ^ (6 * n + 6)) :
    c &&& (0xffffffff ^^^ (0x3f <<< (6 * n))) = c % 2 ^ (6 * n) := by
  apply Nat.eq_of_testBit_eq
  intro i
  rw [Nat.testBit_and, Nat.testBit_xor, Nat.testBit_shiftLeft, Nat.testBit_mod_two_pow,
    show (0xffffffff : Nat) = 2 ^ 32 - 1 by rfl, show (0x3f : Nat) = 2 ^ 6 - 1 by rfl,
    Nat.testBit_two_pow_sub_one, Nat.testBit_two_pow_sub_one]
  by_cases hlow : i < 6 * n
  · have h32 : i < 32 := by omega
    simp [hlow, h32]
  · by_cases hmid : i < 6 * n + 6
    · have h32 : i < 32 := by omega
      have h6 : i - 6 * n < 6 := by omega
      simp [hlow, h32, h6, Nat.le_of_not_lt hlow]
    · have hbit : c.testBit i = false :=
        Nat.testBit_lt_two_pow (Nat.lt_of_lt_of_le hc (Nat.pow_le_pow_right (by decide) (by omega)))
      simp [hlow, hbit]

theorem utf8Continuation_succ {n c : Nat} (hn : n ≤ 3) (hc : c < 2 ^ (6 * n + 6)) :
    utf8Continuation (n + 1) c =
      continuationByte (c / 2 ^ (6 * n)) :: utf8Continuation n (c % 2 ^ (6 * n)) := by
  have hdata : c / 2 ^ (6 * n) < 2 ^ 6 := by
    rw [Nat.div_lt_iff_lt_mul (Nat.two_pow_pos _), ← Nat.pow_add]
    rwa [Nat.add_comm]
  have hfirst : 0x80 ||| c >>> (6 * n) = 0x80 + c / 2 ^ (6 * n) := by
    rw [Nat.shiftRight_eq_div_pow]
    exact or_eq_add 2 hdata
  simp only [utf8Continuation, utf8ContinuationDataBits]
  rw [hfirst, mask_written hn hc]
  rfl

/-- The last `n + 1` bytes, for every number of them that there can be. -/
theorem utf8Continuation_eq {c : Nat} :
    (c < 2 ^ 6 → utf8Continuation 1 c = [continuationByte c]) ∧
    (c < 2 ^ 12 → utf8Continuation 2 c = [continuationByte (c / 64), continuationByte (c % 64)]) ∧
    (c < 2 ^ 18 → utf8Continuation 3 c =
      [continuationByte (c / 4096), continuationByte (c % 4096 / 64), continuationByte (c % 64)]) := by
  refine ⟨fun h => ?_, fun h => ?_, fun h => ?_⟩
  · rw [utf8Continuation_succ (n := 0) (by omega) (by omega)]
    simp [utf8Continuation]
  · rw [utf8Continuation_succ (n := 1) (by omega) (by omega),
      utf8Continuation_succ (n := 0) (by omega) (by omega)]
    simp [utf8Continuation]
  · rw [utf8Continuation_succ (n := 2) (by omega) (by omega),
      utf8Continuation_succ (n := 1) (by omega) (by omega),
      utf8Continuation_succ (n := 0) (by omega) (by omega)]
    simp [utf8Continuation]

theorem utf8FirstByte_eq {c : Nat} (hc : c < 2 ^ 21) :
    utf8FirstByte c =
      if c < 0x80 then (UInt8.ofNat c, 0, 0)
      else if c < 0x800 then (UInt8.ofNat (0xc0 + c / 64), c % 64, 1)
      else if c < 0x10000 then (UInt8.ofNat (0xe0 + c / 4096), c % 4096, 2)
      else (UInt8.ofNat (0xf0 + c / 262144), c % 262144, 3) := by
  have h6 : c >>> 6 = c / 64 := Nat.shiftRight_eq_div_pow c 6
  have h12 : c >>> 12 = c / 4096 := Nat.shiftRight_eq_div_pow c 12
  have h18 : c >>> 18 = c / 262144 := Nat.shiftRight_eq_div_pow c 18
  have m6 : c &&& 0x3f = c % 64 := Nat.and_two_pow_sub_one_eq_mod c 6
  have m12 : c &&& 0xfff = c % 4096 := Nat.and_two_pow_sub_one_eq_mod c 12
  have m18 : c &&& 0x3ffff = c % 262144 := Nat.and_two_pow_sub_one_eq_mod c 18
  simp only [utf8FirstByte, utf8ContinuationDataBits, Nat.reduceMul, h6, h12, h18, m6, m12, m18]
  split_ifs with h1 h2 h3
  · rfl
  · replace h2 : (c : Nat) < 0x800 := h2
    rw [show 0xc0 ||| c / 64 = 0xc0 + c / 64 from or_eq_add 6 (k := 5) (by omega)]
  · replace h3 : (c : Nat) < 0x10000 := h3
    rw [show 0xe0 ||| c / 4096 = 0xe0 + c / 4096 from or_eq_add 14 (k := 4) (by omega)]
  · rw [show 0xf0 ||| c / 262144 = 0xf0 + c / 262144 from or_eq_add 30 (k := 3) (by omega)]

/-- The writer stores the UTF-8 form. -/
theorem encoded_eq {c : Nat} (hc : c < 2 ^ 21) : encoded c = utf8Bytes c := by
  obtain ⟨h1, _, _⟩ := @utf8Continuation_eq (c % 64)
  obtain ⟨_, k2, _⟩ := @utf8Continuation_eq (c % 4096)
  obtain ⟨_, _, l3⟩ := @utf8Continuation_eq (c % 262144)
  rw [encoded_eq_cons, utf8FirstByte_eq hc, utf8Bytes]
  split_ifs
  · rfl
  · simp only [h1 (by omega)]
  · simp only [k2 (by omega)]
    simp
  · simp only [l3 (by omega)]
    simp

theorem length_utf8Bytes {c : Nat} (hc : c < 2 ^ 21) : (utf8Bytes c).length = utf8Width c := by
  rw [← encoded_eq hc, length_encoded]

theorem writeUnicharAsUtf8_eq {c room : Nat} (hc : c < 2 ^ 21) (hroom : utf8Width c ≤ room) :
    writeUnicharAsUtf8 c room = (true, utf8Bytes c) := by
  rw [writeUnicharAsUtf8_spec c hroom, encoded_eq hc]

theorem charLenValue_one : ∀ x < 0x80, utf8CharLenValue (UInt8.ofNat x) = (1, x) := by decide

theorem charLenValue_two : ∀ x < 32, utf8CharLenValue (UInt8.ofNat (0xc0 + x)) = (2, x) := by decide

theorem charLenValue_three : ∀ x < 16, utf8CharLenValue (UInt8.ofNat (0xe0 + x)) = (3, x) := by
  decide

theorem charLenValue_four : ∀ x < 8, utf8CharLenValue (UInt8.ofNat (0xf0 + x)) = (4, x) := by decide

theorem continuationByte_spec : ∀ x < 64, utf8IsContinuationByte (continuationByte x) = true ∧
    (continuationByte x &&& 0x3f).toNat = x := by decide

/-- A continuation byte brings six more bits. -/
theorem decodeContinuation_succ {n x uc : Nat} (hx : x < 64) (p : List UInt8) :
    decodeContinuation (n + 1) (continuationByte x :: p) uc =
      decodeContinuation n p (uc * 64 + x) := by
  obtain ⟨hcont, hdata⟩ := continuationByte_spec x hx
  rw [decodeContinuation, if_pos hcont, hdata, utf8ContinuationDataBits,
    or_eq_add uc (show x < 2 ^ 6 from hx)]
  rfl

theorem decodeFirst_of_charLenValue {b : UInt8} {n uc uc' : Nat} {p p' : List UInt8}
    (hb : utf8CharLenValue b = (n + 1, uc)) (hn : n ≤ p.length)
    (hp : decodeContinuation n p uc = some (p', uc')) : decodeFirst (b :: p) = some (uc', p') := by
  simp only [decodeFirst, decodeNextUtf8CharToUnichar, hb, List.length_cons,
    Nat.add_sub_cancel, hp]
  rw [if_neg (by omega), if_neg (by omega)]

/-- The decoder reads back what the writer stores. -/
theorem decodeFirst_utf8Bytes {c : Nat} (hc : c < 2 ^ 21) (rest : List UInt8) :
    decodeFirst (utf8Bytes c ++ rest) = some (c, rest) := by
  rw [utf8Bytes]
  split_ifs with h1 h2 h3 <;> simp only [List.cons_append, List.nil_append]
  · exact decodeFirst_of_charLenValue (charLenValue_one c h1) (Nat.zero_le _) rfl
  · refine decodeFirst_of_charLenValue (charLenValue_two (c / 64) (by omega)) (by simp) ?_
    rw [decodeContinuation_succ (by omega), decodeContinuation,
      show c / 64 * 64 + c % 64 = c by omega]
  · refine decodeFirst_of_charLenValue (charLenValue_three (c / 4096) (by omega)) (by simp) ?_
    rw [decodeContinuation_succ (by omega), decodeContinuation_succ (by omega), decodeContinuation,
      show (c / 4096 * 64 + c % 4096 / 64) * 64 + c % 64 = c by omega]
  · refine decodeFirst_of_charLenValue (charLenValue_four (c / 262144) (by omega)) (by simp) ?_
    rw [decodeContinuation_succ (by omega), decodeContinuation_succ (by omega),
      decodeContinuation_succ (by omega), decodeContinuation,
      show ((c / 262144 * 64 + c % 262144 / 4096) * 64 + c % 4096 / 64) * 64 + c % 64 = c by omega]

theorem decodeAll_utf8Text {cs : List Nat} (hcs : ∀ c ∈ cs, c < 2 ^ 21) :
    (decodeAll (utf8Text cs)).1.map Prod.fst = cs := by
  induction cs with
  | nil => rfl
  | cons c cs ih =>
    obtain ⟨hc, hcs⟩ := List.forall_mem_cons.mp hcs
    have htext : utf8Text (c :: cs) = utf8Bytes c ++ utf8Text cs := rfl
    rw [htext, decodeAll_some (decodeFirst_utf8Bytes hc _), List.map_cons, ih hcs]

/-- No character starts with a continuation byte. -/
theorem utf8Bytes_boundary {c : Nat} (hc : c < 2 ^ 21) :
    ∃ b bs, utf8Bytes c = b :: bs ∧ utf8IsContinuationByte b = false := by
  have h1 : ∀ x < 0x80, utf8IsContinuationByte (UInt8.ofNat x) = false := by decide
  have h2 : ∀ x < 32, utf8IsContinuationByte (UInt8.ofNat (0xc0 + x)) = false := by decide
  have h3 : ∀ x < 16, utf8IsContinuationByte (UInt8.ofNat (0xe0 + x)) = false := by decide
  have h4 : ∀ x < 8, utf8IsContinuationByte (UInt8.ofNat (0xf0 + x)) = false := by decide
  rw [utf8Bytes]
  split_ifs
  · exact ⟨_, _, rfl, h1 c (by omega)⟩
  · exact ⟨_, _, rfl, h2 _ (by omega)⟩
  · exact ⟨_, _, rfl, h3 _ (by omega)⟩
  · exact ⟨_, _, rfl, h4 _ (by omega)⟩

/-- The continuation bytes fill in six bits each. -/
theorem decodeContinuation_lt {n bound : Nat} {p p' : List UInt8} {uc uc' : Nat}
    (h : decodeContinuation n p uc = some (p', uc')) (hb : (uc + 1) * 2 ^ (6 * n) ≤ bound) :
    uc' < bound := by
  induction n generalizing p uc with
  | zero =>
    cases h
    exact Nat.lt_of_succ_le (by simpa using hb)
  | succ n ih =>
    cases p with
    | nil => cases h
    | cons b p =>
      unfold decodeContinuation at h
      split at h
      · have hx : (b &&& 0x3f).toNat < 2 ^ 6 := by
          rw [UInt8.toNat_and]
          exact Nat.lt_of_le_of_lt Nat.and_le_right (by decide)
        rw [utf8ContinuationDataBits, or_eq_add uc hx] at h
        refine ih h (Nat.le_trans ?_ hb)
        calc (uc * 2 ^ 6 + (b &&& 0x3f).toNat + 1) * 2 ^ (6 * n)
            ≤ ((uc + 1) * 2 ^ 6) * 2 ^ (6 * n) := Nat.mul_le_mul_right _ (by omega)
          _ = (uc + 1) * 2 ^ (6 * (n + 1)) := by
            rw [Nat.mul_assoc, ← Nat.pow_add, Nat.mul_add, Nat.mul_one, Nat.add_comm 6]
      · cases h

/-- The first byte leaves room for them in 21 bits. -/
theorem utf8CharLenValue_lt (b : UInt8) :
    ((utf8CharLenValue b).2 + 1) * 2 ^ (6 * ((utf8CharLenValue b).1 - 1)) ≤ 2 ^ 21 := by
  revert b
  apply forall_byte
  decide +kernel

theorem decodeNext_lt {i i' : Utf8Input} {uc : Nat}
    (h : decodeNextUtf8CharToUnichar i = (some uc, i')) : uc < 2 ^ 21 := by
  unfold decodeNextUtf8CharToUnichar at h
  split at h
  · cases h
  · cases h
  · next b p hstr =>
    have hlt := utf8CharLenValue_lt b
    split at h
    · cases h
    · generalize utf8CharLenValue b = v at h hlt
      obtain ⟨charLen, val⟩ := v
      simp only at h hlt
      split at h
      · cases h
      · split at h
        · next hd =>
          cases h
          exact decodeContinuation_lt hd hlt
        · cases h

/-- What can be decoded has at most 21 bits. -/
theorem decodeAll_lt (bytes : List UInt8) : ∀ c ∈ (decodeAll bytes).1, (c.1 : Nat) < 2 ^ 21 := by
  induction hn : bytes.length using Nat.strongRecOn generalizing bytes with
  | ind n ih =>
    cases hd : decodeFirst bytes with
    | none => simp [decodeAll_none hd]
    | some r =>
      obtain ⟨uc, rest⟩ := r
      obtain ⟨k, h1, _, hl, hr, hnext⟩ := decodeFirst_some hd
      rw [decodeAll_some hd, List.forall_mem_cons]
      refine ⟨decodeNext_lt hnext, ih rest.length ?_ rest rfl⟩
      rw [hr, List.length_drop]
      omega

end NdsDevkit.Text
