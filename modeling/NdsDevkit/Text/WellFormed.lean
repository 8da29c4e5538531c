import NdsDevkit.Text.Utf8Encode

namespace NdsDevkit.Text

open Framework (forall_byte)

/-- The code points that UTF-8 can encode. -/
def IsScalar (c : Nat) : Prop := c < 0xd800 ∨ 0xe000 ≤ c ∧ c ≤ 0x10ffff

/-- The bytes a call may look at. -/
def Utf8Input.bytes (i : Utf8Input) : List UInt8 := (i.str.getD []).take i.strLen.toNat

/-- The bytes start with the well-formed sequence of `c`. -/
def StartsWith (bytes : List UInt8) (c : Nat) : Prop := IsScalar c ∧ utf8Bytes c <+: bytes

/-- The input is read as UTF-8 asks for: a character is returned exactly when the bytes start
with a well-formed sequence, which is then what has been read and what is written back. -/
structure ReadsWellFormed (i : Utf8Input) : Prop where
  accepts : (∃ c i', decodeNextUtf8CharToUnichar i = (some c, i')) ↔ ∃ c, StartsWith i.bytes c
  yields : ∀ c, StartsWith i.bytes c → ∃ rest, i.str = some (utf8Bytes c ++ rest) ∧
    decodeNextUtf8CharToUnichar i = (some c, ⟨some rest, i.strLen - (utf8Bytes c).length⟩)
  rewrites : ∀ c, StartsWith i.bytes c → ∀ room, (utf8Bytes c).length ≤ room →
    writeUnicharAsUtf8 c room = (true, utf8Bytes c)

/-- The next `n` bytes are there and are continuation bytes. -/
def ContinuationsFollow (n : Nat) (p : List UInt8) : Prop :=
  n ≤ p.length ∧ ∀ b ∈ p.take n, utf8IsContinuationByte b = true

/-- The first byte announces bytes within the length that are not all continuation bytes. -/
def Utf8Input.BreaksOff (i : Utf8Input) : Prop :=
  ∃ b p, i.str = some (b :: p) ∧ (utf8CharLenValue b).1 ≠ 0 ∧
    (utf8CharLenValue b).1 ≤ i.strLen ∧ ¬ContinuationsFollow ((utf8CharLenValue b).1 - 1) p

/-- First and second byte of an overlong form, of a surrogate, or of a code point behind
U+10FFFF. -/
def Forbidden (first second : Nat) : Prop :=
  first = 0xc0 ∨ first = 0xc1 ∨ first = 0xe0 ∧ second < 0xa0 ∨ first = 0xf0 ∧ second < 0x90 ∨
    first = 0xed ∧ 0xa0 ≤ second ∨
    first = 0xf4 ∧ 0x90 ≤ second ∨ 0xf5 ≤ first ∧ first ≤ 0xf7

/-- The bytes start with all bytes of a forbidden sequence. -/
def Misread (bytes : List UInt8) : Prop :=
  ∃ first second p, bytes = first :: second :: p ∧ Forbidden first.toNat second.toNat ∧
    ContinuationsFollow ((utf8CharLenValue first).1 - 1) (second :: p)

/-- A first byte with the continuation bytes it announces, and the data bits in them. -/
inductive Utf8Form : List UInt8 → Nat → Prop
  | one {a : Nat} (ha : a < 0x80) : Utf8Form [UInt8.ofNat a] a
  | two {a x : Nat} (ha : a < 32) (hx : x < 64) :
    Utf8Form [UInt8.ofNat (0xc0 + a), continuationByte x] (a * 64 + x)
  | three {a x y : Nat} (ha : a < 16) (hx : x < 64) (hy : y < 64) :
    Utf8Form [UInt8.ofNat (0xe0 + a), continuationByte x, continuationByte y]
      ((a * 64 + x) * 64 + y)
  | four {a x y z : Nat} (ha : a < 8) (hx : x < 64) (hy : y < 64) (hz : z < 64) :
    Utf8Form [UInt8.ofNat (0xf0 + a), continuationByte x, continuationByte y, continuationByte z]
      (((a * 64 + x) * 64 + y) * 64 + z)

/-! ### Continuation bytes -/

theorem continuationsFollow_zero (p : List UInt8) : ContinuationsFollow 0 p :=
  ⟨Nat.zero_le _, by simp⟩

theorem continuationsFollow_cons {n : Nat} {b : UInt8} {p : List UInt8} :
    ContinuationsFollow (n + 1) (b :: p) ↔
      utf8IsContinuationByte b = true ∧ ContinuationsFollow n p := by
  simp [ContinuationsFollow]
  tauto

theorem not_continuationsFollow_nil (n : Nat) : ¬ContinuationsFollow (n + 1) [] := by
  simp [ContinuationsFollow]

theorem exists_continuationByte {b : UInt8} (h : utf8IsContinuationByte b = true) :
    ∃ x, x < 64 ∧ b = continuationByte x := by
  have hall : ∀ b, utf8IsContinuationByte b = true → b = continuationByte (b.toNat % 64) := by
    apply forall_byte
    decide +kernel
  exact ⟨b.toNat % 64, Nat.mod_lt _ (by decide), hall b h⟩

theorem continuationsFollow_succ {n : Nat} {p : List UInt8} :
    ContinuationsFollow (n + 1) p ↔
      ∃ x q, x < 64 ∧ p = continuationByte x :: q ∧ ContinuationsFollow n q := by
  constructor
  · intro h
    cases p with
    | nil => exact absurd h (not_continuationsFollow_nil n)
    | cons b p =>
      obtain ⟨hb, hp⟩ := continuationsFollow_cons.mp h
      obtain ⟨x, hx, rfl⟩ := exists_continuationByte hb
      exact ⟨x, p, hx, rfl, hp⟩
  · intro hex
    obtain ⟨x, q, hx, rfl, hq⟩ := hex
    exact continuationsFollow_cons.mpr ⟨(continuationByte_spec x hx).1, hq⟩

/-- The loop over the continuation bytes ends early at the first byte that is none. -/
theorem decodeContinuation_isSome {n : Nat} {p : List UInt8} (uc : Nat) :
    (decodeContinuation n p uc).isSome ↔ ContinuationsFollow n p := by
  induction n generalizing p uc with
  | zero => simp [decodeContinuation, continuationsFollow_zero]
  | succ n ih =>
    cases p with
    | nil => simp [decodeContinuation, not_continuationsFollow_nil]
    | cons b p =>
      rw [continuationsFollow_cons, decodeContinuation]
      split
      · next hb => simp [hb, ih]
      · next hb => simp [hb]

/-! ### Forms -/

theorem charLenValue_cases (b : UInt8) :
    (∃ a, a < 0x80 ∧ b = UInt8.ofNat a) ∨ (∃ a, a < 32 ∧ b = UInt8.ofNat (0xc0 + a)) ∨
      (∃ a, a < 16 ∧ b = UInt8.ofNat (0xe0 + a)) ∨ (∃ a, a < 8 ∧ b = UInt8.ofNat (0xf0 + a)) ∨
      utf8CharLenValue b = (0, 0) := by
  have hnone : ∀ b, 0x80 ≤ b.toNat ∧ b.toNat < 0xc0 ∨ 0xf8 ≤ b.toNat →
      utf8CharLenValue b = (0, 0) := by
    apply forall_byte
    decide +kernel
  have hof : ∀ k, k ≤ b.toNat → b = UInt8.ofNat (k + (b.toNat - k)) := by
    intro k hk
    rw [Nat.add_sub_cancel' hk, UInt8.ofNat_toNat]
  by_cases h1 : b.toNat < 0x80
  · exact .inl ⟨b.toNat, h1, UInt8.ofNat_toNat.symm⟩
  by_cases h2 : b.toNat < 0xc0
  · exact .inr (.inr (.inr (.inr (hnone b (by omega)))))
  by_cases h3 : b.toNat < 0xe0
  · exact .inr (.inl ⟨b.toNat - 0xc0, by omega, hof _ (by omega)⟩)
  by_cases h4 : b.toNat < 0xf0
  · exact .inr (.inr (.inl ⟨b.toNat - 0xe0, by omega, hof _ (by omega)⟩))
  by_cases h5 : b.toNat < 0xf8
  · exact .inr (.inr (.inr (.inl ⟨b.toNat - 0xf0, by omega, hof _ (by omega)⟩)))
  · exact .inr (.inr (.inr (.inr (hnone b (by omega)))))

/-- Enough bytes of the announced kind make a form. -/
theorem exists_utf8Form {b : UInt8} {p : List UInt8} (hpos : (utf8CharLenValue b).1 ≠ 0)
    (hp : ContinuationsFollow ((utf8CharLenValue b).1 - 1) p) :
    ∃ bs c rest, Utf8Form bs c ∧ b :: p = bs ++ rest ∧ bs.length = (utf8CharLenValue b).1 := by
  rcases charLenValue_cases b with ⟨a, ha, rfl⟩ | ⟨a, ha, rfl⟩ | ⟨a, ha, rfl⟩ | ⟨a, ha, rfl⟩ | h0
  · rw [charLenValue_one a ha]
    exact ⟨_, _, p, .one ha, rfl, rfl⟩
  · rw [charLenValue_two a ha] at hp ⊢
    obtain ⟨x, q, hx, rfl, -⟩ := continuationsFollow_succ.mp hp
    exact ⟨_, _, q, .two ha hx, rfl, rfl⟩
  · rw [charLenValue_three a ha] at hp ⊢
    obtain ⟨x, q, hx, rfl, hq⟩ := continuationsFollow_succ.mp hp
    obtain ⟨y, r, hy, rfl, -⟩ := continuationsFollow_succ.mp hq
    exact ⟨_, _, r, .three ha hx hy, rfl, rfl⟩
  · rw [charLenValue_four a ha] at hp ⊢
    obtain ⟨x, q, hx, rfl, hq⟩ := continuationsFollow_succ.mp hp
    obtain ⟨y, r, hy, rfl, hr⟩ := continuationsFollow_succ.mp hq
    obtain ⟨z, t, hz, rfl, -⟩ := continuationsFollow_succ.mp hr
    exact ⟨_, _, t, .four ha hx hy hz, rfl, rfl⟩
  · rw [h0] at hpos
    exact absurd rfl hpos

theorem decodeNext_of_charLenValue {b : UInt8} {n uc uc' : Nat} {p p' : List UInt8} {len : Int}
    (hb : utf8CharLenValue b = (n + 1, uc)) (hn : (n + 1 : Nat) ≤ len)
    (hp : decodeContinuation n p uc = some (p', uc')) :
    decodeNextUtf8CharToUnichar ⟨some (b :: p), len⟩ =
      (some uc', ⟨some p', len - (n + 1 : Nat)⟩) := by
  simp only [decodeNextUtf8CharToUnichar, hb, Nat.add_sub_cancel, hp]
  rw [if_neg (by omega), if_neg (by omega)]

theorem Utf8Form.decodeNext {bs : List UInt8} {c : Nat} {len : Int} (h : Utf8Form bs c)
    (hlen : bs.length ≤ len) (rest : List UInt8) :
    decodeNextUtf8CharToUnichar ⟨some (bs ++ rest), len⟩ =
      (some c, ⟨some rest, len - bs.length⟩) := by
  cases h with
  | one ha => exact decodeNext_of_charLenValue (charLenValue_one c ha) hlen rfl
  | two ha hx =>
    apply decodeNext_of_charLenValue (charLenValue_two _ ha) hlen
    exact decodeContinuation_succ hx rest
  | three ha hx hy =>
    apply decodeNext_of_charLenValue (charLenValue_three _ ha) hlen
    exact (decodeContinuation_succ hx _).trans (decodeContinuation_succ hy rest)
  | four ha hx hy hz =>
    apply decodeNext_of_charLenValue (charLenValue_four _ ha) hlen
    exact (decodeContinuation_succ hx _).trans
      ((decodeContinuation_succ hy _).trans (decodeContinuation_succ hz rest))

/-- What a call can do: it stops at a byte that is no continuation byte, it refuses the first
byte and changes nothing, or it reads a form. -/
theorem decodeNext_cases (i : Utf8Input) :
    (i.BreaksOff ∧ ∃ n : Nat, n ≠ 0 ∧
      decodeNextUtf8CharToUnichar i = (none, ⟨i.str, i.strLen - n⟩)) ∨
    ¬i.BreaksOff ∧ (decodeNextUtf8CharToUnichar i = (none, i) ∨
      ∃ bs c rest, Utf8Form bs c ∧ i.str = some (bs ++ rest) ∧ bs.length ≤ i.strLen ∧
        decodeNextUtf8CharToUnichar i = (some c, ⟨some rest, i.strLen - bs.length⟩)) := by
  obtain ⟨str, len⟩ := i
  match str with
  | none => exact .inr ⟨by simp [Utf8Input.BreaksOff], .inl rfl⟩
  | some [] => exact .inr ⟨by simp [Utf8Input.BreaksOff], .inl rfl⟩
  | some (b :: p) =>
    have hbreaks : (Utf8Input.mk (some (b :: p)) len).BreaksOff ↔ (utf8CharLenValue b).1 ≠ 0 ∧
        (utf8CharLenValue b).1 ≤ len ∧ ¬ContinuationsFollow ((utf8CharLenValue b).1 - 1) p := by
      simp [Utf8Input.BreaksOff, and_assoc]
    rw [hbreaks]
    by_cases hroom : (utf8CharLenValue b).1 ≠ 0 ∧ (utf8CharLenValue b).1 ≤ len
    · obtain ⟨hpos, hlen⟩ := hroom
      by_cases hp : ContinuationsFollow ((utf8CharLenValue b).1 - 1) p
      · obtain ⟨bs, c, rest, hform, hbytes, hwidth⟩ := exists_utf8Form hpos hp
        refine .inr ⟨by tauto, .inr ⟨bs, c, rest, hform, by rw [hbytes], by simp only; omega, ?_⟩⟩
        rw [hbytes]
        exact hform.decodeNext (by omega) rest
      · have hnone : decodeContinuation ((utf8CharLenValue b).1 - 1) p (utf8CharLenValue b).2 =
            none := by
          rw [← Option.not_isSome_iff_eq_none, decodeContinuation_isSome]
          exact hp
        refine .inl ⟨⟨hpos, hlen, hp⟩, _, hpos, ?_⟩
        simp only [decodeNextUtf8CharToUnichar, hnone]
        rw [if_neg (by omega), if_neg (by omega)]
    · refine .inr ⟨by tauto, .inl ?_⟩
      simp only [decodeNextUtf8CharToUnichar]
      split
      · rfl
      · rw [if_pos (by omega)]

theorem decodeNext_form {i i' : Utf8Input} {c : Nat}
    (h : decodeNextUtf8CharToUnichar i = (some c, i')) :
    ∃ bs rest, Utf8Form bs c ∧ i.str = some (bs ++ rest) ∧ bs.length ≤ i.strLen ∧
      i' = ⟨some rest, i.strLen - bs.length⟩ := by
  rcases decodeNext_cases i with ⟨_, n, _, hd⟩ | ⟨_, hd | ⟨bs, c', rest, hform, hstr, hlen, hd⟩⟩
  · rw [hd] at h
    cases h
  · rw [hd] at h
    cases h
  · rw [hd] at h
    cases h
    exact ⟨bs, rest, hform, hstr, hlen, rfl⟩

/-- What is read first does not depend on the bytes behind it. -/
theorem Utf8Form.decodeFirst {bs : List UInt8} {c : Nat} (h : Utf8Form bs c) (rest : List UInt8) :
    decodeFirst (bs ++ rest) = some (c, rest) := by
  rw [Text.decodeFirst, h.decodeNext (by simp) rest]

theorem decodeFirst_form {bytes rest : List UInt8} {c : Nat}
    (h : decodeFirst bytes = some (c, rest)) : ∃ bs, Utf8Form bs c ∧ bytes = bs ++ rest := by
  obtain ⟨_, _, _, _, _, hd⟩ := decodeFirst_some h
  obtain ⟨bs, rest', hform, hstr, _, hi⟩ := decodeNext_form hd
  obtain ⟨hrest, _⟩ := Utf8Input.mk.inj hi
  obtain rfl := Option.some.inj hrest
  exact ⟨bs, hform, Option.some.inj hstr⟩

theorem prefix_bytes {i : Utf8Input} {bs : List UInt8} (hne : bs ≠ []) :
    bs <+: i.bytes ↔ ∃ rest, i.str = some (bs ++ rest) ∧ bs.length ≤ i.strLen := by
  have hpos := List.length_pos_iff.mpr hne
  rw [Utf8Input.bytes, List.prefix_take_iff]
  constructor
  · intro hex
    obtain ⟨⟨rest, hrest⟩, hlen⟩ := hex
    refine ⟨rest, ?_, by omega⟩
    rw [hrest]
    cases hs : i.str with
    | none =>
      rw [hs] at hrest
      exact absurd hrest (by simp [hne])
    | some p => rfl
  · intro hex
    obtain ⟨rest, hstr, hlen⟩ := hex
    rw [hstr]
    exact ⟨⟨rest, rfl⟩, by omega⟩

theorem Utf8Form.ne_nil {bs : List UInt8} {c : Nat} (h : Utf8Form bs c) : bs ≠ [] := by
  cases h <;> simp

/-- A character is returned exactly when the bytes start with a form. -/
theorem decodeNext_iff {i : Utf8Input} {c : Nat} :
    (∃ i', decodeNextUtf8CharToUnichar i = (some c, i')) ↔
      ∃ bs, Utf8Form bs c ∧ bs <+: i.bytes := by
  constructor
  · intro hex
    obtain ⟨i', h⟩ := hex
    obtain ⟨bs, rest, hform, hstr, hlen, _⟩ := decodeNext_form h
    exact ⟨bs, hform, (prefix_bytes hform.ne_nil).mpr ⟨rest, hstr, hlen⟩⟩
  · intro hex
    obtain ⟨bs, hform, hpre⟩ := hex
    obtain ⟨rest, hstr, hlen⟩ := (prefix_bytes hform.ne_nil).mp hpre
    obtain ⟨str, len⟩ := i
    cases hstr
    exact ⟨_, hform.decodeNext hlen rest⟩

/-! ### Well-formed sequences -/

theorem utf8Form_utf8Bytes {c : Nat} (hc : c < 2 ^ 21) : Utf8Form (utf8Bytes c) c := by
  rw [utf8Bytes]
  split_ifs with h1 h2 h3
  · exact .one h1
  · have hform := @Utf8Form.two (c / 64) (c % 64) (by omega) (by omega)
    rwa [show c / 64 * 64 + c % 64 = c by omega] at hform
  · have hform := @Utf8Form.three (c / 4096) (c % 4096 / 64) (c % 64) (by omega) (by omega)
      (by omega)
    rwa [show (c / 4096 * 64 + c % 4096 / 64) * 64 + c % 64 = c by omega] at hform
  · have hform := @Utf8Form.four (c / 262144) (c % 262144 / 4096) (c % 4096 / 64) (c % 64)
      (by omega) (by omega) (by omega) (by omega)
    rwa [show ((c / 262144 * 64 + c % 262144 / 4096) * 64 + c % 4096 / 64) * 64 + c % 64 = c
      by omega] at hform

theorem toNat_ofNat_add {k a : Nat} (h : k + a < 256) : (UInt8.ofNat (k + a)).toNat = k + a :=
  UInt8.toNat_ofNat_of_lt' h

/-- A form is well-formed or forbidden. -/
theorem Utf8Form.cases_forbidden {bs : List UInt8} {c : Nat} (h : Utf8Form bs c) :
    (IsScalar c ∧ utf8Bytes c = bs) ∨
      ∃ first second q, bs = first :: second :: q ∧ Forbidden first.toNat second.toNat := by
  cases h with
  | one ha => exact .inl ⟨.inl (by omega), by rw [utf8Bytes, if_pos ha]⟩
  | @two a x ha hx =>
    by_cases hshort : a < 2
    · refine .inr ⟨_, _, _, rfl, ?_⟩
      rw [Forbidden, toNat_ofNat_add (by omega)]
      omega
    · refine .inl ⟨.inl (by omega), ?_⟩
      rw [utf8Bytes, if_neg (by omega), if_pos (by omega), show (a * 64 + x) / 64 = a by omega,
        show (a * 64 + x) % 64 = x by omega]
  | @three a x y ha hx hy =>
    by_cases hforbidden : Forbidden (0xe0 + a) (0x80 + x)
    · refine .inr ⟨_, _, _, rfl, ?_⟩
      rwa [continuationByte, toNat_ofNat_add (by omega), toNat_ofNat_add (by omega)]
    · unfold Forbidden at hforbidden
      refine .inl ⟨by unfold IsScalar; omega, ?_⟩
      rw [utf8Bytes, if_neg (by omega), if_neg (by omega), if_pos (by omega),
        show ((a * 64 + x) * 64 + y) / 4096 = a by omega,
        show ((a * 64 + x) * 64 + y) % 4096 / 64 = x by omega,
        show ((a * 64 + x) * 64 + y) % 64 = y by omega]
  | @four a x y z ha hx hy hz =>
    by_cases hforbidden : Forbidden (0xf0 + a) (0x80 + x)
    · refine .inr ⟨_, _, _, rfl, ?_⟩
      rwa [continuationByte, toNat_ofNat_add (by omega), toNat_ofNat_add (by omega)]
    · unfold Forbidden at hforbidden
      refine .inl ⟨by unfold IsScalar; omega, ?_⟩
      rw [utf8Bytes, if_neg (by omega), if_neg (by omega), if_neg (by omega),
        show (((a * 64 + x) * 64 + y) * 64 + z) / 262144 = a by omega,
        show (((a * 64 + x) * 64 + y) * 64 + z) % 262144 / 4096 = x by omega,
        show (((a * 64 + x) * 64 + y) * 64 + z) % 4096 / 64 = y by omega,
        show (((a * 64 + x) * 64 + y) * 64 + z) % 64 = z by omega]

theorem IsScalar.lt {c : Nat} (h : IsScalar c) : c < 2 ^ 21 := by
  unfold IsScalar at h
  omega

/-- No well-formed sequence is forbidden. -/
theorem not_forbidden_utf8Bytes {c : Nat} (hc : IsScalar c) {first second : UInt8}
    {q : List UInt8} (h : utf8Bytes c = first :: second :: q) :
    ¬Forbidden first.toNat second.toNat := by
  unfold IsScalar at hc
  unfold utf8Bytes continuationByte at h
  split_ifs at h with h1 h2 h3
  · cases h
  · cases h
    rw [Forbidden, toNat_ofNat_add (by omega), toNat_ofNat_add (by omega)]
    omega
  · cases h
    rw [Forbidden, toNat_ofNat_add (by omega), toNat_ofNat_add (by omega)]
    omega
  · cases h
    rw [Forbidden, toNat_ofNat_add (by omega), toNat_ofNat_add (by omega)]
    omega

/-- The bytes behind the first one of a form are the ones it announces. -/
theorem Utf8Form.continuationsFollow {b : UInt8} {q : List UInt8} {c : Nat}
    (h : Utf8Form (b :: q) c) (rest : List UInt8) :
    ContinuationsFollow ((utf8CharLenValue b).1 - 1) (q ++ rest) := by
  rw [← decodeContinuation_isSome (utf8CharLenValue b).2]
  have hd := h.decodeNext (Int.le_refl _) rest
  simp only [List.cons_append, decodeNextUtf8CharToUnichar] at hd
  split at hd
  · cases hd
  split at hd
  · cases hd
  · split at hd
    · next hsome => rw [hsome, Option.isSome_some]
    · cases hd

/-- The same bytes start with only one form. -/
theorem Utf8Form.unique {bytes bs bs' : List UInt8} {c c' : Nat} (h : Utf8Form bs c)
    (h' : Utf8Form bs' c') (hpre : bs <+: bytes) (hpre' : bs' <+: bytes) : bs = bs' := by
  obtain ⟨rest, rfl⟩ := hpre
  obtain ⟨rest', hrest⟩ := hpre'
  have hd := h.decodeNext (show (bs.length : Int) ≤ (bs ++ rest).length by simp) rest
  have hd' := h'.decodeNext (show (bs'.length : Int) ≤ (bs' ++ rest').length by simp) rest'
  rw [hrest, hd] at hd'
  obtain ⟨_, hi⟩ := Prod.mk.inj hd'
  obtain ⟨hr, _⟩ := Utf8Input.mk.inj hi
  obtain rfl := Option.some.inj hr
  exact (List.append_cancel_right hrest).symm

theorem charLen_of_forbidden {b : UInt8} {second : Nat} (h : Forbidden b.toNat second) :
    2 ≤ (utf8CharLenValue b).1 := by
  have hall : ∀ b, 0xc0 ≤ b.toNat ∧ b.toNat ≤ 0xf7 → 2 ≤ (utf8CharLenValue b).1 := by
    apply forall_byte
    decide +kernel
  unfold Forbidden at h
  exact hall b (by omega)

theorem misread_iff {bytes : List UInt8} :
    Misread bytes ↔ ∃ bs c, Utf8Form bs c ∧ bs <+: bytes ∧
      ∃ first second q, bs = first :: second :: q ∧ Forbidden first.toNat second.toNat := by
  constructor
  · intro hex
    obtain ⟨first, second, p, rfl, hforbidden, hp⟩ := hex
    have hlen := charLen_of_forbidden hforbidden
    obtain ⟨bs, c, rest, hform, hbytes, hwidth⟩ := exists_utf8Form (by omega) hp
    refine ⟨bs, c, hform, ⟨rest, hbytes.symm⟩, ?_⟩
    match bs, hwidth with
    | [], hwidth => exact absurd hwidth (by simp; omega)
    | [_], hwidth => exact absurd hwidth (by simp; omega)
    | first' :: second' :: q, _ =>
      obtain ⟨rfl, rfl, -⟩ := by simpa using hbytes
      exact ⟨_, _, q, rfl, hforbidden⟩
  · intro hex
    obtain ⟨bs, c, hform, ⟨rest, rfl⟩, first, second, q, rfl, hforbidden⟩ := hex
    exact ⟨first, second, q ++ rest, rfl, hforbidden, hform.continuationsFollow rest⟩

theorem StartsWith.decodeNext {i : Utf8Input} {c : Nat} (h : StartsWith i.bytes c) :
    ∃ rest, i.str = some (utf8Bytes c ++ rest) ∧
      decodeNextUtf8CharToUnichar i = (some c, ⟨some rest, i.strLen - (utf8Bytes c).length⟩) := by
  have hform := utf8Form_utf8Bytes h.1.lt
  obtain ⟨rest, hstr, hlen⟩ := (prefix_bytes hform.ne_nil).mp h.2
  obtain ⟨str, len⟩ := i
  cases hstr
  exact ⟨rest, rfl, hform.decodeNext hlen rest⟩

/-- The decoder checks the bits that mark a byte, not the range of what they encode: exactly the
overlong forms, the surrogates and the code points behind U+10FFFF are read although they are
not well-formed. -/
theorem readsWellFormed_iff (i : Utf8Input) : ReadsWellFormed i ↔ ¬Misread i.bytes := by
  rw [misread_iff]
  constructor
  · intro hi hex
    obtain ⟨bs, c, hform, hpre, first, second, q, rfl, hforbidden⟩ := hex
    obtain ⟨i', hd⟩ := decodeNext_iff.mpr ⟨_, hform, hpre⟩
    obtain ⟨c', hscalar, hpre'⟩ := hi.accepts.mp ⟨c, i', hd⟩
    have hsame := (utf8Form_utf8Bytes hscalar.lt).unique hform hpre' hpre
    exact not_forbidden_utf8Bytes hscalar hsame hforbidden
  · intro hno
    refine ⟨⟨?_, ?_⟩, fun _ h => h.decodeNext, ?_⟩
    · intro hex
      obtain ⟨c, i', hd⟩ := hex
      obtain ⟨bs, hform, hpre⟩ := decodeNext_iff.mp ⟨i', hd⟩
      rcases hform.cases_forbidden with ⟨hscalar, rfl⟩ | hforbidden
      · exact ⟨c, hscalar, hpre⟩
      · exact absurd ⟨bs, c, hform, hpre, hforbidden⟩ hno
    · intro hex
      obtain ⟨c, h⟩ := hex
      obtain ⟨rest, _, hd⟩ := h.decodeNext
      exact ⟨c, _, hd⟩
    · intro c h room hroom
      rw [length_utf8Bytes h.1.lt] at hroom
      exact writeUnicharAsUtf8_eq h.1.lt hroom

/-- C0 80 is read as U+0000. -/
theorem not_readsWellFormed_overlong : ¬ReadsWellFormed ⟨some [0xc0, 0x80], 2⟩ := by
  intro h
  have hd : decodeNextUtf8CharToUnichar ⟨some [0xc0, 0x80], 2⟩ = (some 0, ⟨some [], 0⟩) := rfl
  have hform : Utf8Form [0xc0, 0x80] 0 := @Utf8Form.two 0 0 (by decide) (by decide)
  obtain ⟨c, hscalar, hpre⟩ := h.accepts.mp ⟨0, _, hd⟩
  have hsame := (utf8Form_utf8Bytes hscalar.lt).unique hform hpre (List.prefix_refl _)
  exact not_forbidden_utf8Bytes hscalar hsame (.inl rfl)

end NdsDevkit.Text
