import NdsDevkit.Ndsc.Unpack
import NdsDevkit.Ndsc.Decoder

namespace NdsDevkit.Ndsc

open Framework

/-- The control bits after the one tested last. -/
def pendingBits (ctrlData : UInt8) (ctrlMask : Nat) : List Bool :=
  if ctrlMask = 0 then [] else (controlBits ctrlData).drop (8 - Nat.log2 ctrlMask)

/-- The decoder variables stand for a list-level decoder state. -/
structure Represents (src : List UInt8) (s : UnpackState) (d : Decoder) : Prop where
  mask : s.ctrlMask = 0 ∨ ∃ k ≤ 7, s.ctrlMask = 2 ^ k
  bits : d.bits = pendingBits s.ctrlData s.ctrlMask
  rest : d.rest = src.drop s.srcOfs
  srcOfs : s.srcOfs ≤ src.length
  dstOfs : s.dstOfs = d.out.length
  room : s.dstOfs ≤ s.dst.size
  holds : s.dst.Holds 0 d.out

/-- A piece of the decoder's step does what the list-level decoder does, leaves the control
bits alone and never moves backwards in the source. -/
def Follows (src : List UInt8) (s : UnpackState) (r : Except Stop UnpackState) :
    Option Decoder → Prop
  | none => r = .error .failure
  | some d => ∃ s', r = .ok s' ∧ Represents src s' d ∧ s'.dst.size = s.dst.size ∧
      s'.ctrlMask = s.ctrlMask ∧ s.srcOfs ≤ s'.srcOfs

/-- Passes left: a control byte is worth nine, a pending control bit one. -/
def variant (src : List UInt8) (s : UnpackState) : Nat :=
  9 * (src.length - s.srcOfs) + Nat.log2 s.ctrlMask

theorem controlBits_drop (c : UInt8) {k : Nat} (hk : k ≤ 7) :
    (controlBits c).drop (7 - k) = c.toNat.testBit k :: (controlBits c).drop (8 - k) := by
  have hlt : 7 - k < (controlBits c).length := by
    rw [controlBits_length]
    omega
  rw [List.drop_eq_getElem_cons hlt]
  have hn : 7 - k + 1 = 8 - k := by omega
  have hb : 7 - (7 - k) = k := by omega
  simp [controlBits, hn, hb]

theorem pendingBits_two_pow (c : UInt8) (k : Nat) :
    pendingBits c (2 ^ k) = (controlBits c).drop (8 - k) := by
  simp [pendingBits, Nat.log2_two_pow]

theorem pendingBits_spent (c : UInt8) {mask : Nat} (h : mask = 0 ∨ ∃ k ≤ 7, mask = 2 ^ k)
    (hmask : mask >>> 1 = 0) : pendingBits c mask = [] := by
  rcases h with rfl | ⟨k, _, rfl⟩
  · rfl
  · cases k with
    | zero =>
      rw [pendingBits_two_pow]
      exact List.drop_eq_nil_of_le (by simp)
    | succ k =>
      have hpos := Nat.two_pow_pos k
      rw [Nat.shiftRight_eq_div_pow, Nat.pow_succ] at hmask
      omega

theorem mask_left {mask : Nat} (h : mask = 0 ∨ ∃ k ≤ 7, mask = 2 ^ k) (hmask : mask >>> 1 ≠ 0) :
    ∃ j, j + 1 ≤ 7 ∧ mask = 2 ^ (j + 1) ∧ mask >>> 1 = 2 ^ j := by
  rcases h with rfl | ⟨k, hk, rfl⟩
  · exact absurd rfl hmask
  · cases k with
    | zero => exact absurd rfl hmask
    | succ j =>
      refine ⟨j, hk, rfl, ?_⟩
      rw [Nat.shiftRight_eq_div_pow, Nat.pow_succ]
      omega

/-- Moving to the next control bit is the list-level load. -/
theorem nextControl_spec {src : List UInt8} {s : UnpackState} {d : Decoder}
    (h : Represents src s d) (hlt : s.srcOfs < src.length) :
    ∃ s' k bits rest, s.nextControl (.ofList src) = .ok s' ∧ s'.ctrlMask = 2 ^ k ∧
      load d.bits d.rest = (s'.ctrlData.toNat.testBit k :: bits, rest) ∧
      Represents src s' ⟨bits, rest, d.out, d.skipped⟩ ∧ s'.dst.size = s.dst.size ∧
      variant src s' < variant src s := by
  by_cases hm : s.ctrlMask >>> 1 = 0
  · -- no control bit is left: read a control byte
    have hbits : d.bits = [] := by
      rw [h.bits]
      exact pendingBits_spent s.ctrlData h.mask hm
    have hrest : d.rest = src[s.srcOfs] :: src.drop (s.srcOfs + 1) := by
      rw [h.rest, List.drop_eq_getElem_cons hlt]
    have hdrop := controlBits_drop src[s.srcOfs] (Nat.le_refl 7)
    refine ⟨{ s with ctrlData := src[s.srcOfs], ctrlMask := 1 <<< 7, srcOfs := s.srcOfs + 1 },
      7, (controlBits src[s.srcOfs]).drop 1, src.drop (s.srcOfs + 1), ?_, rfl, ?_, ?_, rfl, ?_⟩
    · simp only [UnpackState.nextControl, hm, if_true, Buf.read_ofList hlt]
      rfl
    · rw [hbits, hrest]
      simpa [load] using hdrop
    · exact ⟨.inr ⟨7, Nat.le_refl 7, rfl⟩, (pendingBits_two_pow _ 7).symm, rfl, hlt,
        h.dstOfs, h.room, h.holds⟩
    · have hlog : Nat.log2 (1 <<< 7) = 7 := by decide
      simp only [variant, hlog]
      omega
  · obtain ⟨j, hj, hp, hhalf⟩ := mask_left h.mask hm
    have hbits : d.bits = s.ctrlData.toNat.testBit j :: (controlBits s.ctrlData).drop (8 - j) := by
      rw [h.bits, hp, pendingBits_two_pow, ← controlBits_drop s.ctrlData (by omega)]
      congr 1
      omega
    refine ⟨{ s with ctrlMask := 2 ^ j }, j, (controlBits s.ctrlData).drop (8 - j), d.rest,
      ?_, rfl, ?_, ?_, rfl, ?_⟩
    · rw [UnpackState.nextControl]
      rw [if_neg hm, hhalf]
      rfl
    · rw [hbits]
      rfl
    · exact ⟨.inr ⟨j, by omega, rfl⟩, (pendingBits_two_pow _ j).symm, h.rest, h.srcOfs, h.dstOfs,
        h.room, h.holds⟩
    · simp only [variant, hp, Nat.log2_two_pow]
      omega

variable {src : List UInt8} {s : UnpackState} {bits : List Bool} {rest out : List UInt8}
  {sk : Bool}

/-- Appending to the output. -/
theorem Represents.append (h : Represents src s ⟨bits, rest, out, sk⟩) (bs : List UInt8)
    (hl : (out ++ bs).length ≤ s.dst.size) :
    ∃ s', s.append bs = .ok s' ∧ Represents src s' ⟨bits, rest, out ++ bs, sk⟩ ∧
      s'.dst.size = s.dst.size ∧ s'.ctrlMask = s.ctrlMask ∧ s'.srcOfs = s.srcOfs := by
  have hofs : s.dstOfs = out.length := h.dstOfs
  rw [List.length_append] at hl
  refine ⟨{ s with dst := s.dst.put s.dstOfs bs, dstOfs := s.dstOfs + bs.length }, ?_, ?_,
    rfl, rfl, rfl⟩
  · simp only [UnpackState.append,
      Buf.writeMany_eq (show s.dstOfs + bs.length ≤ s.dst.size by omega)]
    rfl
  · refine ⟨h.mask, h.bits, h.rest, h.srcOfs, by simp [hofs], by simp; omega, ?_⟩
    exact h.holds.put_at bs (by simp [hofs])

/-- The source is advanced past the bytes that were used. -/
theorem Represents.advance (h : Represents src s ⟨bits, rest, out, sk⟩) {n : Nat}
    (hn : n ≤ rest.length) :
    Represents src { s with srcOfs := s.srcOfs + n } ⟨bits, rest.drop n, out, sk⟩ := by
  have hrest : rest = src.drop s.srcOfs := h.rest
  have hlen : rest.length = src.length - s.srcOfs := by rw [hrest, List.length_drop]
  have hle := h.srcOfs
  exact ⟨h.mask, h.bits, by rw [hrest, List.drop_drop], by simp only; omega, h.dstOfs, h.room,
    h.holds⟩

theorem Represents.read (h : Represents src s ⟨bits, rest, out, sk⟩) {n : Nat}
    (hn : n < rest.length) : (Buf.ofList src).read (s.srcOfs + n) = .ok rest[n] := by
  have hrest : rest = src.drop s.srcOfs := h.rest
  subst hrest
  rw [List.length_drop] at hn
  rw [Buf.read_ofList (by omega), List.getElem_drop]

theorem Represents.length_rest (h : Represents src s ⟨bits, rest, out, sk⟩) :
    s.srcOfs + rest.length = src.length := by
  have hrest : rest = src.drop s.srcOfs := h.rest
  have hle := h.srcOfs
  rw [hrest, List.length_drop]
  omega

theorem runLength_spec (h : Represents src s ⟨bits, rest, out, sk⟩) (cnt : Nat) :
    Follows src s (s.runLength cnt) (((Edit.fill cnt).apply out).bind fun out' =>
      if out'.length ≤ s.dst.size then some ⟨bits, rest, out', sk⟩ else none) := by
  have hofs : s.dstOfs = out.length := h.dstOfs
  have hroom := h.room
  rcases List.eq_nil_or_concat out with rfl | ⟨init, b, hout⟩
  · have hn : ¬((s.dstOfs : Int) - 1 ≥ 0 ∧ s.dstOfs + cnt ≤ s.dst.size) := by
      rw [hofs]
      simp
    simp only [UnpackState.runLength, if_neg hn]
    rfl
  · rw [List.concat_eq_append] at hout
    subst hout
    rw [List.length_append, List.length_singleton] at hofs
    have hread : s.dst.read (s.dstOfs - 1) = .ok b := by
      have hr := Buf.Holds.read (j := s.dstOfs - 1) h.holds (by omega) (by simp; omega)
      simpa [hofs] using hr
    have happ : (Edit.fill cnt).apply (init ++ [b]) =
        some (init ++ [b] ++ List.replicate cnt b) := by simp [Edit.apply]
    simp only [UnpackState.runLength, happ, Option.bind_some]
    by_cases hl : (init ++ [b] ++ List.replicate cnt b).length ≤ s.dst.size
    · have hc : (s.dstOfs : Int) - 1 ≥ 0 ∧ s.dstOfs + cnt ≤ s.dst.size := by
        simp at hl
        omega
      rw [if_pos hl, if_pos hc]
      simp only [hread]
      obtain ⟨s', hs, hr, h1, h2, h3⟩ := h.append _ hl
      exact ⟨s', hs, hr, h1, h2, h3.ge⟩
    · have hc : ¬((s.dstOfs : Int) - 1 ≥ 0 ∧ s.dstOfs + cnt ≤ s.dst.size) := by
        simp at hl
        omega
      rw [if_neg hl, if_neg hc]
      rfl

theorem pattern_spec (h : Represents src s ⟨bits, rest, out, sk⟩) (gap len : Nat) :
    Follows src s (s.pattern gap len) (((Edit.copy gap len).apply out).bind fun out' =>
      if out'.length ≤ s.dst.size then some ⟨bits, rest, out', sk⟩ else none) := by
  have hofs : s.dstOfs = out.length := h.dstOfs
  have hroom := h.room
  have happ : (Edit.copy gap len).apply out = if gap + len ≤ out.length then
      some (out ++ (out.drop (out.length - (gap + len))).take len) else none := rfl
  rw [happ]
  rw [UnpackState.pattern]
  by_cases hb : gap + len ≤ out.length
  · have hsub : s.dstOfs - gap - len = out.length - (gap + len) := by omega
    have hread : s.dst.readMany (s.dstOfs - gap - len) len =
        .ok ((out.drop (out.length - (gap + len))).take len) := by
      rw [hsub]
      exact Buf.Holds.readMany_sub h.holds (by simp only; omega) (by simp only; omega)
    rw [if_pos hb, Option.bind_some]
    by_cases hl : (out ++ (out.drop (out.length - (gap + len))).take len).length ≤ s.dst.size
    · have hc : (s.dstOfs : Int) - gap - len ≥ 0 ∧ s.dstOfs + len ≤ s.dst.size := by
        simp at hl
        omega
      rw [if_pos hl, if_pos hc]
      simp only [hread]
      obtain ⟨s', hs, hr, h1, h2, h3⟩ := h.append _ hl
      refine ⟨s', ?_, hr, h1, h2, h3.ge⟩
      rw [← hs]
      exact if_pos (by omega)
    · have hc : ¬((s.dstOfs : Int) - gap - len ≥ 0 ∧ s.dstOfs + len ≤ s.dst.size) := by
        simp at hl
        omega
      rw [if_neg hl, if_neg hc]
      rfl
  · have hc : ¬((s.dstOfs : Int) - gap - len ≥ 0 ∧ s.dstOfs + len ≤ s.dst.size) := by omega
    rw [if_neg hb, if_neg hc]
    rfl

theorem uncompressable_spec (h : Represents src s ⟨bits, rest, out, sk⟩) (cnt : Nat) :
    Follows src s (s.uncompressable (.ofList src) cnt)
      (if cnt ≤ rest.length ∧ out.length + cnt ≤ s.dst.size then
        some ⟨bits, rest.drop cnt, out ++ rest.take cnt, sk⟩ else none) := by
  have hofs : s.dstOfs = out.length := h.dstOfs
  have hlen := h.length_rest
  rw [UnpackState.uncompressable]
  by_cases hc : cnt ≤ rest.length ∧ out.length + cnt ≤ s.dst.size
  · have hrest : rest = src.drop s.srcOfs := h.rest
    have hread : (Buf.ofList src).readMany s.srcOfs cnt = .ok (rest.take cnt) := by
      rw [hrest]
      exact (Buf.holds_ofList src).readMany_sub (by omega) (Nat.le_refl _)
    have hl : (out ++ rest.take cnt).length ≤ s.dst.size := by
      rw [List.length_append, List.length_take]
      omega
    obtain ⟨s', hs, hr, h1, h2, h3⟩ := h.append _ hl
    rw [if_pos hc, if_pos (by rw [Buf.size_ofList]; omega), hread]
    refine ⟨{ s' with srcOfs := s'.srcOfs + cnt }, ?_, hr.advance hc.1, h1, h2, ?_⟩
    · simp only [bind, Except.bind, hs]
      rfl
    · simp only [h3]
      omega
  · rw [if_neg hc, if_neg (by rw [Buf.size_ofList]; omega)]
    rfl

theorem copyChar_spec (h : Represents src s ⟨bits, rest, out, sk⟩) (hlt : s.dstOfs < s.dst.size) :
    Follows src s (s.copyChar (.ofList src))
      (settle s.dst.size bits out sk (parse false rest)) := by
  have hofs : s.dstOfs = out.length := h.dstOfs
  have hlen := h.length_rest
  rw [UnpackState.copyChar]
  cases rest with
  | nil =>
    rw [if_neg (by simp at hlen ⊢; omega)]
    exact ⟨s, rfl, ⟨h.mask, h.bits, h.rest, h.srcOfs, h.dstOfs, h.room, h.holds⟩, rfl, rfl,
      Nat.le_refl _⟩
  | cons b rest =>
    have hread := h.read (n := 0) (by simp)
    have hl : (out ++ [b]).length ≤ s.dst.size := by
      rw [List.length_append, List.length_singleton]
      omega
    obtain ⟨s', hs, hr, h1, h2, h3⟩ := h.append [b] hl
    have hset : settle s.dst.size bits out sk (parse false (b :: rest)) =
        some ⟨bits, rest, out ++ [b], sk⟩ := if_pos hl
    rw [if_pos (by simp at hlen ⊢; omega), hset]
    have hadv : Represents src { s' with srcOfs := s'.srcOfs + 1 } ⟨bits, rest, out ++ [b], sk⟩ :=
      hr.advance (by simp)
    refine ⟨{ s' with srcOfs := s'.srcOfs + 1 }, ?_, hadv, h1, h2, ?_⟩
    · simp only [Nat.add_zero, List.getElem_cons_zero] at hread
      simp only [hread, bind, Except.bind, hs]
      rfl
    · simp only [h3]
      omega

theorem shiftRight_and_eq_cmdOf (b0 : UInt8) : b0.toNat >>> 4 &&& 0x0F = cmdOf b0 := by
  have hlt := b0.toNat_lt
  rw [show (0x0F : Nat) = 2 ^ 4 - 1 from rfl, Nat.and_two_pow_sub_one_eq_mod,
    Nat.shiftRight_eq_div_pow]
  rw [cmdOf]
  omega

theorem and_shiftLeft_eq_fieldOf (b0 b1 : UInt8) :
    (b0.toNat &&& 0x0F) <<< 8 + b1.toNat = fieldOf b0 b1 := by
  rw [show (0x0F : Nat) = 2 ^ 4 - 1 from rfl, Nat.and_two_pow_sub_one_eq_mod, Nat.shiftLeft_eq]
  rfl

theorem Follows.of_advance {n : Nat} {r : Except Stop UnpackState} {o : Option Decoder}
    (h : Follows src { s with srcOfs := s.srcOfs + n } r o) : Follows src s r o := by
  cases o with
  | none => exact h
  | some d =>
    obtain ⟨s', hs, hr, h1, h2, h3⟩ := h
    exact ⟨s', hs, hr, h1, h2, Nat.le_trans (Nat.le_add_right _ _) h3⟩

theorem execute_spec (h : Represents src s ⟨bits, rest, out, sk⟩) {cmd cnt : Nat}
    (hc : cmd < 16) (hf : cnt < 4096) :
    Follows src s (s.execute (.ofList src) cmd cnt)
      (settle s.dst.size bits out sk (parseCommand cmd cnt hc hf rest)) := by
  have hlen := h.length_rest
  unfold UnpackState.execute
  split
  · have hu := uncompressable_spec h (cnt + 16)
    unfold parseCommand
    rw [if_pos rfl]
    split
    · next hl =>
      have hlt : (rest.take (cnt + 16)).length = cnt + 16 := by
        rw [List.length_take]
        omega
      have happ : settle s.dst.size bits out sk (.item (.block (rest.take (cnt + 16))
          (by simp; omega)) (rest.drop (cnt + 16))) =
          if (out ++ rest.take (cnt + 16)).length ≤ s.dst.size then
            some ⟨bits, rest.drop (cnt + 16), out ++ rest.take (cnt + 16), sk⟩ else none := rfl
      rw [happ, List.length_append, hlt]
      simpa only [hl, true_and] using hu
    · next hl =>
      rw [if_neg (by omega)] at hu
      exact hu
  · exact runLength_spec h (cnt + 3)
  · cases rest with
    | nil =>
      rw [if_neg (by simp at hlen ⊢; omega)]
      exact ⟨s, rfl, ⟨h.mask, h.bits, h.rest, h.srcOfs, h.dstOfs, h.room, h.holds⟩, rfl, rfl,
        Nat.le_refl _⟩
    | cons b2 rest =>
      have hread := h.read (n := 0) (by simp)
      have hadv : Represents src { s with srcOfs := s.srcOfs + 1 } ⟨bits, rest, out, sk⟩ :=
        h.advance (by simp)
      simp only [Nat.add_zero, List.getElem_cons_zero] at hread
      rw [if_pos (by simp at hlen ⊢; omega), hread]
      exact (pattern_spec hadv cnt (b2.toNat + 16)).of_advance
  · next h0 h1 h2 =>
    unfold parseCommand
    have h3 : 3 ≤ cmd := by
      have n0 : cmd ≠ 0 := h0
      have n1 : cmd ≠ 1 := h1
      have n2 : cmd ≠ 2 := h2
      omega
    rw [if_neg h0, if_neg h1, if_neg h2, dif_pos h3]
    exact pattern_spec h cnt cmd

theorem command_spec (h : Represents src s ⟨bits, rest, out, sk⟩) :
    Follows src s (s.command (.ofList src)) (settle s.dst.size bits out sk (parse true rest)) := by
  have hlen := h.length_rest
  have hskip : Follows src s (.ok s) (some ⟨bits, rest, out, true⟩) :=
    ⟨s, rfl, ⟨h.mask, h.bits, h.rest, h.srcOfs, h.dstOfs, h.room, h.holds⟩, rfl, rfl,
      Nat.le_refl _⟩
  rw [UnpackState.command]
  match rest with
  | [] =>
    rw [if_neg (by simp at hlen ⊢; omega)]
    exact hskip
  | [x] =>
    rw [if_neg (by simp at hlen ⊢; omega)]
    exact hskip
  | b0 :: b1 :: rest =>
    have h0 := h.read (n := 0) (by simp)
    have h1 := h.read (n := 1) (by simp)
    have hadv : Represents src { s with srcOfs := s.srcOfs + 2 } ⟨bits, rest, out, sk⟩ :=
      h.advance (by simp)
    simp only [Nat.add_zero, List.getElem_cons_zero, List.getElem_cons_succ] at h0 h1
    rw [if_pos (by simp at hlen ⊢; omega), h0, h1]
    simp only [bind, Except.bind, shiftRight_and_eq_cmdOf, and_shiftLeft_eq_fieldOf]
    exact (execute_spec hadv (cmdOf_lt b0) (fieldOf_lt b0 b1)).of_advance

/-- The mask test reads the control bit of the mask. -/
theorem and_two_pow_eq_zero (c : UInt8) (k : Nat) :
    c.toNat &&& 2 ^ k = 0 ↔ c.toNat.testBit k = false := by
  rw [Nat.and_two_pow]
  cases c.toNat.testBit k <;> simp

/-- One pass of the main loop is one pass of the list-level decoder. -/
theorem unpackStep_spec {d : Decoder} (h : Represents src s d) (hlt : s.srcOfs < src.length) :
    match decodeStep s.dst.size d with
    | none => unpackStep (.ofList src) s = .error .failure
    | some d' => ∃ s', unpackStep (.ofList src) s = .ok s' ∧ Represents src s' d' ∧
        s'.dst.size = s.dst.size ∧ variant src s' < variant src s := by
  rw [unpackStep, decodeStep]
  by_cases hfull : s.dst.size ≤ d.out.length
  · rw [if_pos hfull, if_pos (by rw [h.dstOfs]; exact hfull)]
    rfl
  · rw [if_neg hfull, if_neg (by rw [h.dstOfs]; exact hfull)]
    obtain ⟨s1, k, bits, rest, hs1, hmask, hload, hr1, hsz, hvar⟩ := nextControl_spec h hlt
    rw [hload]
    -- both kinds of control bit end in the same way
    have hfollow : Follows src s1
        (if s1.ctrlData.toNat &&& s1.ctrlMask = 0 then s1.copyChar (.ofList src)
          else s1.command (.ofList src))
        (settle s1.dst.size bits d.out d.skipped (parse (s1.ctrlData.toNat.testBit k) rest)) := by
      have hiff := and_two_pow_eq_zero s1.ctrlData k
      rw [← hmask] at hiff
      cases hb : s1.ctrlData.toNat.testBit k with
      | false =>
        rw [if_pos (hiff.mpr hb)]
        refine copyChar_spec hr1 ?_
        have := hr1.dstOfs
        simp only at this
        omega
      | true =>
        rw [if_neg (by rw [hiff, hb]; decide)]
        exact command_spec hr1
    rw [hsz] at hfollow
    simp only [hs1, bind, Except.bind]
    generalize settle s.dst.size bits d.out d.skipped
      (parse (s1.ctrlData.toNat.testBit k) rest) = o at hfollow ⊢
    cases o with
    | none => exact hfollow
    | some d' =>
      obtain ⟨s', hs', hr', h1, h2, h3⟩ := hfollow
      refine ⟨s', hs', hr', h1.trans hsz, ?_⟩
      unfold variant at hvar ⊢
      rw [h2]
      omega

/-- The decoder before the first pass. -/
def Decoder.start (src : List UInt8) : Decoder := ⟨[], src, [], false⟩

theorem represents_start (src : List UInt8) (dstLen : Nat) :
    Represents src ⟨0, 0, 0, .fresh dstLen, 0⟩ (Decoder.start src) :=
  ⟨.inl rfl, rfl, rfl, Nat.zero_le _, rfl, Nat.zero_le _, Buf.holds_nil _ _⟩

/-- A decoder state with the outputs of the start. -/
def Reached (src : List UInt8) (dstLen : Nat) (s : UnpackState) : Prop :=
  ∃ d, Represents src s d ∧ s.dst.size = dstLen ∧
    ∀ out sk, Accepts dstLen (Decoder.start src) out sk ↔ Accepts dstLen d out sk

/-- Nothing is acceptable, and the function says so. -/
def Rejected (src : List UInt8) (dstLen : Nat) (e : Stop) : Prop :=
  e = .failure ∧ ∀ out sk, ¬ Accepts dstLen (Decoder.start src) out sk

theorem unpackStep_reached {src : List UInt8} {dstLen : Nat} {s : UnpackState}
    (h : Reached src dstLen s) (hlt : s.srcOfs < src.length) :
    Ends (unpackStep (.ofList src) s)
      (fun s' => Reached src dstLen s' ∧ variant src s' < variant src s) (Rejected src dstLen) := by
  obtain ⟨d, hr, hsz, hacc⟩ := h
  have hne : d.rest ≠ [] := by
    rw [hr.rest]
    exact List.ne_nil_of_length_pos (by rw [List.length_drop]; omega)
  have hstep := unpackStep_spec hr hlt
  rw [hsz] at hstep
  cases hd : decodeStep dstLen d with
  | none =>
    rw [hd] at hstep
    simp only at hstep
    rw [hstep]
    refine ⟨rfl, ?_⟩
    intro out sk ha
    obtain ⟨d', hs, _⟩ := ((hacc out sk).mp ha).of_step hne
    rw [hd] at hs
    cases hs
  | some d' =>
    rw [hd] at hstep
    obtain ⟨s', hs, hr', hsz', hv⟩ := hstep
    rw [hs]
    exact ⟨⟨d', hr', hsz', fun out sk => (hacc out sk).trans (Accepts.step_iff hne hd out sk)⟩, hv⟩

/-- The decoder terminates without a memory fault. It returns the one acceptable output, or
fails because there is none. -/
theorem unpackNDSC_spec (src : List UInt8) (dstLen : Nat) :
    Ends (unpackNDSC src dstLen)
      (fun dst => dst.size = dstLen ∧
        ∃ out sk, dst.Holds 0 out ∧ Accepts dstLen (Decoder.start src) out sk)
      (Rejected src dstLen) := by
  have hloop := Ends.whileDo (fun s : UnpackState => decide (s.srcOfs < src.length))
    (unpackStep (.ofList src)) Stop.outOfFuel (Reached src dstLen) (variant src)
    (Rejected src dstLen)
    (fun s hs hc => unpackStep_reached hs (by simpa using hc))
    (unpackFuel src.length) ⟨0, 0, 0, .fresh dstLen, 0⟩
    ⟨_, represents_start src dstLen, rfl, fun _ _ => Iff.rfl⟩
    (by simp [variant, unpackFuel])
  apply hloop.bind
  intro s hex
  obtain ⟨⟨d, hr, hsz, hacc⟩, hc⟩ := hex
  have hge : src.length ≤ s.srcOfs := by simpa using hc
  have hend : s.srcOfs = src.length := Nat.le_antisymm hr.srcOfs hge
  have hrest : d.rest = [] := by
    rw [hr.rest]
    exact List.drop_eq_nil_of_le hge
  rw [if_neg (by simpa using hend)]
  by_cases hl : d.out.length = dstLen
  · have hdst : s.dstOfs = s.dst.size := by rw [hr.dstOfs, hl, hsz]
    rw [if_neg (by simpa using hdst)]
    exact ⟨hsz, d.out, d.skipped, hr.holds, (hacc _ _).mpr (.done hrest hl)⟩
  · have hdst : s.dstOfs ≠ s.dst.size := by rw [hr.dstOfs, hsz]; exact hl
    rw [if_pos hdst]
    exact ⟨rfl, fun out sk ha => hl (((hacc out sk).mp ha).out_of_nil hrest).2.2⟩

end NdsDevkit.Ndsc
