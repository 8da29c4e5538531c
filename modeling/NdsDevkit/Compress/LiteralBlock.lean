import NdsDevkit.Compress.PageCodec

namespace NdsDevkit.Compress

/-- The bytes behind the token for a length of 15 and `n` more. -/
def lengthBytes (n : Nat) : List UInt8 := List.replicate (n / 255) 255 ++ [UInt8.ofNat (n % 255)]

/-- The block of LZ4 for a text in which it finds no match: one sequence, with literals only. -/
def literalBlock (src : List UInt8) : List UInt8 :=
  if src.length < 15 then UInt8.ofNat (src.length * 16) :: src
  else 0xF0 :: (lengthBytes (src.length - 15) ++ src)

/-- A length that starts with `n`, and what is behind it. -/
def readLength (n : Nat) : List UInt8 → Option (Nat × List UInt8)
  | [] => none
  | b :: bs => if b = 255 then readLength (n + 255) bs else some (n + b.toNat, bs)

/-- The literals of a block with one sequence, for a target of `n` bytes. -/
def readLiterals (blob : List UInt8) (n : Nat) : Option (List UInt8) :=
  match blob with
  | [] => none
  | token :: bs =>
    let run := if token.toNat / 16 = 15 then readLength 15 bs else some (token.toNat / 16, bs)
    match run with
    | none => none
    | some (length, bs) => if bs.length = length ∧ length ≤ n then some bs else none

theorem readLength_lengthBytes (n k : Nat) (rest : List UInt8) :
    readLength n (lengthBytes k ++ rest) = some (n + k, rest) := by
  induction k using Nat.strong_induction_on generalizing n with
  | _ k ih =>
    by_cases hk : k < 255
    · have hbyte : (UInt8.ofNat k).toNat = k := by
        rw [UInt8.toNat_ofNat']
        omega
      have hne : UInt8.ofNat k ≠ 255 := by
        intro heq
        rw [heq] at hbyte
        change 255 = k at hbyte
        omega
      rw [lengthBytes, Nat.div_eq_of_lt hk, Nat.mod_eq_of_lt hk, List.replicate_zero,
        List.nil_append, List.singleton_append, readLength, if_neg hne, hbyte]
    · have hless := ih (k - 255) (by omega) (n + 255)
      have hdiv : k / 255 = (k - 255) / 255 + 1 := by omega
      have hmod : k % 255 = (k - 255) % 255 := by omega
      rw [lengthBytes, hdiv, hmod, List.replicate_succ, List.cons_append, List.cons_append,
        readLength, if_pos rfl]
      rw [lengthBytes, show n + 255 + (k - 255) = n + k by omega] at hless
      exact hless

/-- A block of literals is restored. -/
theorem readLiterals_literalBlock (src : List UInt8) {n : Nat} (h : src.length ≤ n) :
    readLiterals (literalBlock src) n = some src := by
  by_cases hshort : src.length < 15
  · have htoken : (UInt8.ofNat (src.length * 16)).toNat / 16 = src.length := by
      rw [UInt8.toNat_ofNat']
      omega
    have hne : src.length ≠ 15 := by omega
    rw [literalBlock, if_pos hshort]
    simp only [readLiterals, htoken, if_neg hne, true_and, if_pos h]
  · have hlong := readLength_lengthBytes 15 (src.length - 15) src
    have hsum : 15 + (src.length - 15) = src.length := by omega
    rw [hsum] at hlong
    rw [literalBlock, if_neg hshort]
    simp only [readLiterals, if_pos (show (0xF0 : UInt8).toNat / 16 = 15 from rfl), hlong, true_and,
      if_pos h]

/-- The literals fit into the target. -/
theorem length_readLiterals {blob page : List UInt8} {n : Nat}
    (h : readLiterals blob n = some page) : page.length ≤ n := by
  cases blob with
  | nil => cases h
  | cons token bs =>
    simp only [readLiterals] at h
    split at h
    · cases h
    · split at h
      · next hfits =>
        cases h
        omega
      · cases h

theorem length_literalBlock (src : List UInt8) :
    0 < (literalBlock src).length ∧
      (literalBlock src).length ≤ src.length + src.length / 255 + 2 := by
  rw [literalBlock]
  split
  · rw [List.length_cons]
    omega
  · simp only [List.length_cons, List.length_append, lengthBytes, List.length_replicate,
      List.length_nil]
    omega

def literalCompress (src : List UInt8) (n : Nat) : Option (List UInt8) :=
  if (literalBlock src).length ≤ n then some (literalBlock src) else none

/-- LZ4 on texts without a match, and no zlib. -/
def literalBlocks : Libraries where
  compress2 := fun _ _ _ => none
  uncompress := fun _ _ => none
  LZ4_compressBound := fun n => if n > 0x7E000000 then 0 else n + n / 255 + 16
  LZ4_compress_limitedOutput := literalCompress
  LZ4_compressHC_limitedOutput := literalCompress
  LZ4_decompress_safe := readLiterals

theorem literalCompress_spec {src out : List UInt8} {n : Nat}
    (h : literalCompress src n = some out) :
    0 < out.length ∧ out.length ≤ n ∧ readLiterals out src.length = some src := by
  rw [literalCompress] at h
  split at h
  · next hle =>
    cases h
    exact ⟨(length_literalBlock src).1, hle, readLiterals_literalBlock src (Nat.le_refl _)⟩
  · cases h

theorem literalCompress_isSome {src : List UInt8} {n : Nat} (hsrc : src.length ≤ 0x7E000000)
    (h : literalBlocks.LZ4_compressBound src.length ≤ n) : (literalCompress src n).isSome := by
  have hlen := (length_literalBlock src).2
  change (if src.length > 0x7E000000 then 0 else _) ≤ n at h
  rw [if_neg (by omega)] at h
  rw [literalCompress, if_pos (by omega)]
  rfl

theorem literalBlocks_lossless : literalBlocks.Lossless where
  compress2 := nofun
  compress := fun _ _ _ h => literalCompress_spec h
  compressHC := fun _ _ _ h => literalCompress_spec h
  bound := fun _ _ hsrc h => ⟨literalCompress_isSome hsrc h, literalCompress_isSome hsrc h⟩
  compressBound := by
    intro n hn
    change (if n > 0x7E000000 then 0 else _) ≤ _
    rw [if_neg (by omega)]

end NdsDevkit.Compress
