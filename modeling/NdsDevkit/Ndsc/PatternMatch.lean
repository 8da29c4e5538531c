import NdsDevkit.Ndsc.Pack

namespace NdsDevkit.Ndsc

open Framework

/-- The number of characters that agree, of `n` at most. -/
def agree (src : List UInt8) : Nat → Nat → Nat → Nat
  | 0, _, _ => 0
  | n + 1, ofs, pat => if src[ofs]? = src[pat]? then agree src n (ofs + 1) (pat + 1) + 1 else 0

section

variable (src : List UInt8) (curOfs : Nat) (uncOfs : Option Nat) (p : Nat)

/-- The length of the pattern at a candidate. -/
def patternCnt : Nat :=
  agree src (min (min (curOfs + 256 + 16 - 1) src.length) (curOfs + (curOfs - p)) - curOfs) curOfs p

def patternGap : Nat := curOfs - (p + patternCnt src curOfs p)

/-- The extra character before the pattern. -/
def extraChar : Nat :=
  if uncOfs.isSome ∧ 0 < patternGap src curOfs p ∧ 0 < p ∧ src[curOfs - 1]? = src[p - 1]? ∧
    patternCnt src curOfs p < 256 + 16 - 1 then 1 else 0

/-- The extended length. -/
def extLength : Nat := patternCnt src curOfs p + extraChar src curOfs uncOfs p

/-- The candidate as a match. -/
def matchAt : Best :=
  ⟨extLength src curOfs uncOfs p, patternGap src curOfs p - extraChar src curOfs uncOfs p,
    extraChar src curOfs uncOfs p⟩

/-- Keeps the better one of the best match and a candidate. -/
def keep (best : Best) (p : Nat) : Best :=
  if 1 < patternCnt src curOfs p ∧ patternGap src curOfs p < 4096 ∧
    best.mcnt < extLength src curOfs uncOfs p then matchAt src curOfs uncOfs p else best

end

variable {src : List UInt8} {curOfs : Nat} {uncOfs : Option Nat} {best : Best}

theorem extraChar_le (p : Nat) : extraChar src curOfs uncOfs p ≤ 1 := by
  rw [extraChar]
  split <;> decide

theorem agree_le (src : List UInt8) (n ofs pat : Nat) : agree src n ofs pat ≤ n := by
  induction n generalizing ofs pat with
  | zero => exact Nat.le_refl 0
  | succ n ih =>
    rw [agree]
    split
    · exact Nat.succ_le_succ (ih (ofs + 1) (pat + 1))
    · exact Nat.zero_le _

theorem agree_same {n ofs pat k : Nat} (hk : k < agree src n ofs pat) :
    src[ofs + k]? = src[pat + k]? := by
  induction n generalizing ofs pat k with
  | zero => cases hk
  | succ n ih =>
    rw [agree] at hk
    split at hk
    · next hc =>
      cases k with
      | zero => exact hc
      | succ k =>
        have hs := ih (Nat.lt_of_succ_lt_succ hk)
        rwa [Nat.add_assoc, Nat.add_comm 1 k, Nat.add_assoc, Nat.add_comm 1 k] at hs
    · cases hk

theorem scanPattern_eq (n ofs pat : Nat) (h : ofs + n ≤ src.length) (hp : pat + n ≤ src.length) :
    scanPattern (.ofList src) n ofs pat = .ok (ofs + agree src n ofs pat) := by
  induction n generalizing ofs pat with
  | zero => rfl
  | succ n ih =>
    have hlt : ofs < src.length := by omega
    have hltp : pat < src.length := by omega
    have hsame : (src[ofs]? = src[pat]?) ↔ src[ofs] = src[pat] := by
      rw [List.getElem?_eq_getElem hlt, List.getElem?_eq_getElem hltp, Option.some.injEq]
    simp only [scanPattern, agree, Buf.read_ofList hlt, Buf.read_ofList hltp, bind, Except.bind,
      hsame]
    split
    · rw [ih (ofs + 1) (pat + 1) (by omega) (by omega), Nat.add_assoc, Nat.add_comm 1]
    · rfl

theorem patternExt_eq {p cnt gap : Nat} (uncOfs : Option Nat) (hp : p ≤ curOfs)
    (hcur : curOfs < src.length) : patternExt (.ofList src) curOfs uncOfs p cnt gap =
      .ok (if uncOfs.isSome ∧ 0 < gap ∧ 0 < p ∧ src[curOfs - 1]? = src[p - 1]? ∧
        cnt < 256 + 16 - 1 then 1 else 0) := by
  rw [patternExt]
  split
  · next h =>
    have h1 : curOfs - 1 < src.length := by omega
    have h2 : p - 1 < src.length := by omega
    have hsame : (src[curOfs - 1]? = src[p - 1]?) ↔ src[curOfs - 1] = src[p - 1] := by
      rw [List.getElem?_eq_getElem h1, List.getElem?_eq_getElem h2, Option.some.injEq]
    simp only [Buf.read_ofList h1, Buf.read_ofList h2, bind, Except.bind, hsame, h.1, h.2.1, h.2.2,
      true_and]
    rfl
  · next h =>
    rw [if_neg (fun hc => h ⟨hc.1, hc.2.1, hc.2.2.1⟩)]
    rfl

/-- Comparing a candidate keeps it when it counts and is longer. -/
theorem comparePattern_eq {p : Nat} (best : Best) (hp : p ≤ curOfs)
    (hcur : curOfs < src.length) :
    comparePattern (.ofList src) src.length curOfs uncOfs p best =
      .ok (keep src curOfs uncOfs best p) := by
  have hscan : scanPattern (.ofList src)
      (min (min (curOfs + 256 + 16 - 1) src.length) (curOfs + (curOfs - p)) - curOfs) curOfs p =
      .ok (curOfs + patternCnt src curOfs p) := scanPattern_eq _ _ _ (by omega) (by omega)
  have hgap : curOfs - (p + patternCnt src curOfs p) = patternGap src curOfs p := rfl
  have hext : patternExt (.ofList src) curOfs uncOfs p (patternCnt src curOfs p)
      (patternGap src curOfs p) = .ok (extraChar src curOfs uncOfs p) :=
    patternExt_eq uncOfs hp hcur
  simp only [comparePattern, hscan, Nat.add_sub_cancel_left, hgap, hext, bind, Except.bind]
  rw [keep]
  by_cases hcnt : 1 < patternCnt src curOfs p
  · by_cases hlimit : patternGap src curOfs p < 4096
    · simp only [hcnt, hlimit, true_and, if_true]
      rfl
    · rw [if_pos hcnt, if_neg hlimit, if_neg (fun h => hlimit h.2.1)]
      rfl
  · rw [if_neg hcnt, if_neg (fun h => hcnt h.1)]
    rfl

end NdsDevkit.Ndsc
