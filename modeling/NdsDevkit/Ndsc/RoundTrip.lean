import NdsDevkit.Ndsc.PackCorrect
import NdsDevkit.Ndsc.Acceptance

namespace NdsDevkit.Ndsc

open Framework

/-- What the encoder returns decodes to the source. -/
theorem unpackNDSC_packNDSC {src : List UInt8} {dstLen : Nat} {mode : Int} {n : Nat}
    {dst : Buf UInt8} (h : packNDSC src dstLen mode = .ok (n, dst)) :
    ∃ bytes out, dst.slice 0 n = some bytes ∧ unpackNDSC bytes src.length = .ok out ∧
      out.size = src.length ∧ out.slice 0 src.length = some src := by
  by_cases hm : 0 ≤ mode ∧ mode ≤ 8
  · have hspec := packNDSC_spec src dstLen hm.1 hm.2
    rw [h] at hspec
    obtain ⟨_, _, _, bytes, hlen, hholds, hn⟩ := hspec
    obtain ⟨out, hout, hsize, hh⟩ := unpackNDSC_of_isNDSC hn
    simp only at hlen
    subst hlen
    exact ⟨bytes, out, hholds.slice, hout, hsize, hh.slice⟩
  · unfold packNDSC at h
    rw [if_pos (by omega)] at h
    cases h

theorem unpackNDSC_packNDSC_run : ∃ n dst, packNDSC [65, 65, 65, 65] 5 0 = .ok (n, dst) ∧
    ∃ bytes out, dst.slice 0 n = some bytes ∧ unpackNDSC bytes 4 = .ok out ∧ out.size = 4 ∧
      out.slice 0 4 = some [65, 65, 65, 65] := by
  have hok : (packNDSC [65, 65, 65, 65] 5 0).isOk = true := by decide
  cases h : packNDSC [65, 65, 65, 65] 5 0 with
  | ok r => exact ⟨r.1, r.2, rfl, unpackNDSC_packNDSC h⟩
  | error e =>
    rw [h] at hok
    cases hok

/-- The encoder stays inside the target, and a target of the computed size is enough. -/
theorem packNDSC_bound (src : List UInt8) (dstLen : Nat) {mode : Int}
    (hm : 0 ≤ mode ∧ mode ≤ 8) :
    Ends (packNDSC src dstLen mode) (fun r => r.2.size = dstLen ∧ r.1 ≤ dstLen) (· = .failure) ∧
      (9 * src.length < 2 ^ 32 → calcNDSC src.length ≤ dstLen →
        ∃ n dst, packNDSC src dstLen mode = .ok (n, dst) ∧ n ≤ 9 * src.length / 8 + 1) := by
  have hspec := packNDSC_spec src dstLen hm.1 hm.2
  refine ⟨hspec.mono (fun r hr => ⟨hr.1, hr.2.1⟩) fun e he => he.1, ?_⟩
  intro hlen hdst
  have hcalc : calcNDSC src.length = 9 * src.length / 8 + 1 := by
    rw [calcNDSC, Nat.mul_comm, Nat.mod_eq_of_lt hlen]
  obtain ⟨⟨n, dst⟩, hok, hr⟩ := hspec.ok_of_not fun e he => by
    have := he.2
    omega
  exact ⟨n, dst, hok, hr.2.2.1⟩

theorem packNDSC_bound_run : ∃ n dst, packNDSC [1, 2, 3] 4 8 = .ok (n, dst) ∧ n ≤ 4 :=
  (packNDSC_bound [1, 2, 3] 4 (by decide)).2 (by decide) (by decide)

end NdsDevkit.Ndsc
