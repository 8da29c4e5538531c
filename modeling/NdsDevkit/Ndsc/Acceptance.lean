import NdsDevkit.Ndsc.UnpackCorrect

namespace NdsDevkit.Ndsc

open Framework

/-- The decoder accepts the streams of the format with `dstLen` bytes of output, no others, and
returns this output. -/
def AcceptsExactly (src : List UInt8) (dstLen : Nat) : Prop :=
  ((∃ dst, unpackNDSC src dstLen = .ok dst) ↔ ∃ out, IsNDSC src out ∧ out.length = dstLen) ∧
    ∀ dst out, unpackNDSC src dstLen = .ok dst → IsNDSC src out → out.length = dstLen →
      dst.Holds 0 out

/-- Complete items that leave the output one byte short, then a command bit with one byte left
and a literal bit behind it in the same control byte. -/
def LeftoverByte (src : List UInt8) (dstLen : Nat) : Prop :=
  ∃ items bits x out, Reads Item.flag Item.bytes ([], src) items (true :: bits, [x]) ∧
    false ∈ bits ∧ Edit.applyAll (items.map Item.edit) [] = some out ∧ out.length + 1 = dstLen

theorem IsNDSC.accepts {src out : List UInt8} {dstLen : Nat} (h : IsNDSC src out)
    (hl : out.length = dstLen) : Accepts dstLen (Decoder.start src) out false := by
  obtain ⟨items, bits, hr, he⟩ := h
  have hdone : Accepts dstLen ⟨bits, [], out, false⟩ out false := .done rfl hl
  exact Accepts.of_reads hr he hl.le hdone

theorem Accepts.isNDSC {src out : List UInt8} {dstLen : Nat}
    (h : Accepts dstLen (Decoder.start src) out false) : IsNDSC src out :=
  h.reads rfl

theorem Accepts.length_out {dstLen : Nat} {d : Decoder} {out : List UInt8} {sk : Bool}
    (h : Accepts dstLen d out sk) : out.length = dstLen := by
  induction h with
  | done _ hl => exact hl
  | step _ _ _ ih => exact ih

/-- The decoder returns what the list-level decoder accepts. -/
theorem unpackNDSC_ok_iff (src : List UInt8) (dstLen : Nat) :
    (∃ dst, unpackNDSC src dstLen = .ok dst) ↔
      ∃ out sk, Accepts dstLen (Decoder.start src) out sk := by
  have hspec := unpackNDSC_spec src dstLen
  constructor
  · intro hex
    obtain ⟨dst, hdst⟩ := hex
    rw [hdst] at hspec
    obtain ⟨_, out, sk, _, ha⟩ := hspec
    exact ⟨out, sk, ha⟩
  · intro hex
    obtain ⟨out, sk, ha⟩ := hex
    obtain ⟨dst, hdst, _⟩ := hspec.ok_of_not fun e he => he.2 out sk ha
    exact ⟨dst, hdst⟩

/-- Whatever the stream, the decoder reads and writes inside its buffers, reads only what it has
written, copies between ranges that do not overlap and returns. A success leaves no byte of the
target unwritten. -/
theorem unpackNDSC_safe (src : List UInt8) (dstLen : Nat) :
    unpackNDSC src dstLen = .error .failure ∨
      ∃ dst, unpackNDSC src dstLen = .ok dst ∧ dst.size = dstLen ∧
        ∀ i, i < dstLen → ∃ b, dst.cells i = some b := by
  have hspec := unpackNDSC_spec src dstLen
  cases hres : unpackNDSC src dstLen with
  | error e =>
    rw [hres] at hspec
    obtain ⟨rfl, _⟩ := hspec
    exact .inl rfl
  | ok dst =>
    rw [hres] at hspec
    obtain ⟨hsz, out, sk, hh, ha⟩ := hspec
    refine .inr ⟨dst, rfl, hsz, ?_⟩
    intro i hi
    have hlt : i < out.length := by rwa [ha.length_out]
    have hcell := hh i hlt
    rw [Nat.zero_add, List.getElem?_eq_getElem hlt] at hcell
    exact ⟨_, hcell⟩

/-- A stream of the format is decoded to its output. -/
theorem unpackNDSC_of_isNDSC {src out : List UInt8} (h : IsNDSC src out) :
    ∃ dst, unpackNDSC src out.length = .ok dst ∧ dst.size = out.length ∧ dst.Holds 0 out := by
  have ha := h.accepts rfl
  obtain ⟨dst, hdst, hsz, out', sk, hh, ha'⟩ :=
    (unpackNDSC_spec src out.length).ok_of_not fun e he => he.2 _ _ ha
  obtain ⟨rfl, _⟩ := ha.unique ha'
  exact ⟨dst, hdst, hsz, hh⟩

theorem LeftoverByte.accepts {src : List UInt8} {dstLen : Nat} (h : LeftoverByte src dstLen) :
    ∃ out, Accepts dstLen (Decoder.start src) out true := by
  obtain ⟨items, bits, x, out, hr, hmem, he, hl⟩ := h
  obtain ⟨sk, ha, hsk⟩ := accepts_leftover_byte true hmem hl
  rw [hsk rfl] at ha
  -- the command bit is passed over
  have hs : decodeStep dstLen ⟨true :: bits, [x], out, false⟩ = some ⟨bits, [x], out, true⟩ := by
    simp only [decodeStep]
    rw [if_neg (by omega)]
    rfl
  exact ⟨_, Accepts.of_reads hr he (by omega) (.step (by simp) hs ha)⟩

theorem not_acceptsExactly_of_leftoverByte {src : List UInt8} {dstLen : Nat}
    (h : LeftoverByte src dstLen) : ¬ AcceptsExactly src dstLen := by
  intro hex
  obtain ⟨out, ha⟩ := h.accepts
  obtain ⟨out', hn, hl⟩ := hex.1.mp ((unpackNDSC_ok_iff src dstLen).mpr ⟨out, true, ha⟩)
  cases (ha.unique (hn.accepts hl)).2

/-- The decoder accepts exactly the format unless a single byte is left over for a command. -/
theorem acceptsExactly_iff (src : List UInt8) (dstLen : Nat) :
    AcceptsExactly src dstLen ↔ ¬ LeftoverByte src dstLen := by
  refine ⟨fun hex h => not_acceptsExactly_of_leftoverByte h hex, fun h => ⟨⟨?_, ?_⟩, ?_⟩⟩
  · intro hok
    obtain ⟨out, sk, ha⟩ := (unpackNDSC_ok_iff src dstLen).mp hok
    cases sk with
    | false => exact ⟨out, ha.isNDSC, ha.length_out⟩
    | true => exact absurd (ha.leftover rfl rfl) h
  · intro hex
    obtain ⟨out, hn, hl⟩ := hex
    exact (unpackNDSC_ok_iff src dstLen).mpr ⟨out, false, hn.accepts hl⟩
  · intro dst out hok hn hl
    subst hl
    obtain ⟨dst', hdst', _, hh⟩ := unpackNDSC_of_isNDSC hn
    rw [hok] at hdst'
    cases hdst'
    exact hh

/-- A command bit, a single byte and a literal bit: the byte becomes a literal. -/
theorem not_acceptsExactly_leftover : ¬ AcceptsExactly [0x80, 65] 1 := by
  apply not_acceptsExactly_of_leftoverByte
  refine ⟨[], List.replicate 7 false, 65, [], ?_, by simp, rfl, rfl⟩
  exact .control (by simp) (.nil _)

end NdsDevkit.Ndsc
