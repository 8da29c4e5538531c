import NdsDevkit.Framework.Buffer
import NdsDevkit.Framework.Stream
import NdsDevkit.Text.WellFormed

namespace NdsDevkit.Text

open Framework

/-- The buffer a call of the writer stores into, and `*pStr`. -/
structure WriterState where
  dst : Buf UInt8
  pStr : Nat

/-- A call of the writer with the buffer it stores into. -/
def WriterState.write (pEnd : Nat) (s : WriterState) (character : Unichar) :
    Except Stop (Bool × WriterState) := do
  let (ok, bytes) := writeUnicharAsUtf8 character (pEnd - s.pStr)
  let dst ← s.dst.writeMany s.pStr bytes
  pure (ok, ⟨dst, s.pStr + bytes.length⟩)

/-- Consecutive calls, with what each of them returns. -/
def WriterState.writeEach (pEnd : Nat) (s : WriterState) :
    List Unichar → Except Stop (List Bool × WriterState)
  | [] => pure ([], s)
  | c :: cs => do
    let (ok, s) ← s.write pEnd c
    let (oks, s) ← s.writeEach pEnd cs
    pure (ok :: oks, s)

theorem WriterState.write_eq {s : WriterState} {pEnd c : Nat} (hc : c < 2 ^ 21)
    (hroom : s.pStr + utf8Width c ≤ pEnd) (hsize : pEnd ≤ s.dst.size) :
    s.write pEnd c = .ok (true, ⟨s.dst.put s.pStr (utf8Bytes c), s.pStr + utf8Width c⟩) := by
  have hlen := length_utf8Bytes hc
  simp only [write, writeUnicharAsUtf8_eq hc (show utf8Width c ≤ pEnd - s.pStr by omega)]
  rw [Buf.writeMany_eq (by omega), hlen]
  rfl

/-- Where all characters fit, the buffer holds their bytes behind what it held before. -/
theorem WriterState.writeEach_eq {pEnd start : Nat} {cs : List Nat} {s : WriterState}
    {held : List UInt8} (hcs : ∀ c ∈ cs, c < 2 ^ 21)
    (hroom : s.pStr + (cs.map utf8Width).sum ≤ pEnd) (hsize : pEnd ≤ s.dst.size)
    (hheld : s.dst.Holds start held) (hstart : s.pStr = start + held.length) :
    ∃ dst, s.writeEach pEnd cs =
        .ok (cs.map fun _ => true, ⟨dst, s.pStr + (cs.map utf8Width).sum⟩) ∧
      dst.size = s.dst.size ∧ dst.Holds start (held ++ utf8Text cs) ∧
      ∀ i, i < s.pStr ∨ s.pStr + (cs.map utf8Width).sum ≤ i → dst.cells i = s.dst.cells i := by
  induction cs generalizing s held with
  | nil => exact ⟨s.dst, rfl, rfl, by simpa using hheld, fun _ _ => rfl⟩
  | cons c cs ih =>
    simp only [List.map_cons, List.sum_cons] at hroom ⊢
    obtain ⟨hc, hcs⟩ := List.forall_mem_cons.mp hcs
    have hlen := length_utf8Bytes hc
    have hwrite := s.write_eq hc (show s.pStr + utf8Width c ≤ pEnd by omega) hsize
    obtain ⟨dst, hrest, hdst, hholds, hother⟩ := @ih
      ⟨s.dst.put s.pStr (utf8Bytes c), s.pStr + utf8Width c⟩ (held ++ utf8Bytes c) hcs
      (by simp only; omega) (by simpa using hsize) (hheld.put_at _ hstart)
      (by simp only [List.length_append]; omega)
    refine ⟨dst, ?_, hdst, ?_, ?_⟩
    · simp only [writeEach, hwrite, hrest, bind, Except.bind, pure, Except.pure, Nat.add_assoc]
    · rwa [List.append_assoc] at hholds
    · intro i hi
      rw [hother i (by simp only; omega)]
      exact Buf.cells_put_of_not_mem _ (by omega)

theorem length_utf8Text {cs : List Nat} (hcs : ∀ c ∈ cs, c < 2 ^ 21) :
    (utf8Text cs).length = (cs.map utf8Width).sum := by
  rw [utf8Text, List.length_flatMap]
  congr 1
  exact List.map_congr_left fun c hc => length_utf8Bytes (hcs c hc)

/-- The decoder reads a written text character by character to its end. -/
theorem yields_utf8Text {cs : List Nat} (hcs : ∀ c ∈ cs, c < 2 ^ 21) (tail : List UInt8) :
    Yields decodeNextUtf8CharToUnichar ⟨some (utf8Text cs ++ tail), (utf8Text cs).length⟩ cs
      ⟨some tail, 0⟩ := by
  induction cs with
  | nil => exact .nil _
  | cons c cs ih =>
    obtain ⟨hc, hcs⟩ := List.forall_mem_cons.mp hcs
    have hlen : (utf8Text (c :: cs)).length = (utf8Bytes c).length + (utf8Text cs).length :=
      List.length_append
    have hle : ((utf8Bytes c).length : Int) ≤ (utf8Text (c :: cs)).length := by omega
    have hd := (utf8Form_utf8Bytes hc).decodeNext hle (utf8Text cs ++ tail)
    rw [← List.append_assoc] at hd
    refine .cons hd ?_
    rw [show ((utf8Text (c :: cs)).length : Int) - (utf8Bytes c).length = (utf8Text cs).length by
      omega]
    exact ih hcs

/-- What is written is read back: every call of the writer succeeds, and decoding the bytes that
it stored returns the characters and uses up the bytes. -/
theorem decode_writeEach {pEnd : Nat} {cs : List Unichar} {s : WriterState}
    (hcs : ∀ c ∈ cs, c ≤ 0x10ffff) (hroom : s.pStr + (cs.map utf8Width).sum ≤ pEnd)
    (hsize : pEnd ≤ s.dst.size) :
    ∃ bytes dst, s.writeEach pEnd cs =
        .ok (cs.map fun _ => true, ⟨dst, s.pStr + bytes.length⟩) ∧
      dst.Holds s.pStr bytes ∧
      (∀ i, i < s.pStr ∨ s.pStr + bytes.length ≤ i → dst.cells i = s.dst.cells i) ∧
      ∀ tail, Yields decodeNextUtf8CharToUnichar ⟨some (bytes ++ tail), bytes.length⟩ cs
        ⟨some tail, 0⟩ := by
  have hlt : ∀ c ∈ cs, (c : Nat) < 2 ^ 21 := fun c hc =>
    Nat.lt_of_le_of_lt (hcs c hc) (by decide)
  obtain ⟨dst, hwrite, _, hholds, hother⟩ :=
    WriterState.writeEach_eq hlt hroom hsize (Buf.holds_nil s.dst s.pStr) rfl
  rw [← length_utf8Text hlt] at hwrite hother
  exact ⟨utf8Text cs, dst, hwrite, hholds, hother, yields_utf8Text hlt⟩

/-- Characters of one to four bytes fill ten bytes. -/
theorem decode_writeEach_ten : ∃ bytes dst,
    (WriterState.mk (.fresh 12) 1).writeEach 11 [0x41, 0xe9, 0x20ac, 0x10ffff] =
      .ok ([true, true, true, true], ⟨dst, 1 + bytes.length⟩) ∧
    dst.Holds 1 bytes ∧
    (∀ i, i < 1 ∨ 1 + bytes.length ≤ i → dst.cells i = none) ∧
    ∀ tail, Yields decodeNextUtf8CharToUnichar ⟨some (bytes ++ tail), bytes.length⟩
      [0x41, 0xe9, 0x20ac, 0x10ffff] ⟨some tail, 0⟩ :=
  decode_writeEach (by decide) (by decide) (by decide)

end NdsDevkit.Text
