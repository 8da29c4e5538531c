import NdsDevkit.Framework.Buffer

namespace NdsDevkit.Ndsc

open Framework

/-- The variables of the decoder. `ctrlMask` is 0 before the first control byte, and otherwise
the bit of `ctrlData` that was tested last. -/
structure UnpackState where
  ctrlData : UInt8
  ctrlMask : Nat
  srcOfs : Nat
  dst : Buf UInt8
  dstOfs : Nat

namespace UnpackState

/-- Moves to the next control bit, reading a new control byte when none is left. -/
def nextControl (src : Buf UInt8) (s : UnpackState) : Except Stop UnpackState :=
  if s.ctrlMask >>> 1 = 0 then do
    let ctrlData ← src.read s.srcOfs
    return { s with ctrlData, ctrlMask := 1 <<< 7, srcOfs := s.srcOfs + 1 }
  else return { s with ctrlMask := s.ctrlMask >>> 1 }

/-- `memcpy(dst_ofs, bs, ..); dst_ofs += ..`. -/
def append (s : UnpackState) (bs : List UInt8) : Except Stop UnpackState := do
  let dst ← s.dst.writeMany s.dstOfs bs
  return { s with dst, dstOfs := s.dstOfs + bs.length }

/-- A control bit 0: one character, if there is one left. -/
def copyChar (src : Buf UInt8) (s : UnpackState) : Except Stop UnpackState :=
  if s.srcOfs < src.size then do
    let b ← src.read s.srcOfs
    let s ← s.append [b]
    return { s with srcOfs := s.srcOfs + 1 }
  else return s

def uncompressable (src : Buf UInt8) (cnt : Nat) (s : UnpackState) : Except Stop UnpackState :=
  if s.srcOfs + cnt ≤ src.size ∧ s.dstOfs + cnt ≤ s.dst.size then do
    let bs ← src.readMany s.srcOfs cnt
    let s ← s.append bs
    return { s with srcOfs := s.srcOfs + cnt }
  else throw .failure

def runLength (cnt : Nat) (s : UnpackState) : Except Stop UnpackState :=
  if (s.dstOfs : Int) - 1 ≥ 0 ∧ s.dstOfs + cnt ≤ s.dst.size then do
    let b ← s.dst.read (s.dstOfs - 1)
    s.append (List.replicate cnt b)
  else throw .failure

/-- Copies `len` bytes from `gap + len` bytes back. Source and target of the memcpy must not
overlap. -/
def pattern (gap len : Nat) (s : UnpackState) : Except Stop UnpackState :=
  if (s.dstOfs : Int) - gap - len ≥ 0 ∧ s.dstOfs + len ≤ s.dst.size then do
    let bs ← s.dst.readMany (s.dstOfs - gap - len) len
    if s.dstOfs - gap - len + len ≤ s.dstOfs then s.append bs else throw .overlap
  else throw .failure

/-- `switch (cmd)`. A long pattern without its length byte is skipped. -/
def execute (src : Buf UInt8) (cmd cnt : Nat) (s : UnpackState) : Except Stop UnpackState :=
  match cmd with
  | 0 => s.uncompressable src (cnt + 16)
  | 1 => s.runLength (cnt + 3)
  | 2 =>
    if s.srcOfs < src.size then do
      let b2 ← src.read s.srcOfs
      { s with srcOfs := s.srcOfs + 1 }.pattern cnt (b2.toNat + 16)
    else return s
  | cmd => s.pattern cnt cmd

/-- A control bit 1: one command, skipped when less than two bytes are left. -/
def command (src : Buf UInt8) (s : UnpackState) : Except Stop UnpackState :=
  if s.srcOfs + 1 < src.size then do
    let b0 ← src.read s.srcOfs
    let b1 ← src.read (s.srcOfs + 1)
    let cmd := b0.toNat >>> 4 &&& 0x0F
    let cnt := (b0.toNat &&& 0x0F) <<< 8 + b1.toNat
    { s with srcOfs := s.srcOfs + 2 }.execute src cmd cnt
  else return s

end UnpackState

/-- One pass of the main loop. -/
def unpackStep (src : Buf UInt8) (s : UnpackState) : Except Stop UnpackState :=
  if s.dstOfs ≥ s.dst.size then throw .failure
  else do
    let s ← s.nextControl src
    if s.ctrlData.toNat &&& s.ctrlMask = 0 then s.copyChar src else s.command src

/-- Passes that are always enough: at most eight control bits are skipped for each byte. -/
def unpackFuel (srcLen : Nat) : Nat := 9 * srcLen + 9

/-- Decompresses `src`; the result is the target buffer. The return value -1 is the error exit
`failure`. -/
def unpackNDSC (src : List UInt8) (dstLen : Nat) : Except Stop (Buf UInt8) := do
  let s ← whileDo (fun s => decide (s.srcOfs < src.length)) (unpackStep (.ofList src)) .outOfFuel
    (unpackFuel src.length) ⟨0, 0, 0, .fresh dstLen, 0⟩
  if s.srcOfs ≠ src.length then throw .failure
  else if s.dstOfs ≠ s.dst.size then throw .failure
  else return s.dst

end NdsDevkit.Ndsc
