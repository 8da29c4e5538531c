import NdsDevkit.Framework.Buffer
import Mathlib.Order.Basic

namespace NdsDevkit.Ndsc

open Framework

/-- Number of buckets of the hash table. -/
def nsdcHashLen : Nat := 4096

/-- Maximum compressed length; the product wraps at 32 bits. -/
def calcNDSC (srcLen : Nat) : Nat := srcLen * 9 % 2 ^ 32 / 8 + 1

/-- The output variables of the encoder. Offsets count from the start of the target. -/
structure Writer where
  dst : Buf UInt8
  outOfs : Nat
  ctrlOfs : Nat
  ctrlData : UInt8
  ctrlCnt : Nat

namespace Writer

/-- `*out_ofs++ = b`. -/
def store (w : Writer) (b : UInt8) : Except Stop Writer := do
  let dst ← w.dst.write w.outOfs b
  return { w with dst, outOfs := w.outOfs + 1 }

def storeMany (w : Writer) (bs : List UInt8) : Except Stop Writer := do
  let dst ← w.dst.writeMany w.outOfs bs
  return { w with dst, outOfs := w.outOfs + bs.length }

/-- Makes room for a control bit. A full control byte is written back first; `ctrlData` is not
cleared, its old bits are shifted out. -/
def reserve (w : Writer) : Except Stop Writer :=
  if w.ctrlCnt = 8 then do
    let dst ← w.dst.write w.ctrlOfs w.ctrlData
    return { w with dst, ctrlCnt := 1, ctrlOfs := w.outOfs, outOfs := w.outOfs + 1 }
  else return { w with ctrlCnt := w.ctrlCnt + 1 }

def shift (w : Writer) (b : Bool) : Writer :=
  { w with ctrlData := if b then w.ctrlData <<< 1 ||| 1 else w.ctrlData <<< 1 }

def putRun (w : Writer) (cnt : Nat) : Except Stop Writer := do
  let w ← w.reserve
  if w.outOfs + 2 ≤ w.dst.size then do
    let w ← w.store (UInt8.ofNat (1 * 16 + (cnt - 3) / 256))
    let w ← w.store (UInt8.ofNat (cnt - 3))
    return w.shift true
  else throw .failure

def putPattern (w : Writer) (mcnt mgap : Nat) : Except Stop Writer := do
  let w ← w.reserve
  if mcnt < 16 then
    if w.outOfs + 2 ≤ w.dst.size then do
      let w ← w.store (UInt8.ofNat (mcnt * 16 + mgap / 256))
      let w ← w.store (UInt8.ofNat mgap)
      return w.shift true
    else throw .failure
  else
    if w.outOfs + 3 ≤ w.dst.size then do
      let w ← w.store (UInt8.ofNat (2 * 16 + mgap / 256))
      let w ← w.store (UInt8.ofNat mgap)
      let w ← w.store (UInt8.ofNat (mcnt - 16))
      return w.shift true
    else throw .failure

/-- A block of `gap` uncompressable bytes, its control bit already reserved. -/
def putBlock (w : Writer) (src : Buf UInt8) (uncOfs gap : Nat) : Except Stop Writer :=
  if w.outOfs + 2 + gap ≤ w.dst.size then do
    let w ← w.store (UInt8.ofNat (0 * 16 + (gap - 16) / 256))
    let w ← w.store (UInt8.ofNat (gap - 16))
    let bs ← src.readMany uncOfs gap
    (w.shift true).storeMany bs
  else throw .failure

/-- A single uncompressable byte, its control bit already reserved. -/
def putLiteral (w : Writer) (src : Buf UInt8) (uncOfs : Nat) : Except Stop Writer :=
  if w.outOfs < w.dst.size then do
    let b ← src.read uncOfs
    let w ← w.store b
    return w.shift false
  else throw .failure

/-- One pass of the loop that takes care of uncompressable bytes. -/
def flushStep (src : Buf UInt8) (curOfs : Nat) (s : Nat × Writer) :
    Except Stop (Nat × Writer) := do
  let w ← s.2.reserve
  if curOfs - s.1 > 16 then
    let gap := min (curOfs - s.1) (4096 + 16 - 1)
    let w ← w.putBlock src s.1 gap
    return (s.1 + gap, w)
  else
    let w ← w.putLiteral src s.1
    return (s.1 + 1, w)

/-- The block of uncompressable bytes that ends at `curOfs`, if one is open. The source
repeats this loop at each of its three flush points. -/
def flush (w : Writer) (src : Buf UInt8) (curOfs : Nat) : Option Nat → Except Stop Writer
  | none => return w
  | some uncOfs => do
    let s ← whileDo (fun s => decide (s.1 < curOfs)) (flushStep src curOfs) .outOfFuel
      (curOfs + 1) (uncOfs, w)
    return s.2

end Writer

/-- Run-length scan core: at most `n` characters equal to `c` from `srcOfs` on. -/
def scanRun (src : Buf UInt8) (c : UInt8) : Nat → Nat → Except Stop Nat
  | 0, srcOfs => return srcOfs
  | n + 1, srcOfs => do
    if (← src.read srcOfs) = c then scanRun src c n (srcOfs + 1) else return srcOfs

/-- Pattern scan core: advances both offsets while the characters agree. -/
def scanPattern (src : Buf UInt8) : Nat → Nat → Nat → Except Stop Nat
  | 0, srcOfs, _ => return srcOfs
  | n + 1, srcOfs, patOfs => do
    if (← src.read srcOfs) = (← src.read patOfs) then
      scanPattern src n (srcOfs + 1) (patOfs + 1)
    else return srcOfs

/-- The longest pattern found so far. -/
structure Best where
  mcnt : Nat
  mgap : Nat
  mext : Nat

/-- Examines the extra character before a pattern. -/
def patternExt (src : Buf UInt8) (curOfs : Nat) (uncOfs : Option Nat) (lstOfs cnt gap : Nat) :
    Except Stop Nat :=
  if uncOfs.isSome ∧ gap > 0 ∧ lstOfs > 0 then do
    let b ← src.read (curOfs - 1)
    let b' ← src.read (lstOfs - 1)
    return if b = b' ∧ cnt < 256 + 16 - 1 then 1 else 0
  else return 0

/-- Measures the pattern at `lstOfs` and keeps it when it beats the best one. -/
def comparePattern (src : Buf UInt8) (srcLen curOfs : Nat) (uncOfs : Option Nat) (lstOfs : Nat)
    (best : Best) : Except Stop Best := do
  let endOfs := min (min (curOfs + 256 + 16 - 1) srcLen) (curOfs + (curOfs - lstOfs))
  let srcOfs ← scanPattern src (endOfs - curOfs) curOfs lstOfs
  let cnt := srcOfs - curOfs
  if cnt > 1 then
    let gap := curOfs - (lstOfs + cnt)
    if gap < 4096 then do
      let ext ← patternExt src curOfs uncOfs lstOfs cnt gap
      return if cnt + ext > best.mcnt then ⟨cnt + ext, gap - ext, ext⟩ else best
    else return best
  else return best

/-- Entry of the hash table: a position of the source, or NULL. -/
abbrev HashTbl := Buf (Option Nat)

/-- The `n` slots from `i` on at an even position: the whole chain moves by one slot. -/
def shiftChain (base : Nat) : Nat → Nat → Option Nat → HashTbl → Except Stop HashTbl
  | 0, _, _, tbl => return tbl
  | n + 1, i, lstOfs, tbl => do
    let patOfs ← tbl.read (base + i)
    let tbl ← tbl.write (base + i) lstOfs
    shiftChain base n (i + 1) patOfs tbl

/-- The `n` slots from `i` on at an odd position: every entry inside the window is compared,
and the chain stops moving at the first entry outside it. -/
def searchChain (src : Buf UInt8) (srcLen curOfs : Nat) (uncOfs : Option Nat) (base : Nat) :
    Nat → Nat → Option Nat → HashTbl → Best → Except Stop (HashTbl × Best)
  | 0, _, _, tbl, best => return (tbl, best)
  | n + 1, i, lstOfs, tbl, best => do
    let patOfs ← tbl.read (base + i)
    let tbl ← tbl.write (base + i) lstOfs
    match patOfs with
    | none => searchChain src srcLen curOfs uncOfs base n (i + 1) none tbl best
    | some p =>
      if curOfs - p < 4096 + 256 + 16 - 1 then do
        let best ← comparePattern src srcLen curOfs uncOfs p best
        searchChain src srcLen curOfs uncOfs base n (i + 1) (some p) tbl best
      else return (tbl, best)

/-- The variables of the main loop. `uncOfs` is the start of the open uncompressable block. -/
structure PackState where
  srcOfs : Nat
  curOfs : Nat
  uncOfs : Option Nat
  out : Writer
  hashTbl : HashTbl

/-- Examines the extra character before a run. -/
def runExt (src : Buf UInt8) (curOfs : Nat) (uncOfs : Option Nat) (c : UInt8) (cnt : Nat) :
    Except Stop Nat :=
  if uncOfs.isSome ∧ curOfs > 1 then do
    let b ← src.read (curOfs - 2)
    return if b = c ∧ cnt < 4096 + 3 - 1 then 1 else 0
  else return 0

/-- Looks for a run at an odd position; `true` when one was written. -/
def packRun (src : Buf UInt8) (srcLen : Nat) (s : PackState) : Except Stop (Bool × PackState) :=
  if s.curOfs % 2 = 1 then do
    let c ← src.read (s.curOfs - 1)
    let endOfs := min (s.curOfs + 4096 + 3 - 1) srcLen
    let srcOfs ← scanRun src c (endOfs - s.curOfs) s.curOfs
    let cnt := srcOfs - s.curOfs
    if cnt > 1 then do
      let ext ← runExt src s.curOfs s.uncOfs c cnt
      if cnt + ext > 2 then do
        let out ← s.out.flush src (s.curOfs - ext) s.uncOfs
        let out ← out.putRun (cnt + ext)
        return (true, { s with srcOfs, curOfs := s.curOfs - ext, uncOfs := none, out })
      else return (false, s)
    else return (false, s)
  else return (false, s)

/-- Enters the position into the hash table and, at an odd position, looks for a pattern;
`true` when one was written. -/
def packPattern (src : Buf UInt8) (srcLen hnum : Nat) (s : PackState) :
    Except Stop (Bool × PackState) :=
  if srcLen - s.curOfs > 1 then do
    let b0 ← src.read s.curOfs
    let b1 ← src.read (s.curOfs + 1)
    let hash := (b0.toNat <<< 4 ^^^ b1.toNat) &&& (nsdcHashLen - 1)
    if s.curOfs % 2 = 0 then do
      let hashTbl ← shiftChain (hash * hnum) hnum 0 (some s.curOfs) s.hashTbl
      return (false, { s with hashTbl })
    else do
      let (hashTbl, best) ← searchChain src srcLen s.curOfs s.uncOfs (hash * hnum) hnum 0
        (some s.curOfs) s.hashTbl ⟨0, 0, 0⟩
      let s := { s with hashTbl }
      -- short patterns are ignored in uncompressable regions
      if best.mcnt > 2 ∧ (s.uncOfs = none ∨ best.mcnt > 5) then do
        let curOfs := s.curOfs - best.mext
        let out ← s.out.flush src curOfs s.uncOfs
        let out ← out.putPattern best.mcnt best.mgap
        return (true, { s with srcOfs := curOfs + best.mcnt, curOfs, uncOfs := none, out })
      else return (false, s)
  else return (false, s)

/-- One pass of the main loop. -/
def packStep (src : Buf UInt8) (srcLen hnum : Nat) (s : PackState) : Except Stop PackState :=
  if s.out.outOfs ≥ s.out.dst.size then throw .failure
  else do
    let (done, s) ← packRun src srcLen { s with curOfs := s.srcOfs }
    if done then return s
    else do
      let (done, s) ← packPattern src srcLen hnum s
      if done then return s
      else return { s with
        srcOfs := s.curOfs + 1, curOfs := s.curOfs + 1
        uncOfs := some (s.uncOfs.getD s.curOfs) }

def packInit (dstLen hnum : Nat) : PackState where
  srcOfs := 0
  curOfs := 0
  uncOfs := none
  out := ⟨.fresh dstLen, 1, 0, 0, 0⟩
  hashTbl := ⟨nsdcHashLen * hnum, fun _ => some none⟩

/-- Compresses `src`; the result is `dst_out` and the target buffer. The return value -1 is
the error exit `failure`. -/
def packNDSC (src : List UInt8) (dstLen : Nat) (mode : Int) : Except Stop (Nat × Buf UInt8) :=
  if mode < 0 ∨ mode > 8 then throw .failure
  else do
    let hnum := 1 <<< mode.toNat
    let s ← whileDo (fun s => decide (s.srcOfs < src.length))
      (packStep (.ofList src) src.length hnum) .outOfFuel (src.length + 1) (packInit dstLen hnum)
    let out ← s.out.flush (.ofList src) s.curOfs s.uncOfs
    if out.ctrlCnt ≠ 0 then do
      let dst ← out.dst.write out.ctrlOfs (out.ctrlData <<< UInt8.ofNat (8 - out.ctrlCnt))
      return (out.outOfs, dst)
    else return (0, out.dst)

end NdsDevkit.Ndsc
