import NdsDevkit.Framework.Buffer
import NdsDevkit.Tokenizer.CharacterClass

namespace NdsDevkit.Tokenizer

open Framework Text

variable {σ : Type}

/-- `while (DecodeNextUtf8CharToUnichar(&c, &l, &u))` with a body, for at most `n` passes. -/
def whileDecodes (body : σ → Unichar → Except Stop σ) : Nat → Utf8Input → σ → Except Stop σ
  | 0, _, _ => throw .outOfFuel
  | n + 1, i, s =>
    match decodeNextUtf8CharToUnichar i with
    | (none, _) => return s
    | (some u, i) => do
      let s ← body s u
      whileDecodes body n i s

/-- The loop over a string; each pass takes at least a byte. -/
def forDecoded (body : σ → Unichar → Except Stop σ) (chars : List UInt8) (s : σ) :
    Except Stop σ :=
  whileDecodes body (chars.length + 1) ⟨some chars, chars.length⟩ s

/-- The tokenizer while its arguments are parsed: the array of exceptions with the size it was
allocated with, and the number of entries in use. -/
structure Options where
  removeDiacritics : Bool
  alnumExceptions : Buf Unichar
  alnumExceptionsCount : Nat

namespace Options

/-- The search of `isException` in the array. -/
def exceptionSearch (exceptions : Buf Unichar) (c : Unichar) : Nat → Nat → Nat → Except Stop Bool
  | 0, _, _ => throw .outOfFuel
  | fuel + 1, idxStart, idxEnd =>
    if idxEnd > idxStart then do
      let idxTest := (idxStart + idxEnd) / 2
      let test ← exceptions.read idxTest
      if test = c then return true
      else if c < test then exceptionSearch exceptions c fuel idxStart idxTest
      else exceptionSearch exceptions c fuel (idxTest + 1) idxEnd
    else return false

def isException (self : Options) (c : Unichar) : Except Stop Bool :=
  if self.alnumExceptionsCount > 0 then
    exceptionSearch self.alnumExceptions c (self.alnumExceptionsCount + 1) 0
      self.alnumExceptionsCount
  else return false

def isTokenChar (self : Options) (c : Unichar) : Except Stop Bool := do
  return isAlNum c ^^ (← self.isException c)

/-- `while (insertIdx < count && exceptions[insertIdx] < u) ++insertIdx`, with `n` entries left. -/
def insertPosition (exceptions : Buf Unichar) (u : Unichar) : Nat → Nat → Except Stop Nat
  | 0, insertIdx => return insertIdx
  | n + 1, insertIdx => do
    if (← exceptions.read insertIdx) < u then insertPosition exceptions u n (insertIdx + 1)
    else return insertIdx

/-- `for (; i > insertIdx; i--) exceptions[i] = exceptions[i-1]`. -/
def shiftEntries (insertIdx : Nat) : Nat → Buf Unichar → Except Stop (Buf Unichar)
  | 0, exceptions => return exceptions
  | i + 1, exceptions =>
    if i + 1 > insertIdx then do
      let entry ← exceptions.read i
      let exceptions ← exceptions.write (i + 1) entry
      shiftEntries insertIdx i exceptions
    else return exceptions

/-- `insertIdx == count || exceptions[insertIdx] != u`. -/
def isMissing (self : Options) (insertIdx : Nat) (u : Unichar) : Except Stop Bool :=
  if insertIdx = self.alnumExceptionsCount then return true
  else do return (← self.alnumExceptions.read insertIdx) != u

def insertException (self : Options) (u : Unichar) : Except Stop Options := do
  let insertIdx ← insertPosition self.alnumExceptions u self.alnumExceptionsCount 0
  if ← self.isMissing insertIdx u then
    let exceptions ← shiftEntries insertIdx self.alnumExceptionsCount self.alnumExceptions
    let exceptions ← exceptions.write insertIdx u
    return { self with
      alnumExceptions := exceptions
      alnumExceptionsCount := self.alnumExceptionsCount + 1 }
  else return self

/-- The exceptions after `realloc` to `n` entries. -/
def realloc (self : Options) (n : Nat) : Options :=
  { self with
    alnumExceptions := ⟨n, fun i =>
      if i < self.alnumExceptions.size then self.alnumExceptions.cells i else none⟩ }

/-- A pass of the first loop: counts the characters whose class has to change. -/
def countExtra (self : Options) (tokenChars : Bool) (extraCharsCount : Nat) (u : Unichar) :
    Except Stop Nat := do
  if (← self.isTokenChar u) != tokenChars then return extraCharsCount + 1
  else return extraCharsCount

/-- A pass of the second loop. -/
def addException (tokenChars : Bool) (self : Options) (u : Unichar) : Except Stop Options := do
  if (← self.isTokenChar u) != tokenChars then self.insertException u else return self

/-- `allocates` tells for which numbers of entries `realloc` succeeds; SQLITE_NOMEM is the exit
`failure`. -/
def addExceptions (allocates : Nat → Bool) (self : Options) (tokenChars : Bool)
    (chars : List UInt8) : Except Stop Options := do
  let extraCharsCount ← forDecoded (self.countExtra tokenChars) chars 0
  if extraCharsCount > 0 then
    let size := self.alnumExceptionsCount + extraCharsCount
    if allocates size then forDecoded (addException tokenChars) chars (self.realloc size)
    else throw .failure
  else return self

end Options

/-- `"remove_diacritics="` -/
def removeDiacriticsOption : List UInt8 :=
  [0x72, 0x65, 0x6D, 0x6F, 0x76, 0x65, 0x5F, 0x64, 0x69, 0x61, 0x63, 0x72, 0x69, 0x74, 0x69, 0x63,
    0x73, 0x3D]

/-- `"tokenchars="` -/
def tokencharsOption : List UInt8 :=
  [0x74, 0x6F, 0x6B, 0x65, 0x6E, 0x63, 0x68, 0x61, 0x72, 0x73, 0x3D]

/-- `"separators="` -/
def separatorsOption : List UInt8 :=
  [0x73, 0x65, 0x70, 0x61, 0x72, 0x61, 0x74, 0x6F, 0x72, 0x73, 0x3D]

/-- One argument. `sscanf` reads a decimal number; the exit `failure` stands for SQLITE_ERROR too. -/
def parseArgument (sscanf : List UInt8 → Option Int) (allocates : Nat → Bool) (self : Options)
    (arg : List UInt8) : Except Stop Options :=
  if removeDiacriticsOption.isPrefixOf arg then
    match sscanf (arg.drop removeDiacriticsOption.length) with
    | some removeDiacritics => return { self with removeDiacritics := removeDiacritics != 0 }
    | none => throw .failure
  else if tokencharsOption.isPrefixOf arg then
    self.addExceptions allocates true (arg.drop tokencharsOption.length)
  else if separatorsOption.isPrefixOf arg then
    self.addExceptions allocates false (arg.drop tokencharsOption.length)
  else throw .failure

/-- Parses the arguments, each without its terminating NUL. -/
def parseArguments (sscanf : List UInt8 → Option Int) (allocates : Nat → Bool)
    (argv : List (List UInt8)) : Except Stop Options :=
  argv.foldlM (parseArgument sscanf allocates) ⟨true, .fresh 0, 0⟩

/-- The tokenizer that was parsed, with the entries in use. -/
def Options.tokenizer (self : Options) : NdsUnicode61 where
  removeDiacritics := self.removeDiacritics
  alnumExceptions :=
    (List.range self.alnumExceptionsCount).map fun i => (self.alnumExceptions.cells i).getD 0

end NdsDevkit.Tokenizer
