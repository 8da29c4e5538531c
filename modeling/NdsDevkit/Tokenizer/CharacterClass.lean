import NdsDevkit.Text.Unichar
import NdsDevkit.Tokenizer.CharacterData

namespace NdsDevkit.Tokenizer

open Text

/-- `while (iHi >= iLo)` with `key >= entry` as its test: the index of the last entry that is not
above the key in an increasing array, or what `iRes` was. -/
def lastNotAbove (entries : List Nat) (key : Nat) : Nat → Int → Int → Int → Int
  | 0, iRes, _, _ => iRes
  | fuel + 1, iRes, iLo, iHi =>
    if iHi ≥ iLo then
      let iTest := (iHi + iLo).tdiv 2
      if key ≥ entries.getD iTest.toNat 0 then lastNotAbove entries key fuel iTest (iTest + 1) iHi
      else lastNotAbove entries key fuel iRes iLo (iTest - 1)
    else iRes

def removeDiacritic (c : Nat) : Nat :=
  let key := c <<< 3 ||| 0x00000007
  let iRes := (lastNotAbove aDia key (aDia.length + 1) 0 0 (aDia.length - 1)).toNat
  let entry := aDia.getD iRes 0
  if c > (entry >>> 3) + (entry &&& 0x07) then c else aChar.getD iRes 0

/-- Case folding, and removal of a diacritic. 0 is returned for a character that is ignored. -/
def sqlite3FtsUnicodeFold (c : Nat) (bRemoveDiacritic : Bool) : Nat :=
  if c < 128 then
    if c ≥ 65 ∧ c ≤ 90 then c + (97 - 65) else c
  else if c < 65536 then
    let iRes := lastNotAbove (foldEntries.map TableEntry.iCode) c (foldEntries.length + 1) (-1) 0
      (foldEntries.length - 1)
    let p := foldEntries.getD iRes.toNat ⟨0, 0, 0⟩
    let ret :=
      if iRes ≥ 0 ∧ c < p.iCode + p.nRange ∧ 0x01 &&& p.flags &&& (p.iCode ^^^ c) = 0 then
        (c + aiOff.getD (p.flags >>> 1) 0) &&& 0x0000ffff
      else c
    if bRemoveDiacritic then removeDiacritic ret else ret
  else if c ≥ 66560 ∧ c < 66600 then c + 40
  else c

/-- Whether a character is a token character by default. The assertion for characters from 2^22 on
is left out. -/
def isAlNum (c : Unichar) : Bool :=
  if c < 128 then aAscii.getD (c >>> 5) 0 &&& (1 <<< (c &&& 0x001f)) = 0
  else if c < 1 <<< 22 then
    let key := c <<< 10 ||| 0x000003ff
    let iRes := (lastNotAbove alNumEntries key (alNumEntries.length + 1) 0 0
      (alNumEntries.length - 1)).toNat
    let entry := alNumEntries.getD iRes 0
    c ≥ (entry >>> 10) + (entry &&& 0x3ff)
  else true

def isBigrammable (c : Unichar) : Bool :=
  (decide (c ≥ 0xe00) && decide (c < 0xf00)) ||
  (decide (c ≥ 0x1780) && decide (c < 0x1800)) ||
  decide (c > 0x2000)

def isDiacritic (character : Unichar) : Bool := unicharIsCombiningMark character

/-- The tokenizer: its options. `alnumExceptions` are the characters that are treated differently
than by default, in increasing order. -/
structure NdsUnicode61 where
  removeDiacritics : Bool
  alnumExceptions : List Unichar

/-- The search of `isException`. `idxEnd` is not included. -/
def exceptionSearch (exceptions : List Unichar) (c : Unichar) : Nat → Nat → Nat → Bool
  | 0, _, _ => false
  | fuel + 1, idxStart, idxEnd =>
    if idxEnd > idxStart then
      let idxTest := (idxStart + idxEnd) / 2
      let test := exceptions.getD idxTest 0
      if test = c then true
      else if c < test then exceptionSearch exceptions c fuel idxStart idxTest
      else exceptionSearch exceptions c fuel (idxTest + 1) idxEnd
    else false

namespace NdsUnicode61

def isException (self : NdsUnicode61) (c : Unichar) : Bool :=
  exceptionSearch self.alnumExceptions c (self.alnumExceptions.length + 1) 0
    self.alnumExceptions.length

def isTokenChar (self : NdsUnicode61) (c : Unichar) : Bool := isAlNum c ^^ self.isException c

end NdsUnicode61

end NdsDevkit.Tokenizer
