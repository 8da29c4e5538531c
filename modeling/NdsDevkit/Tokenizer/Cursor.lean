import NdsDevkit.Framework.Loop
import NdsDevkit.Tokenizer.CharacterClass
import NdsDevkit.Tokenizer.StringBuffer

namespace NdsDevkit.Tokenizer

open Framework Text

def sqliteOk : Int := 0
def sqliteError : Int := 1
def sqliteDone : Int := 101

/-- The functions that return `nds_bool` return 0 and 1. -/
def ndsFalse : Int := 0

inductive BigramTokenizerState where
  | unknown
  | latin
  | bigramStart
  | bigram
  deriving DecidableEq

/-- The cursor. Pointers into the input are offsets from `inputStart`, NULL is `none`. -/
structure NdsUnicode61Cursor where
  input : List UInt8
  state : BigramTokenizerState
  current : Option Nat
  currentCharacter : Unichar
  next : Option Nat
  index : Nat
  token : StringBuffer
  bigramFirstCharSize : Nat
  bigramOffset1 : Nat
  bigramOffset2 : Nat

/-- A token as it is reported. -/
structure Token where
  text : List UInt8
  startOffset : Nat
  endOffset : Nat
  position : Nat
  deriving DecidableEq

namespace NdsUnicode61Cursor

/-- An empty input is not stored at all. -/
def inputEnd (cursor : NdsUnicode61Cursor) : Option Nat :=
  if cursor.input.length > 0 then some cursor.input.length else none

/-- `pointer - cursor->inputStart`, for a pointer that is not NULL. -/
def offset (pointer : Option Nat) : Nat := pointer.getD 0

/-- `NdsUnicode61_open`. The cursor's memory is cleared. -/
def opened (input : List UInt8) : NdsUnicode61Cursor where
  input
  state := .unknown
  current := none
  currentCharacter := 0
  next := if input.length > 0 then some 0 else none
  index := 0
  token := .init fun _ => 0
  bigramFirstCharSize := 0
  bigramOffset1 := 0
  bigramOffset2 := 0

def resetCursor (cursor : NdsUnicode61Cursor) : NdsUnicode61Cursor :=
  { cursor with current := none, next := none, currentCharacter := 0, state := .unknown }

def isEnd (cursor : NdsUnicode61Cursor) : Bool := cursor.current = cursor.inputEnd

def getNextChar (cursor : NdsUnicode61Cursor) : Bool × NdsUnicode61Cursor :=
  if cursor.next = cursor.inputEnd then (false, { cursor with current := cursor.inputEnd })
  else
    let bytesLeft : Int := (cursor.input.length : Int) - offset cursor.next
    match decodeNextUtf8CharToUnichar ⟨cursor.next.map cursor.input.drop, bytesLeft⟩ with
    | (some currentCharacter, ⟨some rest, _⟩) =>
      (true, { cursor with
        current := cursor.next
        currentCharacter
        next := some (cursor.input.length - rest.length) })
    | _ => (false, cursor)

variable (fresh : Nat → Nat → UInt8) (table : UnicharDecompositionTable) (module : NdsUnicode61)

/-- The loop over the decomposed characters. -/
def pushDecomposed (removeDiacritics : Bool) :
    List Unichar → StringBuffer → Bool × StringBuffer
  | [], token => (true, token)
  | c :: decomposed, token =>
    if !removeDiacritics || !isDiacritic c then
      match token.pushBackUnichar fresh c with
      | (true, token) => pushDecomposed removeDiacritics decomposed token
      | (false, token) => (false, token)
    else pushDecomposed removeDiacritics decomposed token

def addTokenCodepoint (cursor : NdsUnicode61Cursor) (character : Unichar) :
    Bool × NdsUnicode61Cursor :=
  let character := sqlite3FtsUnicodeFold character module.removeDiacritics
  if character = 0 then (true, cursor)
  else
    let (success, token) := pushDecomposed fresh module.removeDiacritics
      (decomposition table character) cursor.token
    (success, { cursor with token })

/-- The loop over the marks behind a character: success, with at most `n` passes. -/
def accumulateMarks : Nat → NdsUnicode61Cursor → Bool × NdsUnicode61Cursor
  | 0, cursor => (false, cursor)
  | n + 1, cursor =>
    match cursor.getNextChar with
    | (false, cursor) => (false, cursor)
    | (true, cursor) =>
      if isDiacritic cursor.currentCharacter then
        accumulateMarks n (addTokenCodepoint fresh table module cursor cursor.currentCharacter).2
      else (true, cursor)

/-- Each pass reads a character, so the length of the input is enough. -/
def accumulateTokenCharacter (cursor : NdsUnicode61Cursor) : Bool × NdsUnicode61Cursor :=
  match addTokenCodepoint fresh table module cursor cursor.currentCharacter with
  | (false, cursor) => (false, cursor)
  | (true, cursor) =>
    let (success, cursor) := accumulateMarks fresh table module (cursor.input.length + 1) cursor
    (cursor.isEnd || success, cursor)

/-- The loop over the separators, with at most `n` passes. -/
def skipSeparators : Nat → NdsUnicode61Cursor → Bool × NdsUnicode61Cursor
  | 0, cursor => (false, cursor)
  | n + 1, cursor =>
    match cursor.getNextChar with
    | (false, cursor) => (false, cursor)
    | (true, cursor) =>
      if module.isTokenChar cursor.currentCharacter then (true, cursor) else skipSeparators n cursor

def seekTokenStart (cursor : NdsUnicode61Cursor) : Bool × NdsUnicode61Cursor :=
  let (success, cursor) := skipSeparators module (cursor.input.length + 1) cursor
  (cursor.isEnd || success, cursor)

/-- The variables of `nextLatin` behind its loop. -/
structure LatinScan where
  success : Bool
  currentIsCJK : Bool
  currentIsSeparator : Bool
  cursor : NdsUnicode61Cursor

/-- The loop over the characters of a Latin token, with at most `n` passes. -/
def scanLatin : Nat → NdsUnicode61Cursor → LatinScan
  | 0, cursor => ⟨true, false, false, cursor⟩
  | n + 1, cursor =>
    if cursor.isEnd then ⟨true, false, false, cursor⟩
    else
      let currentIsCJK := isBigrammable cursor.currentCharacter
      let currentIsSeparator := !module.isTokenChar cursor.currentCharacter
      if !currentIsCJK && !currentIsSeparator then
        match accumulateTokenCharacter fresh table module cursor with
        | (true, cursor) => scanLatin n cursor
        | (false, cursor) => ⟨false, currentIsCJK, currentIsSeparator, cursor⟩
      else ⟨true, currentIsCJK, currentIsSeparator, cursor⟩

/-- The result code and `*pnBytes`. -/
def nextLatin (cursor : NdsUnicode61Cursor) : Int × Nat × NdsUnicode61Cursor :=
  let tokenStart := cursor.current
  match accumulateTokenCharacter fresh table module { cursor with token := cursor.token.flush } with
  | (false, cursor) => (sqliteError, 0, cursor)
  | (true, cursor) =>
    let scan := scanLatin fresh table module (cursor.input.length + 1) cursor
    let cursor := scan.cursor
    if !scan.success then (sqliteError, 0, cursor.resetCursor)
    else if cursor.isEnd then
      (sqliteOk, offset cursor.next - offset tokenStart, { cursor with state := .unknown })
    else
      (sqliteOk, offset cursor.current - offset tokenStart,
        { cursor with state := if scan.currentIsSeparator then .unknown else .bigramStart })

/-- The first part of `nextBigram`: the first character of the bigram comes into the buffer. -/
def firstOfBigram (cursor : NdsUnicode61Cursor) : Bool × NdsUnicode61Cursor :=
  if cursor.state = .bigramStart then
    match accumulateTokenCharacter fresh table module
      { cursor with token := cursor.token.flush, bigramOffset1 := offset cursor.current } with
    | (false, cursor) => (false, cursor)
    | (true, cursor) => (true, { cursor with bigramFirstCharSize := cursor.token.getSize })
  else
    let token := cursor.token.popFront cursor.bigramFirstCharSize
    (true, { cursor with
      token, bigramFirstCharSize := token.getSize, bigramOffset1 := cursor.bigramOffset2 })

/-- The second part, and the results of `nextBigram`. -/
def secondOfBigram (cursor : NdsUnicode61Cursor) : Int × Bool × NdsUnicode61Cursor :=
  if !cursor.isEnd then
    let isSeparator := !module.isTokenChar cursor.currentCharacter
    if !isSeparator && isBigrammable cursor.currentCharacter then
      match accumulateTokenCharacter fresh table module
        { cursor with bigramOffset2 := offset cursor.current } with
      | (false, cursor) => (ndsFalse, false, cursor)
      | (true, cursor) => (sqliteOk, true, { cursor with state := .bigram })
    else
      (sqliteOk, cursor.state = .bigramStart,
        { cursor with state := if isSeparator then .unknown else .latin })
  else (sqliteOk, cursor.state = .bigramStart, { cursor with state := .unknown })

/-- The result, which is 0 on both success and failure, and `*haveToken`. -/
def nextBigram (cursor : NdsUnicode61Cursor) : Int × Bool × NdsUnicode61Cursor :=
  match firstOfBigram fresh table module cursor with
  | (false, cursor) => (ndsFalse, false, cursor)
  | (true, cursor) => secondOfBigram fresh table module cursor

/-- What a call of `NdsUnicode61_next` comes back with; the token goes with `SQLITE_OK`. -/
structure NextResult where
  code : Int
  token : Option Token
  cursor : NdsUnicode61Cursor

/-- `*piPosition = cursor->index++` and the return behind the loop. -/
def report (text : List UInt8) (startOffset endOffset : Nat) (cursor : NdsUnicode61Cursor) :
    NextResult :=
  ⟨sqliteOk, some ⟨text, startOffset, endOffset, cursor.index⟩,
    { cursor with index := cursor.index + 1 }⟩

def lastBigram (cursor : NdsUnicode61Cursor) : Bool :=
  cursor.isEnd || !module.isTokenChar cursor.currentCharacter ||
    !isBigrammable cursor.currentCharacter

/-- The part of a pass that reads a token. -/
def readToken (cursor : NdsUnicode61Cursor) : Pass NdsUnicode61Cursor NextResult :=
  if cursor.state = .latin then
    let startOffset := offset cursor.current
    let (result, nBytes, cursor) := nextLatin fresh table module cursor
    if result ≠ sqliteOk then .exit ⟨result, none, cursor⟩
    else .exit (report cursor.token.getBuffer startOffset (startOffset + nBytes) cursor)
  else
    let (r, haveToken, cursor) := nextBigram fresh table module cursor
    if r ≠ sqliteOk then .exit ⟨r, none, cursor⟩
    else if haveToken then
      let endOffset :=
        if lastBigram module cursor then offset cursor.current else cursor.bigramOffset2
      .exit (report cursor.token.getBuffer cursor.bigramOffset1 endOffset cursor)
    else .again cursor

/-- One pass of `while (!haveToken)`. -/
def nextBody (cursor : NdsUnicode61Cursor) : Pass NdsUnicode61Cursor NextResult :=
  if cursor.isEnd then .exit ⟨sqliteDone, none, cursor⟩
  else if cursor.state = .unknown then
    match seekTokenStart module cursor with
    | (false, cursor) => .exit ⟨sqliteError, none, cursor⟩
    | (true, cursor) =>
      if cursor.isEnd then .exit ⟨sqliteDone, none, cursor⟩
      else
        readToken fresh table module
          { cursor with
            state := if isBigrammable cursor.currentCharacter then .bigramStart else .latin }
  else readToken fresh table module cursor

end NdsUnicode61Cursor

end NdsDevkit.Tokenizer
