import NdsDevkit.Framework.Buffer
import NdsDevkit.Framework.Stream
import NdsDevkit.Text.WellFormed

namespace NdsDevkit.Text

open Framework

/-- The three pointers of a decoder call, with what they point to; `none` is `NULL`. -/
structure DecodeArguments where
  pStr : Option (Option (List UInt8))
  strLen : Option Int
  character : Option Unichar

/-- A call of the decoder: what it returns, and what the pointers point to afterwards. -/
def DecodeArguments.call (args : DecodeArguments) : Bool × DecodeArguments :=
  match args with
  | ⟨some str, some strLen, some character⟩ =>
    match decodeNextUtf8CharToUnichar ⟨str, strLen⟩ with
    | (some uc, i) => (true, ⟨some i.str, some i.strLen, some uc⟩)
    | (none, i) => (false, ⟨some i.str, some i.strLen, some character⟩)
  | args => (false, args)

/-- A call of the writer: what it returns, and where `*pStr` points to afterwards. -/
def writeCall (character : Unichar) (pStr : Option Nat) (pEnd : Nat) : Bool × Option Nat :=
  match pStr with
  | none => (false, none)
  | some p =>
    let (ok, bytes) := writeUnicharAsUtf8 character (pEnd - p)
    (ok, some (p + bytes.length))

/-- A failed call changes nothing; a successful one moves the pointer as far as it shortens the
length. -/
structure DecodeArguments.AllOrNothing (args : DecodeArguments) : Prop where
  failed : args.call.1 = false → args.call.2 = args
  succeeded : args.call.1 = true → ∃ bytes len n, args.pStr = some (some bytes) ∧
    args.strLen = some len ∧ n ≤ bytes.length ∧
    args.call.2.pStr = some (some (bytes.drop n)) ∧ args.call.2.strLen = some (len - n)

/-- No pointer is `NULL`, and the input breaks off. -/
def DecodeArguments.BreaksOff (args : DecodeArguments) : Prop :=
  ∃ str strLen, args.pStr = some str ∧ args.strLen = some strLen ∧ args.character.isSome ∧
    (Utf8Input.mk str strLen).BreaksOff

def WriterAllOrNothing (character : Unichar) (pStr : Option Nat) (pEnd : Nat) : Prop :=
  (writeCall character pStr pEnd).1 = false → (writeCall character pStr pEnd).2 = pStr

/-- Some bytes of the character fit, but not all. -/
def RunsOut (character : Unichar) (pStr : Option Nat) (pEnd : Nat) : Prop :=
  ∃ p, pStr = some p ∧ p < pEnd ∧ pEnd < p + utf8Width character

theorem writerAllOrNothing_iff (character : Unichar) (pStr : Option Nat) (pEnd : Nat) :
    WriterAllOrNothing character pStr pEnd ↔ ¬RunsOut character pStr pEnd := by
  cases pStr with
  | none => simp [WriterAllOrNothing, RunsOut, writeCall]
  | some p =>
    have hpos := utf8Width_pos character
    simp only [WriterAllOrNothing, RunsOut, writeCall, writeUnicharAsUtf8_take, List.length_take,
      length_encoded, decide_eq_false_iff_not, Option.some.injEq, exists_eq_left']
    omega

theorem DecodeArguments.allOrNothing_of_call {args : DecodeArguments}
    (h : args.call = (false, args)) : args.AllOrNothing := by
  constructor
  · intro _
    rw [h]
  · intro hok
    rw [h] at hok
    cases hok

theorem DecodeArguments.call_null {args : DecodeArguments}
    (h : args.pStr = none ∨ args.strLen = none ∨ args.character = none) :
    args.call = (false, args) := by
  obtain ⟨pStr, strLen, character⟩ := args
  rcases h with h | h | h <;> cases h
  · rfl
  · cases pStr <;> rfl
  · cases pStr <;> cases strLen <;> rfl

theorem decodeArguments_allOrNothing_iff (args : DecodeArguments) :
    args.AllOrNothing ↔ ¬args.BreaksOff := by
  by_cases hnull : args.pStr = none ∨ args.strLen = none ∨ args.character = none
  · refine iff_of_true (DecodeArguments.allOrNothing_of_call (DecodeArguments.call_null hnull)) ?_
    intro hex
    obtain ⟨str, len, hstr, hlen, hchar, _⟩ := hex
    rcases hnull with h | h | h
    · simp [h] at hstr
    · simp [h] at hlen
    · simp [h] at hchar
  · obtain ⟨pStr, strLen, character⟩ := args
    simp only [not_or, Option.ne_none_iff_exists'] at hnull
    obtain ⟨⟨str, rfl⟩, ⟨len, rfl⟩, ⟨character, rfl⟩⟩ := hnull
    have hbreaks : (DecodeArguments.mk (some str) (some len) (some character)).BreaksOff ↔
        (Utf8Input.mk str len).BreaksOff := by
      simp [DecodeArguments.BreaksOff]
    rw [hbreaks]
    rcases decodeNext_cases ⟨str, len⟩ with
      ⟨hb, n, hn, hd⟩ | ⟨hb, hd | ⟨bs, c, rest, _, hstr, _, hd⟩⟩
    · refine iff_of_false ?_ (not_not_intro hb)
      intro hall
      have hfailed := hall.failed
      simp only [DecodeArguments.call, hd, DecodeArguments.mk.injEq, Option.some.injEq] at hfailed
      have := (hfailed trivial).2.1
      omega
    · apply iff_of_true _ hb
      apply DecodeArguments.allOrNothing_of_call
      simp only [DecodeArguments.call, hd]
    · refine iff_of_true ⟨?_, ?_⟩ hb
      · intro h
        simp only [DecodeArguments.call, hd] at h
        cases h
      · intro _
        simp only [DecodeArguments.call, hd]
        cases hstr
        exact ⟨bs ++ rest, len, bs.length, rfl, rfl, by simp, by simp, rfl⟩

/-- Both functions leave their arguments alone when they fail, but for the two exits in the middle
of a character. -/
theorem allOrNothing_iff (args : DecodeArguments) (character : Unichar) (pStr : Option Nat)
    (pEnd : Nat) :
    (args.AllOrNothing ↔ ¬args.BreaksOff) ∧
    (WriterAllOrNothing character pStr pEnd ↔ ¬RunsOut character pStr pEnd) :=
  ⟨decodeArguments_allOrNothing_iff args, writerAllOrNothing_iff character pStr pEnd⟩

/-- The decoder has shortened the length when it finds 41 behind C3, and the writer has stored C3
when it finds no room for A9. -/
theorem not_allOrNothing :
    (DecodeArguments.mk (some (some [0xc3, 0x41])) (some 2) (some 0)).call =
      (false, ⟨some (some [0xc3, 0x41]), some 0, some 0⟩) ∧
    ¬(DecodeArguments.mk (some (some [0xc3, 0x41])) (some 2) (some 0)).AllOrNothing ∧
    writeCall 0xe9 (some 0) 1 = (false, some 1) ∧ ¬WriterAllOrNothing 0xe9 (some 0) 1 := by
  refine ⟨rfl, ?_, by decide, by simp [WriterAllOrNothing]; decide⟩
  intro h
  have hlen := congrArg DecodeArguments.strLen (h.failed rfl)
  revert hlen
  decide

end NdsDevkit.Text
