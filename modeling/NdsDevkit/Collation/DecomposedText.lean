import NdsDevkit.Collation.CompareCorrect
import NdsDevkit.Text.WellFormed

namespace NdsDevkit.Collation

open Framework Text

variable {table : UnicharDecompositionTable} {it : Utf8DecomposeIterator} {cs : List Unichar}

/-- Decoding comes to an end, since every character takes a byte of the length. -/
theorem decodeNext_delivers (i : Utf8Input) : ∃ cs, Delivers decodeNextUtf8CharToUnichar i cs := by
  induction hn : i.strLen.toNat using Nat.strongRecOn generalizing i with
  | ind n ih =>
    rcases hd : decodeNextUtf8CharToUnichar i with ⟨_ | c, i'⟩
    · exact ⟨[], .done (by rw [hd])⟩
    · obtain ⟨bytes, k, _, hpos, _, _, hlen, rfl⟩ := decodeNext_some hd
      obtain ⟨cs, hcs⟩ := ih _ (by simp only; omega) ⟨some (bytes.drop k), i.strLen - k⟩ rfl
      exact ⟨c :: cs, .more (by rw [hd]) (by rwa [hd])⟩

namespace Utf8DecomposeIterator

/-- The rest of the current decomposition and the decompositions of the characters behind it are
still to come. -/
structure Reads (table : UnicharDecompositionTable) (it : Utf8DecomposeIterator)
    (xs : List Unichar) : Prop where
  open_of_current : it.currentCharDecomposition ≠ [] → it.input.str.isSome
  decodes : ∃ cs, Delivers decodeNextUtf8CharToUnichar it.input cs ∧
    xs = it.currentCharDecomposition ++ cs.flatMap (decomposition table)

variable {xs : List Unichar}

theorem reads_closed : Reads table ⟨⟨none, 0⟩, []⟩ [] :=
  ⟨fun h => absurd rfl h, [], .done rfl, rfl⟩

/-- Reading on behind a used up decomposition. -/
theorem Reads.advance (h : it.Reads table xs) (hd : it.currentCharDecomposition = []) :
    (it.advanceToNextInputChar table).Reads table xs ∧
      (xs ≠ [] → (it.advanceToNextInputChar table).currentCharDecomposition ≠ []) := by
  obtain ⟨_, cs, hdelivers, rfl⟩ := h
  rw [hd, List.nil_append, advanceToNextInputChar]
  cases hdelivers with
  | done hnone =>
    split
    · exact ⟨reads_closed, fun hne => absurd rfl hne⟩
    · next hsome =>
      rw [hsome] at hnone
      cases hnone
  | @more _ c cs hsome hrest =>
    split
    · next hnone =>
      rw [hnone] at hsome
      cases hsome
    · next c' i' hnext =>
      rw [hnext] at hsome hrest
      cases hsome
      obtain ⟨bytes, k, _, _, _, _, _, rfl⟩ := decodeNext_some hnext
      exact ⟨⟨fun _ => rfl, cs, hrest, rfl⟩, fun _ => decomposition_ne_nil table c⟩

/-- Behind the refill at the start of a call a used up decomposition means the end. -/
theorem Reads.refill (h : it.Reads table xs) : ∃ it',
    (if it.input.str.isSome ∧ it.currentCharDecomposition = [] then
      it.advanceToNextInputChar table else it) = it' ∧ it'.Reads table xs ∧
    (xs ≠ [] → it'.currentCharDecomposition ≠ []) := by
  by_cases hd : it.currentCharDecomposition = []
  · by_cases hstr : it.input.str.isSome
    · obtain ⟨hreads, hne⟩ := h.advance hd
      exact ⟨_, if_pos ⟨hstr, hd⟩, hreads, hne⟩
    · refine ⟨it, if_neg (fun hc => hstr hc.1), h, fun hne => absurd ?_ hne⟩
      obtain ⟨⟨str, len⟩, dec⟩ := it
      obtain ⟨_, cs, hdelivers, rfl⟩ := h
      obtain rfl : str = none := by simpa using hstr
      obtain rfl := hdelivers.unique (.done rfl)
      simpa using hd
  · exact ⟨it, if_neg (fun hc => hd hc.2), h, fun _ => hd⟩

/-- A call takes the next character. -/
theorem Reads.getNextCharacter (h : it.Reads table xs) :
    (it.getNextCharacter table).1 = xs.head? ∧
      (it.getNextCharacter table).2.Reads table xs.tail := by
  obtain ⟨it', he, h', hne⟩ := h.refill
  rw [Utf8DecomposeIterator.getNextCharacter]
  rw [he]
  obtain ⟨⟨str, len⟩, dec⟩ := it'
  cases dec with
  | nil =>
    obtain rfl : xs = [] := by
      by_contra hxs
      exact hne hxs rfl
    cases str <;> exact ⟨rfl, h'⟩
  | cons c ds =>
    obtain ⟨hopen, cs, hdelivers, rfl⟩ := h'
    cases str with
    | none => cases hopen (List.cons_ne_nil c ds)
    | some bytes => exact ⟨rfl, fun _ => rfl, cs, hdelivers, rfl⟩

theorem reads_init {str : Option (List UInt8)} {len : Int}
    (h : Delivers decodeNextUtf8CharToUnichar ⟨str, len⟩ cs) :
    (init table str len).Reads table (cs.flatMap (decomposition table)) := by
  have hstart : Reads table ⟨⟨str, len⟩, []⟩ (cs.flatMap (decomposition table)) :=
    ⟨fun h => absurd rfl h, cs, h, rfl⟩
  exact (hstart.advance rfl).1

end Utf8DecomposeIterator

/-- The bytes up to the first failure decode to the same characters without the bytes behind it. -/
theorem decodeAll_split (bytes : List UInt8) : ∃ front bad cs, bytes = front ++ bad ∧
    Yields decodeNextUtf8CharToUnichar ⟨some bytes, bytes.length⟩ cs ⟨some bad, bad.length⟩ ∧
    (decodeNextUtf8CharToUnichar ⟨some bad, bad.length⟩).1 = none ∧
    (decodeAll front).1 = (decodeAll bytes).1 := by
  induction hn : bytes.length using Nat.strongRecOn generalizing bytes with
  | ind n ih =>
    cases hd : decodeFirst bytes with
    | none =>
      refine ⟨[], bytes, [], rfl, hn ▸ .nil _, decodeFirst_none hd, ?_⟩
      rw [decodeAll_none hd, decodeAll_nil]
    | some r =>
      obtain ⟨c, rest⟩ := r
      obtain ⟨bs, hform, rfl⟩ := decodeFirst_form hd
      have hpos := List.length_pos_iff.mpr hform.ne_nil
      have hle : (bs.length : Int) ≤ n := by
        rw [← hn, List.length_append]
        omega
      obtain ⟨front, bad, cs, rfl, hyields, hfails, hall⟩ :=
        ih rest.length (by rw [← hn, List.length_append]; omega) rest rfl
      refine ⟨bs ++ front, bad, c :: cs, by rw [List.append_assoc], ?_, hfails, ?_⟩
      · refine .cons (hform.decodeNext hle _) ?_
        rwa [← hn, show ((bs ++ (front ++ bad)).length : Int) - bs.length =
          (front ++ bad).length by simp]
      · rw [decodeAll_some (hform.decodeFirst front), decodeAll_some hd, hall]
        simp

/-- The comparison sees the decomposed characters of the two strings and nothing else. -/
theorem localizedCompare_congr {a a' b b' : List UInt8} (cd : CollationData)
    (ha : decomposedChars table a = decomposedChars table a')
    (hb : decomposedChars table b = decomposedChars table b') (r : Int) :
    LocalizedCompare table cd a b r ↔ LocalizedCompare table cd a' b' r := by
  obtain ⟨as, has⟩ := windowNext_delivers cd (iteratorFor_at table ⟨fun _ => 0, 0, 0, 0⟩ a).shows
  obtain ⟨bs, hbs⟩ := windowNext_delivers cd (iteratorFor_at table ⟨fun _ => 0, 0, 0, 0⟩ b).shows
  rw [localizedCompare_of_delivers (fun queue => (iteratorFor_at table queue a).delivers has)
    (fun queue => (iteratorFor_at table queue b).delivers hbs),
    localizedCompare_of_delivers
      (fun queue => (iteratorFor_at table queue a').delivers (by rwa [ha] at has))
      (fun queue => (iteratorFor_at table queue b').delivers (by rwa [hb] at hbs))]

/-- The iterator yields the decompositions of the characters that can be decoded, one after the
other, and then nothing. A comparison ends a string at the first bytes that cannot be decoded. -/
theorem utf8DecomposeIterator_correct (table : UnicharDecompositionTable) :
    (∀ str len, ∃ cs, Delivers decodeNextUtf8CharToUnichar ⟨str, len⟩ cs ∧
      ∀ n, nthCall (Utf8DecomposeIterator.getNextCharacter table) n
        (Utf8DecomposeIterator.init table str len) = (cs.flatMap (decomposition table))[n]?) ∧
    ∀ a : List UInt8, ∃ front bad cs, a = front ++ bad ∧
      Yields decodeNextUtf8CharToUnichar ⟨some a, a.length⟩ cs ⟨some bad, bad.length⟩ ∧
      (decodeNextUtf8CharToUnichar ⟨some bad, bad.length⟩).1 = none ∧
      ∀ cd b r, (LocalizedCompare table cd a b r ↔ LocalizedCompare table cd front b r) ∧
        (LocalizedCompare table cd b a r ↔ LocalizedCompare table cd b front r) := by
  constructor
  · intro str len
    obtain ⟨cs, hcs⟩ := decodeNext_delivers ⟨str, len⟩
    refine ⟨cs, hcs, nthCall_eq ?_ (Utf8DecomposeIterator.reads_init hcs)⟩
    exact fun _ _ h => h.getNextCharacter
  · intro a
    obtain ⟨front, bad, cs, hsplit, hyields, hfails, hall⟩ := decodeAll_split a
    have hchars : decomposedChars table a = decomposedChars table front := by
      rw [decomposedChars, decomposedChars, hall]
    exact ⟨front, bad, cs, hsplit, hyields, hfails, fun cd b r =>
      ⟨localizedCompare_congr cd hchars rfl r, localizedCompare_congr cd rfl hchars r⟩⟩

end NdsDevkit.Collation
