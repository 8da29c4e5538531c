import NdsDevkit.Collation.GermanData
import NdsDevkit.Text.WellFormed

namespace NdsDevkit.Collation

open Framework Text

/-- The umlauts, each with its vowel. -/
def umlauts : List (Unichar × Unichar) :=
  [(0xc4, 0x41), (0xd6, 0x4f), (0xdc, 0x55), (0xe4, 0x61), (0xf6, 0x6f), (0xfc, 0x75)]

/-- Some umlauts, in either form, are replaced by a spelling of their vowel, and some sharp s by
two s. -/
inductive Expands (spellings : Unichar → List (List Unichar)) : List Unichar → List Unichar → Prop
  where
  | nil : Expands spellings [] []
  | keep (c : Unichar) {cs cs' : List Unichar} (h : Expands spellings cs cs') :
      Expands spellings (c :: cs) (c :: cs')
  | precomposed {u : Unichar × Unichar} {r cs cs' : List Unichar} (hu : u ∈ umlauts)
      (hr : r ∈ spellings u.2) (h : Expands spellings cs cs') :
      Expands spellings (u.1 :: cs) (r ++ cs')
  | diaeresis {u : Unichar × Unichar} {r cs cs' : List Unichar} (hu : u ∈ umlauts)
      (hr : r ∈ spellings u.2) (h : Expands spellings cs cs') :
      Expands spellings (u.2 :: 0x308 :: cs) (r ++ cs')
  | sharpS {c : Unichar} {cs cs' : List Unichar} (hc : c = 0xdf ∨ c = 0x1e9e)
      (h : Expands spellings cs cs') : Expands spellings (c :: cs) (0x73 :: 0x73 :: cs')

section

variable (spelling : Unichar → List Unichar)

def expandChar (c : Unichar) : List Unichar :=
  match umlauts.find? fun u => u.1 == c with
  | some u => spelling u.2
  | none => if c = 0xdf ∨ c = 0x1e9e then [0x73, 0x73] else [c]

/-- Replaces every umlaut and every sharp s. -/
def expand : List Unichar → List Unichar
  | [] => []
  | [c] => expandChar spelling c
  | c :: d :: cs =>
    if c ∈ umlauts.map Prod.snd ∧ d = 0x308 then spelling c ++ expand cs
    else expandChar spelling c ++ expand (d :: cs)

variable {spelling} {spellings : Unichar → List (List Unichar)}
  (hspelling : ∀ v, spelling v ∈ spellings v)

include hspelling

theorem Expands.expandChar {cs cs' : List Unichar} (h : Expands spellings cs cs') (c : Unichar) :
    Expands spellings (c :: cs) (expandChar spelling c ++ cs') := by
  rw [Collation.expandChar]
  cases hu : umlauts.find? fun u => u.1 == c with
  | some u =>
    have hc : u.1 = c := by simpa using List.find?_some hu
    exact hc ▸ .precomposed (List.mem_of_find?_eq_some hu) (hspelling u.2) h
  | none =>
    simp only
    split
    · next hc => exact .sharpS hc h
    · exact .keep c h

theorem Expands.expand (cs : List Unichar) : Expands spellings cs (expand spelling cs) := by
  fun_induction Collation.expand spelling cs with
  | case1 => exact .nil
  | case2 c => simpa using Expands.expandChar hspelling .nil c
  | case3 c d cs h ih =>
    obtain ⟨hc, rfl⟩ := h
    obtain ⟨u, hu, rfl⟩ := List.mem_map.mp hc
    exact .diaeresis hu (hspelling u.2) ih
  | case4 c d cs h ih => exact Expands.expandChar hspelling ih c

end

/-- Spellings of the vowels that have the elements of the umlauts. -/
structure Spells (cd : CollationData) (spellings : Unichar → List (List Unichar)) : Prop where
  bases : ∀ u ∈ umlauts, ∀ r ∈ spellings u.2, ∀ b ∈ r, b < 0x80
  elements : ∀ u ∈ umlauts, ∀ r ∈ spellings u.2, (cd.clusterElements u.2 [0x308]).val =
    r.flatMap fun b => (cd.clusterElements b []).val
  sharpS : ∀ c, c = 0xdf ∨ c = 0x1e9e → ∀ marks, (cd.clusterElements c marks).val =
    (cd.clusterElements 0x73 []).val ++ (cd.clusterElements 0x73 marks).val

/-- The umlauts go with `e` or `E`. -/
def phonebookSpellings (v : Unichar) : List (List Unichar) := [[v, 0x65], [v, 0x45]]

def phonebookSpelling (v : Unichar) : List Unichar := if v < 0x61 then [v, 0x45] else [v, 0x65]

def standardSpellings (v : Unichar) : List (List Unichar) := [[v]]

def standardSpelling (v : Unichar) : List Unichar := [v]

theorem spells_phonebook : Spells collationDataDeDEPhonebook phonebookSpellings := by
  refine ⟨by decide, by decide, ?_⟩
  rintro c (rfl | rfl) marks <;> cases marks <;> rfl

theorem spells_standard : Spells collationDataDeDEStandard standardSpellings := by
  refine ⟨by decide, by decide, ?_⟩
  rintro c (rfl | rfl) marks <;> cases marks <;> rfl

theorem umlauts_spec : ∀ u ∈ umlauts,
    decomposition unicharDecompositionData u.1 = [u.2, 0x308] ∧ u.2 < 0x80 := by
  decide +kernel

theorem decomposition_ascii :
    ∀ b < 0x80, decomposition unicharDecompositionData b = [b] := by
  decide +kernel

theorem not_mark_ascii : ∀ b < 0x80, ¬unicharIsCombiningMark b := by
  decide +kernel

theorem flatMap_decomposition_ascii {r : List Unichar} (hr : ∀ b ∈ r, b < 0x80) :
    r.flatMap (decomposition unicharDecompositionData) = r := by
  induction r with
  | nil => rfl
  | cons b r ih =>
    obtain ⟨hb, hr⟩ := List.forall_mem_cons.mp hr
    rw [List.flatMap_cons, decomposition_ascii b hb, ih hr]
    rfl

theorem decomposition_sharpS {c : Unichar} (hc : c = 0xdf ∨ c = 0x1e9e) :
    decomposition unicharDecompositionData c = [c] ∧ ¬unicharIsCombiningMark c := by
  rcases hc with rfl | rfl <;> decide +kernel

variable {cd : CollationData} {spellings : Unichar → List (List Unichar)}
  {cs cs' : List Unichar}

/-- A decomposed umlaut and a spelling of its vowel, in front of texts that are alike. -/
theorem Spells.umlaut (hcd : cd.Accented) (hs : Spells cd spellings) {u : Unichar × Unichar}
    {r l l' : List Unichar} (hu : u ∈ umlauts) (hr : r ∈ spellings u.2) (h : Alike cd l l')
    (hmarks : AtMostOneMark ([u.2, 0x308] ++ l)) :
    Alike cd ([u.2, 0x308] ++ l) (r.flatMap (decomposition unicharDecompositionData) ++ l') := by
  have hascii := hs.bases u hu r hr
  rw [flatMap_decomposition_ascii hascii]
  apply h.spell hcd hmarks
  · exact not_mark_ascii _ (umlauts_spec u hu).2
  · decide
  · exact fun b hb => not_mark_ascii b (hascii b hb)
  · exact hs.elements u hu r hr

/-- The decomposed texts are alike. -/
theorem Expands.alike (hcd : cd.Accented) (hs : Spells cd spellings)
    (h : Expands spellings cs cs')
    (hmarks : AtMostOneMark (cs.flatMap (decomposition unicharDecompositionData))) :
    Alike cd (cs.flatMap (decomposition unicharDecompositionData))
      (cs'.flatMap (decomposition unicharDecompositionData)) := by
  induction h with
  | nil => exact .nil cd
  | keep c h ih =>
    rw [List.flatMap_cons] at hmarks ⊢
    exact (ih (hmarks.suffix (List.suffix_append _ _))).append hcd hmarks
  | @precomposed u r _ _ hu hr h ih =>
    rw [List.flatMap_cons, (umlauts_spec u hu).1] at hmarks ⊢
    rw [List.flatMap_append]
    exact hs.umlaut hcd hu hr (ih (hmarks.suffix (List.suffix_append _ _))) hmarks
  | @diaeresis u r cs _ hu hr h ih =>
    have hdec : (u.2 :: 0x308 :: cs).flatMap (decomposition unicharDecompositionData) =
        [u.2, 0x308] ++ cs.flatMap (decomposition unicharDecompositionData) := by
      rw [List.flatMap_cons, List.flatMap_cons, decomposition_ascii _ (umlauts_spec u hu).2]
      rfl
    rw [hdec] at hmarks ⊢
    rw [List.flatMap_append]
    exact hs.umlaut hcd hu hr (ih (hmarks.suffix (List.suffix_append _ _))) hmarks
  | @sharpS c _ cs' hc h ih =>
    obtain ⟨hdec, hbase⟩ := decomposition_sharpS hc
    have hss : (0x73 :: 0x73 :: cs').flatMap (decomposition unicharDecompositionData) =
        0x73 :: 0x73 :: cs'.flatMap (decomposition unicharDecompositionData) := rfl
    rw [List.flatMap_cons, hdec] at hmarks ⊢
    rw [hss]
    exact (ih (hmarks.suffix (List.suffix_append _ _))).double hcd hmarks hbase (by decide)
      (hs.sharpS c hc)

theorem Expands.lt (hs : Spells cd spellings) (h : Expands spellings cs cs')
    (hcs : ∀ c ∈ cs, (c : Nat) < 2 ^ 21) : ∀ c ∈ cs', (c : Nat) < 2 ^ 21 := by
  have hspelled : ∀ u ∈ umlauts, ∀ r ∈ spellings u.2, ∀ b ∈ r, (b : Nat) < 2 ^ 21 :=
    fun u hu r hr b hb => Nat.lt_trans (hs.bases u hu r hr b hb) (by decide)
  induction h with
  | nil => exact hcs
  | keep c h ih =>
    obtain ⟨hc, hcs⟩ := List.forall_mem_cons.mp hcs
    exact List.forall_mem_cons.mpr ⟨hc, ih hcs⟩
  | @precomposed u r _ _ hu hr h ih =>
    exact List.forall_mem_append.mpr
      ⟨hspelled u hu r hr, ih (List.forall_mem_cons.mp hcs).2⟩
  | @diaeresis u r _ _ hu hr h ih =>
    exact List.forall_mem_append.mpr ⟨hspelled u hu r hr,
      ih (List.forall_mem_cons.mp (List.forall_mem_cons.mp hcs).2).2⟩
  | sharpS hc h ih =>
    exact List.forall_mem_cons.mpr ⟨by decide, List.forall_mem_cons.mpr
      ⟨by decide, ih (List.forall_mem_cons.mp hcs).2⟩⟩

theorem decomposedChars_utf8Text (hcs : ∀ c ∈ cs, (c : Nat) < 2 ^ 21) :
    decomposedChars unicharDecompositionData (utf8Text cs) =
      cs.flatMap (decomposition unicharDecompositionData) := by
  rw [decomposedChars, ← List.flatMap_map, decodeAll_utf8Text hcs]

/-- Replacing umlauts and sharp s anywhere does not change the order of a text. -/
theorem Expands.localizedCompare (hcd : cd.Accented) (hwf : cd.WellFormed)
    (hs : Spells cd spellings) (h : Expands spellings cs cs') (hcs : ∀ c ∈ cs, IsScalar c)
    (hmarks : AtMostOneMark (decomposedChars unicharDecompositionData (utf8Text cs))) :
    LocalizedCompare unicharDecompositionData cd (utf8Text cs) (utf8Text cs') 0 := by
  have hlt : ∀ c ∈ cs, (c : Nat) < 2 ^ 21 := fun c hc => (hcs c hc).lt
  have hlt' := h.lt hs hlt
  rw [decomposedChars_utf8Text hlt] at hmarks
  have halike := h.alike hcd hs hmarks
  apply hcd.localizedCompare_zero hwf
  · rwa [decomposedChars_utf8Text hlt]
  · rw [decomposedChars_utf8Text hlt']
    exact halike.single
  · rw [decomposedChars_utf8Text hlt, decomposedChars_utf8Text hlt']
    exact halike.elements

/-- In the phonebook order an umlaut is its vowel with an e, in the standard order its vowel, and
a sharp s is two s. -/
theorem localizedCompare_expand (hcs : ∀ c ∈ cs, IsScalar c)
    (hmarks : AtMostOneMark (decomposedChars unicharDecompositionData (utf8Text cs))) :
    (LocalizedCompare unicharDecompositionData collationDataDeDEPhonebook (utf8Text cs)
        (utf8Text (expand phonebookSpelling cs)) 0 ∧
      ∀ cs', Expands phonebookSpellings cs cs' →
        LocalizedCompare unicharDecompositionData collationDataDeDEPhonebook (utf8Text cs)
          (utf8Text cs') 0) ∧
    LocalizedCompare unicharDecompositionData collationDataDeDEStandard (utf8Text cs)
        (utf8Text (expand standardSpelling cs)) 0 ∧
      ∀ cs', Expands standardSpellings cs cs' →
        LocalizedCompare unicharDecompositionData collationDataDeDEStandard (utf8Text cs)
          (utf8Text cs') 0 := by
  have hphonebook : ∀ cs', Expands phonebookSpellings cs cs' →
      LocalizedCompare unicharDecompositionData collationDataDeDEPhonebook (utf8Text cs)
        (utf8Text cs') 0 := fun cs' h =>
    h.localizedCompare (collationDataDeDE_accented _ _ _) (collationDataDeDE_wellFormed _ _ _)
      spells_phonebook hcs hmarks
  have hstandard : ∀ cs', Expands standardSpellings cs cs' →
      LocalizedCompare unicharDecompositionData collationDataDeDEStandard (utf8Text cs)
        (utf8Text cs') 0 := fun cs' h =>
    h.localizedCompare (collationDataDeDE_accented _ _ _) (collationDataDeDE_wellFormed _ _ _)
      spells_standard hcs hmarks
  have hmem : ∀ v, phonebookSpelling v ∈ phonebookSpellings v := by
    intro v
    rw [phonebookSpelling, phonebookSpellings]
    split <;> simp
  have hmem' : ∀ v, standardSpelling v ∈ standardSpellings v := fun v => List.mem_singleton_self _
  exact ⟨⟨hphonebook _ (.expand hmem cs), hphonebook⟩,
    hstandard _ (.expand hmem' cs), hstandard⟩

theorem localizedCompare_expand_groesse :
    (LocalizedCompare unicharDecompositionData collationDataDeDEPhonebook
        (utf8Text [0x47, 0x72, 0xf6, 0xdf, 0x65, 0x55, 0x308])
        (utf8Text [0x47, 0x72, 0x6f, 0x65, 0x73, 0x73, 0x65, 0x55, 0x45]) 0 ∧
      ∀ cs', Expands phonebookSpellings [0x47, 0x72, 0xf6, 0xdf, 0x65, 0x55, 0x308] cs' →
        LocalizedCompare unicharDecompositionData collationDataDeDEPhonebook
          (utf8Text [0x47, 0x72, 0xf6, 0xdf, 0x65, 0x55, 0x308]) (utf8Text cs') 0) ∧
    LocalizedCompare unicharDecompositionData collationDataDeDEStandard
        (utf8Text [0x47, 0x72, 0xf6, 0xdf, 0x65, 0x55, 0x308])
        (utf8Text [0x47, 0x72, 0x6f, 0x73, 0x73, 0x65, 0x55]) 0 ∧
      ∀ cs', Expands standardSpellings [0x47, 0x72, 0xf6, 0xdf, 0x65, 0x55, 0x308] cs' →
        LocalizedCompare unicharDecompositionData collationDataDeDEStandard
          (utf8Text [0x47, 0x72, 0xf6, 0xdf, 0x65, 0x55, 0x308]) (utf8Text cs') 0 := by
  apply localizedCompare_expand
  · simp [IsScalar]
  · rw [show decomposedChars unicharDecompositionData
        (utf8Text [0x47, 0x72, 0xf6, 0xdf, 0x65, 0x55, 0x308]) =
      [0x47, 0x72, 0x6f, 0x308, 0xdf, 0x65, 0x55, 0x308] by decide +kernel]
    simp [atMostOneMark_cons, atMostOneMark_nil, unicharIsCombiningMark]

end NdsDevkit.Collation
