import NdsDevkit.Text.DecompositionData
import NdsDevkit.Tokenizer.Groups

namespace NdsDevkit.Tokenizer

open Framework Text NdsUnicode61Cursor

/-- A text some of whose characters can be written as their decompositions: the characters, and
whether this is done. -/
abbrev Spelling := List (Unichar × Bool)

namespace Spelling

def composed (spelling : Spelling) : List Unichar := spelling.map Prod.fst

variable (table : UnicharDecompositionTable)

def respell (c : Unichar × Bool) : List Unichar := if c.2 then decomposition table c.1 else [c.1]

def decomposed (spelling : Spelling) : List Unichar := spelling.flatMap (respell table)

end Spelling

open Spelling

/-- A token character that the table decomposes into one base character, a token character of the
same class, and marks. -/
def Precomposed (table : UnicharDecompositionTable) (module : NdsUnicode61) (c : Unichar) : Prop :=
  module.isTokenChar c = true ∧ ∃ base marks, unicharDecompose table c = some (base :: marks) ∧
    isDiacritic base = false ∧ (∀ m ∈ marks, isDiacritic m = true) ∧
    module.isTokenChar base = true ∧ isBigrammable base = isBigrammable c

/-- Two decodable inputs, the second of which has decompositions in place of some characters of the
first. -/
structure Respelling (table : UnicharDecompositionTable) (module : NdsUnicode61)
    (spelling : Spelling) (input input' : List UInt8) : Prop where
  decodable : decodable input = true
  decodable' : Tokenizer.decodable input' = true
  chars : (decoded input).map Prod.fst = composed spelling
  chars' : (decoded input').map Prod.fst = decomposed table spelling
  precomposed : ∀ c ∈ spelling, c.2 = true → Precomposed table module c.1

variable {table : UnicharDecompositionTable} {module : NdsUnicode61} {spelling : Spelling}

/-- The second spelling of a character is a base character like it and marks. -/
theorem respell_cases {c : Unichar × Bool}
    (hc : c.2 = true → Precomposed table module c.1 ∧ isDiacritic c.1 = false) :
    ∃ base marks, respell table c = base :: marks ∧ (∀ m ∈ marks, isDiacritic m = true) ∧
      isDiacritic base = isDiacritic c.1 ∧ module.isTokenChar base = module.isTokenChar c.1 ∧
      isBigrammable base = isBigrammable c.1 ∧
      (module.isTokenChar c.1 = false → c.2 = false ∧ marks = []) := by
  obtain ⟨c, flag⟩ := c
  cases flag with
  | false => exact ⟨c, [], rfl, by simp, rfl, rfl, rfl, fun _ => ⟨rfl, rfl⟩⟩
  | true =>
    obtain ⟨⟨htoken, base, marks, hdec, hbase, hmarks, hbaseToken, hclass⟩, hmark⟩ := hc rfl
    refine ⟨base, marks, by simp [respell, decomposition, hdec], hmarks, by rw [hbase, hmark],
      by rw [htoken, hbaseToken], hclass, ?_⟩
    intro hnot
    rw [htoken] at hnot
    cases hnot

/-- The marks at the front are the same in both spellings. -/
theorem decomposed_marks (hpre : ∀ c ∈ spelling, c.2 = true →
      Precomposed table module c.1 ∧ isDiacritic c.1 = false) :
    (decomposed table spelling).takeWhile isDiacritic =
        decomposed table (spelling.takeWhile fun c => isDiacritic c.1) ∧
      (decomposed table spelling).dropWhile isDiacritic =
        decomposed table (spelling.dropWhile fun c => isDiacritic c.1) := by
  induction spelling with
  | nil => exact ⟨rfl, rfl⟩
  | cons c spelling ih =>
    obtain ⟨hc, hrest⟩ := List.forall_mem_cons.mp hpre
    obtain ⟨htake, hdrop⟩ := ih hrest
    cases hmark : isDiacritic c.1 with
    | false =>
      obtain ⟨base, marks, hspell, _, hbase, _⟩ := respell_cases hc
      rw [hmark] at hbase
      simp [decomposed, hspell, hbase, hmark]
    | true =>
      have hflag : c.2 = false := by
        cases hc2 : c.2 with
        | false => rfl
        | true =>
          rw [(hc hc2).2] at hmark
          cases hmark
      have hspell : respell table c = [c.1] := by simp [respell, hflag]
      unfold decomposed at htake hdrop ⊢
      simp [hspell, hmark, htake, hdrop]

theorem marksOf_chars (l : Chars) :
    (marksOf l).map Prod.fst = (l.map Prod.fst).takeWhile isDiacritic := List.takeWhile_map.symm

theorem behindMarks_chars (l : Chars) :
    (behindMarks l).map Prod.fst = (l.map Prod.fst).dropWhile isDiacritic := List.dropWhile_map.symm

theorem marks_composed {l : Chars} (hl : l.map Prod.fst = composed spelling) :
    (marksOf l).map Prod.fst = composed (spelling.takeWhile fun c => isDiacritic c.1) ∧
      (behindMarks l).map Prod.fst = composed (spelling.dropWhile fun c => isDiacritic c.1) := by
  constructor
  · rw [marksOf_chars, hl]
    exact List.takeWhile_map
  · rw [behindMarks_chars, hl]
    exact List.dropWhile_map

/-- The marks of a decomposition come in front of those that follow. -/
theorem marks_decomposed (hpre : ∀ c ∈ spelling, c.2 = true →
      Precomposed table module c.1 ∧ isDiacritic c.1 = false) {marks : List Unichar}
    (hmarks : ∀ m ∈ marks, isDiacritic m = true) {l : Chars}
    (hl : l.map Prod.fst = marks ++ decomposed table spelling) :
    (marksOf l).map Prod.fst =
        marks ++ decomposed table (spelling.takeWhile fun c => isDiacritic c.1) ∧
      (behindMarks l).map Prod.fst =
        decomposed table (spelling.dropWhile fun c => isDiacritic c.1) := by
  obtain ⟨htake, hdrop⟩ := decomposed_marks hpre
  constructor
  · rw [marksOf_chars, hl, List.takeWhile_append_of_pos hmarks, htake]
  · rw [behindMarks_chars, hl, List.dropWhile_append_of_pos hmarks, hdrop]

/-- A piece of a text and the piece that it becomes in the other spelling. -/
structure SpelledPiece (table : UnicharDecompositionTable) (module : NdsUnicode61) where
  spelling : Spelling
  piece : Piece
  respelled : Piece
  chars : piece.chars = composed spelling
  chars' : respelled.chars = decomposed table spelling
  kind_eq : respelled.kind module = piece.kind module
  separator : piece.kind module = .separator → ∀ c ∈ spelling, c.2 = false

/-- Both spellings have the same pieces. -/
theorem pieces_spelled (hpre : ∀ c ∈ spelling, c.2 = true →
      Precomposed table module c.1 ∧ isDiacritic c.1 = false) (off off' : Nat) {l l' : Chars}
    (hl : l.map Prod.fst = composed spelling)
    (hl' : l'.map Prod.fst = decomposed table spelling) :
    ∃ zs : List (SpelledPiece table module), zs.map SpelledPiece.piece = pieces module off l ∧
      zs.map SpelledPiece.respelled = pieces module off' l' ∧
      zs.flatMap SpelledPiece.spelling = spelling := by
  induction hn : spelling.length using Nat.strongRecOn generalizing spelling off off' l l' with
  | ind n ih =>
    cases spelling with
    | nil =>
      obtain rfl : l = [] := by simpa [composed] using hl
      obtain rfl : l' = [] := by simpa [decomposed] using hl'
      exact ⟨[], by simp, by simp, rfl⟩
    | cons c spelling =>
      obtain ⟨hc, hrest⟩ := List.forall_mem_cons.mp hpre
      obtain ⟨base, marks, hspell, hmarks, _, htoken, hclass, hplain⟩ := respell_cases hc
      have hcomposed : composed (c :: spelling) = c.1 :: composed spelling := rfl
      have hdecomposed : decomposed table (c :: spelling) =
          base :: (marks ++ decomposed table spelling) := by
        simp [decomposed, hspell]
      rw [hcomposed] at hl
      rw [hdecomposed] at hl'
      obtain ⟨d, l, rfl, hd, hl⟩ := List.map_eq_cons_iff.mp hl
      obtain ⟨d', l', rfl, hd', hl'⟩ := List.map_eq_cons_iff.mp hl'
      have hn' : spelling.length < n := by simp [← hn]
      cases hkind : module.isTokenChar c.1 with
      | false =>
        obtain ⟨hflag, rfl⟩ := hplain hkind
        have hkind' : module.isTokenChar base = false := by rw [htoken, hkind]
        obtain ⟨zs, hzs, hzs', hspelling⟩ := ih spelling.length hn' hrest (off + d.2)
          (off' + d'.2) hl (by simpa using hl') rfl
        refine ⟨⟨[c], ⟨off, d, []⟩, ⟨off', d', []⟩, ?_, ?_, ?_, ?_⟩ :: zs, ?_, ?_, ?_⟩
        · simp [Piece.chars, composed, hd]
        · simp [Piece.chars, decomposed, hspell, hd']
        · simp [Piece.kind, hd, hd', hkind, hkind']
        · simpa using fun _ => hflag
        · rw [pieces_separator (by rw [hd, hkind]), List.map_cons, hzs]
        · rw [pieces_separator (by rw [hd', hkind']), List.map_cons, hzs']
        · rw [List.flatMap_cons, hspelling]
          rfl
      | true =>
        have hkind' : module.isTokenChar base = true := by rw [htoken, hkind]
        obtain ⟨hmarksOf, hbehind⟩ := marks_composed hl
        obtain ⟨hmarksOf', hbehind'⟩ := marks_decomposed hrest hmarks hl'
        have hlen := (List.dropWhile_sublist (l := spelling) fun c => isDiacritic c.1).length_le
        obtain ⟨zs, hzs, hzs', hspelling⟩ := ih _ (Nat.lt_of_le_of_lt hlen hn')
          (fun m hm => hrest m ((List.dropWhile_sublist _).subset hm))
          (off + d.2 + width (marksOf l)) (off' + d'.2 + width (marksOf l')) hbehind hbehind' rfl
        refine ⟨⟨c :: spelling.takeWhile fun c => isDiacritic c.1, ⟨off, d, marksOf l⟩,
          ⟨off', d', marksOf l'⟩, ?_, ?_, ?_, ?_⟩ :: zs, ?_, ?_, ?_⟩
        · rw [Piece.chars, hmarksOf, hd]
          rfl
        · rw [Piece.chars, hmarksOf', hd']
          simp [decomposed, hspell]
        · simp [Piece.kind, hd, hd', hkind, hkind', hclass]
        · intro hsep
          rw [kind_separator, hd, hkind] at hsep
          cases hsep
        · rw [pieces_cluster (by rw [hd, hkind]), List.map_cons, hzs]
        · rw [pieces_cluster (by rw [hd', hkind']), List.map_cons, hzs']
        · rw [List.flatMap_cons, hspelling, List.cons_append, List.takeWhile_append_dropWhile]

/-- The bytes of both spellings of a text, character by character. -/
theorem textBytes_flatMap {α : Type*} (f : α → List Unichar) (l : List α) :
    textBytes table module (l.flatMap f) = l.flatMap fun x => textBytes table module (f x) := by
  simp [textBytes, List.flatMap_assoc]

theorem clusterText_pieces (g : List (SpelledPiece table module)) :
    clusterText table module (g.map SpelledPiece.piece) =
        ((g.flatMap SpelledPiece.spelling).flatMap fun c => textBytes table module [c.1]) ∧
      clusterText table module (g.map SpelledPiece.respelled) =
        ((g.flatMap SpelledPiece.spelling).flatMap fun c =>
          textBytes table module (respell table c)) := by
  constructor
  · rw [clusterText, List.flatMap_map, ← textBytes_flatMap, List.flatMap_assoc]
    congr 1
    refine List.flatMap_congr ?_
    intro z _
    rw [z.chars, composed, List.map_eq_flatMap]
  · rw [clusterText, List.flatMap_map, ← textBytes_flatMap, List.flatMap_assoc]
    congr 1
    exact List.flatMap_congr fun z _ => z.chars'

/-- If the spellings of a character have the same size, the tokens of both texts have the same
texts exactly if no spelling matters. -/
theorem groups_spelled {zs : List (SpelledPiece table module)}
    (hsize : ∀ c ∈ zs.flatMap SpelledPiece.spelling,
      textSize table module [c.1] = textSize table module (respell table c)) :
    (groups (Piece.kind module) (zs.map SpelledPiece.piece)).map (clusterText table module) =
        (groups (Piece.kind module) (zs.map SpelledPiece.respelled)).map
          (clusterText table module) ↔
      ∀ c ∈ zs.flatMap SpelledPiece.spelling,
        textBytes table module [c.1] = textBytes table module (respell table c) := by
  have hkind : (fun z : SpelledPiece table module => z.respelled.kind module) =
      fun z => z.piece.kind module := funext SpelledPiece.kind_eq
  rw [groups_map, groups_map, hkind, List.map_map, List.map_map, List.map_inj_left]
  have hgroup : ∀ g ∈ groups (fun z : SpelledPiece table module => z.piece.kind module) zs,
      (clusterText table module (g.map SpelledPiece.piece) =
          clusterText table module (g.map SpelledPiece.respelled) ↔
        ∀ z ∈ g, ∀ c ∈ z.spelling,
          textBytes table module [c.1] = textBytes table module (respell table c)) := by
    intro g hg
    have hsub : ∀ z ∈ g, z ∈ zs := forall_groups.mpr (fun z hz _ => hz) g hg
    obtain ⟨hpiece, hrespelled⟩ := clusterText_pieces g
    rw [hpiece, hrespelled, flatMap_eq_flatMap_iff]
    · simp only [List.mem_flatMap, forall_exists_index, and_imp]
      tauto
    · intro c hc
      obtain ⟨z, hz, hcz⟩ := List.mem_flatMap.mp hc
      rw [length_textBytes, length_textBytes]
      exact hsize c (List.mem_flatMap.mpr ⟨z, hsub z hz, hcz⟩)
  simp only [Function.comp_apply]
  rw [forall₂_congr hgroup, forall_groups]
  simp only [List.mem_flatMap, forall_exists_index, and_imp]
  constructor
  · intro h c z hz hc
    by_cases hsep : z.piece.kind module = .separator
    · rw [respell, z.separator hsep c hc]
      rfl
    · exact h z hz hsep c hc
  · intro h z hz _ c hc
    exact h c z hz hc

/-- The tokens of both inputs have the same texts. -/
def IndexAlike (fresh fresh' : Nat → Nat → UInt8) (table : UnicharDecompositionTable)
    (module : NdsUnicode61) (input input' : List UInt8) : Prop :=
  ∃ ts ts', Runs fresh table module (openedExact input) ts .done ∧
    Runs fresh' table module (openedExact input') ts' .done ∧
    ts.map Token.text = ts'.map Token.text

theorem indexAlike_iff_groups (fresh fresh' : Nat → Nat → UInt8) {input input' : List UInt8}
    (hclean : decodable input = true) (hclean' : decodable input' = true) :
    IndexAlike fresh fresh' table module input input' ↔
      (groups (Piece.kind module) (pieces module 0 (decoded input))).map
          (clusterText table module) =
        (groups (Piece.kind module) (pieces module 0 (decoded input'))).map
          (clusterText table module) := by
  obtain ⟨ts, hruns, htexts⟩ := texts_openedExact fresh table module hclean
  obtain ⟨ts', hruns', htexts'⟩ := texts_openedExact fresh' table module hclean'
  rw [← htexts, ← htexts']
  constructor
  · intro hex
    obtain ⟨us, us', hus, hus', heq⟩ := hex
    rwa [(hruns.unique hus).1, (hruns'.unique hus').1]
  · intro heq
    exact ⟨ts, ts', hruns, hruns', heq⟩

/-- The decomposition is a base character of the same class and marks. -/
def regular : Unichar × List Unichar → Bool
  | (_, []) => false
  | (c, base :: marks) =>
    !isDiacritic base && marks.all isDiacritic && isBigrammable base == isBigrammable c

/-- The characters that are not indexed like their decompositions: the voiced katakana from WA on,
whose base letter the table leaves in katakana, and the capital I with a dot, whose base letter is
not folded with it. -/
def SpellingMatters (module : NdsUnicode61) (c : Unichar) : Prop :=
  (0x30F7 ≤ c ∧ c ≤ 0x30FA) ∨ (module.removeDiacritics = false ∧ c = 0x130)

instance (module : NdsUnicode61) (c : Unichar) : Decidable (SpellingMatters module c) :=
  inferInstanceAs (Decidable (_ ∨ _))

theorem unicharDecompositionData_spellings : ∀ removeDiacritics,
    ∀ e ∈ entries unicharDecompositionData, regular e = true →
      let module := ⟨removeDiacritics, []⟩
      isDiacritic e.1 = false ∧
      if SpellingMatters module e.1 then
        textSize unicharDecompositionData module [e.1] =
            textSize unicharDecompositionData module e.2 ∧
          textBytes unicharDecompositionData module [e.1] ≠
            textBytes unicharDecompositionData module e.2
      else
        retained unicharDecompositionData module e.1 =
          e.2.flatMap (retained unicharDecompositionData module) := by
  decide +kernel

/-- What the spelling of a character changes. -/
theorem Precomposed.spellings {c : Unichar}
    (h : Precomposed unicharDecompositionData module c) :
    isDiacritic c = false ∧
      textSize unicharDecompositionData module [c] =
        textSize unicharDecompositionData module (decomposition unicharDecompositionData c) ∧
      (textBytes unicharDecompositionData module [c] =
          textBytes unicharDecompositionData module (decomposition unicharDecompositionData c) ↔
        ¬ SpellingMatters module c) := by
  obtain ⟨_, base, marks, hdec, hbase, hmarks, _, hclass⟩ := h
  have hregular : regular (c, base :: marks) = true := by
    simpa [regular, hbase, hclass] using hmarks
  obtain ⟨hmark, hdata⟩ :=
    unicharDecompositionData_spellings module.removeDiacritics _ (mem_entries hdec) hregular
  rw [decomposition, hdec, Option.getD_some]
  refine ⟨hmark, ?_⟩
  split at hdata
  · next hmatters =>
    exact ⟨hdata.1, iff_of_false hdata.2 (not_not_intro hmatters)⟩
  · next hmatters =>
    have hbytes : textBytes unicharDecompositionData module [c] =
        textBytes unicharDecompositionData module (base :: marks) := by
      rw [textBytes, List.flatMap_singleton]
      exact congrArg (List.flatMap encoded) hdata
    refine ⟨?_, iff_of_true hbytes hmatters⟩
    rw [← length_textBytes, ← length_textBytes, hbytes]

/-- Composed and decomposed spellings are indexed alike, up to five characters. -/
theorem indexAlike_iff (fresh fresh' : Nat → Nat → UInt8) {input input' : List UInt8}
    (h : Respelling unicharDecompositionData module spelling input input') :
    IndexAlike fresh fresh' unicharDecompositionData module input input' ↔
      ∀ c ∈ spelling, c.2 = true → ¬ SpellingMatters module c.1 := by
  have hpre : ∀ c ∈ spelling, c.2 = true →
      Precomposed unicharDecompositionData module c.1 ∧ isDiacritic c.1 = false := by
    intro c hc hflag
    have hc' := h.precomposed c hc hflag
    exact ⟨hc', hc'.spellings.1⟩
  obtain ⟨zs, hzs, hzs', hspelling⟩ := pieces_spelled hpre 0 0 h.chars h.chars'
  have hsize : ∀ c ∈ zs.flatMap SpelledPiece.spelling,
      textSize unicharDecompositionData module [c.1] =
        textSize unicharDecompositionData module (respell unicharDecompositionData c) := by
    rw [hspelling]
    intro r hc
    obtain ⟨c, flag⟩ := r
    cases flag with
    | false => rfl
    | true => exact (h.precomposed _ hc rfl).spellings.2.1
  rw [indexAlike_iff_groups fresh fresh' h.decodable h.decodable', ← hzs, ← hzs',
    groups_spelled hsize, hspelling]
  refine forall₂_congr ?_
  intro res hc
  obtain ⟨c, flag⟩ := res
  cases flag with
  | false => simp [respell]
  | true =>
    rw [forall_prop_of_true rfl]
    exact (h.precomposed _ hc rfl).spellings.2.2

/-- An e with an acute accent. -/
theorem indexAlike_accent : IndexAlike (fun _ _ => 0) (fun _ _ => 0) unicharDecompositionData
    ⟨false, []⟩ [0xC3, 0xA9] [0x65, 0xCC, 0x81] := by
  have hspelled : Respelling unicharDecompositionData ⟨false, []⟩ [(0xE9, true)] [0xC3, 0xA9]
      [0x65, 0xCC, 0x81] := by
    refine ⟨by decide +kernel, by decide +kernel, by decide +kernel, by decide +kernel, ?_⟩
    simp only [List.mem_singleton, forall_eq, forall_const]
    exact ⟨by decide +kernel, 0x65, [0x301], by decide +kernel⟩
  exact (indexAlike_iff _ _ hspelled).mpr (by decide +kernel)

/-- The katakana letter VA. -/
theorem not_indexAlike_va :
    Respelling unicharDecompositionData ⟨true, []⟩ [(0x30F7, true)] [0xE3, 0x83, 0xB7]
      [0xE3, 0x83, 0xAF, 0xE3, 0x82, 0x99] ∧
    ¬ IndexAlike (fun _ _ => 0) (fun _ _ => 0) unicharDecompositionData ⟨true, []⟩
      [0xE3, 0x83, 0xB7] [0xE3, 0x83, 0xAF, 0xE3, 0x82, 0x99] := by
  constructor
  · refine ⟨by decide +kernel, by decide +kernel, by decide +kernel, by decide +kernel, ?_⟩
    simp only [List.mem_singleton, forall_eq, forall_const]
    exact ⟨by decide +kernel, 0x30EF, [0x3099], by decide +kernel⟩
  · rw [indexAlike_iff_groups _ _ (by decide +kernel) (by decide +kernel)]
    decide +kernel

end NdsDevkit.Tokenizer
