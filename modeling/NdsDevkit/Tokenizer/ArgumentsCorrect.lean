import NdsDevkit.Text.Utf8Encode
import NdsDevkit.Tokenizer.ExceptionTable

namespace NdsDevkit.Tokenizer

open Framework Text

variable {σ : Type}

/-- The characters of a string, up to the first byte that cannot be decoded. -/
def stringChars (chars : List UInt8) : List Unichar := (decodeAll chars).1.map Prod.fst

theorem stringChars_utf8Text {cs : List Nat} (hcs : ∀ c, c ∈ cs → c < 2 ^ 21) :
    stringChars (utf8Text cs) = cs :=
  decodeAll_utf8Text hcs

/-- The loop runs over the characters of the string. -/
theorem forDecoded_eq (body : σ → Unichar → Except Stop σ) (chars : List UInt8) (s : σ) :
    forDecoded body chars s = (stringChars chars).foldlM body s := by
  rw [forDecoded]
  generalize hn : chars.length + 1 = n
  replace hn : chars.length < n := by omega
  induction n generalizing chars s with
  | zero => omega
  | succ n ih =>
    cases hd : decodeFirst chars with
    | none =>
      have hnext := decodeFirst_none hd
      rw [stringChars, decodeAll_none hd]
      simp only [whileDecodes]
      split
      · rfl
      · next u i he =>
        rw [he] at hnext
        cases hnext
    | some r =>
      obtain ⟨u, rest⟩ := r
      obtain ⟨k, h1, _, hk, hrest, hnext⟩ := decodeFirst_some hd
      have hlt : rest.length < n := by
        rw [hrest, List.length_drop]
        omega
      rw [stringChars, decodeAll_some hd, List.map_cons, List.foldlM_cons]
      simp only [whileDecodes, hnext]
      congr 1
      funext s'
      exact ih rest s' hlt

namespace Options

variable {s : Options} {xs : List Unichar}

theorem Lists.realloc (h : s.Lists xs) {n : Nat} (hn : xs.length ≤ n) :
    (s.realloc n).Lists xs := by
  have hle := h.allocated
  refine ⟨?_, h.count, hn⟩
  intro i hi
  have hlt : i < s.alnumExceptions.size := by omega
  simp only [Options.realloc, Nat.zero_add, if_pos hlt]
  simpa using h.holds i hi

/-- Every character of the string outside its class becomes an exception, and no other one. -/
theorem Lists.addExceptions (h : s.Lists xs) (hs : xs.Pairwise (· < ·)) (allocates : Nat → Bool)
    (tokenChars : Bool) (chars : List UInt8) :
    Ends (s.addExceptions allocates tokenChars chars)
      (fun s' => ∃ xs', s'.Lists xs' ∧ xs'.Pairwise (· < ·) ∧
        ∀ c, c ∈ xs' ↔ c ∈ xs ∨ c ∈ stringChars chars ∧ isAlNum c ≠ tokenChars)
      (fun e => e = .failure ∧ ∃ n, allocates n = false) := by
  simp only [Options.addExceptions, forDecoded_eq, h.countExtra hs, Nat.zero_add, bind, Except.bind,
    h.count]
  generalize hn : (stringChars chars).countP (needsChange xs tokenChars) = n
  rcases Nat.eq_zero_or_pos n with rfl | hpos
  · -- no character of the string has to change its class
    refine ⟨xs, h, hs, ?_⟩
    intro c
    refine ⟨.inl, ?_⟩
    intro hor
    rcases hor with hc | ⟨hc, hne⟩
    · exact hc
    · by_contra hnot
      have hkeep := List.countP_eq_zero.mp hn c hc
      rw [needsChange_of_not_mem hnot] at hkeep
      exact hkeep (bne_iff_ne.mpr hne)
  · rw [if_pos hpos]
    split
    · have hlists : (s.realloc (xs.length + n)).Lists xs := h.realloc (by omega)
      have hnone : ∀ c, c ∈ xs ↔ c ∈ xs ∨ c ∈ ([] : List Unichar) ∧ isAlNum c ≠ tokenChars := by
        simp
      have hsize : xs.length + (stringChars chars).countP (needsChange xs tokenChars) ≤
          (s.realloc (xs.length + n)).alnumExceptions.size := by
        rw [hn]
        exact Nat.le_refl _
      obtain ⟨s', xs', hrun, h', hs', hmem⟩ :=
        hlists.addException_fold tokenChars hs hnone hsize
      rw [hrun]
      exact ⟨xs', h', hs', hmem⟩
    · next hfail => exact ⟨rfl, _, eq_false_of_ne_true hfail⟩

/-- The exceptions are the characters listed for a class that is not theirs by default. -/
def Excepts (s : Options) (listed : Bool → Unichar → Prop) : Prop :=
  ∃ xs, s.Lists xs ∧ xs.Pairwise (· < ·) ∧
    ∀ c, c ∈ xs ↔ ∃ tokenChars, listed tokenChars c ∧ isAlNum c ≠ tokenChars

theorem Excepts.sorted {listed : Bool → Unichar → Prop} (h : s.Excepts listed) :
    s.tokenizer.alnumExceptions.Pairwise (· < ·) := by
  obtain ⟨xs, hl, hs, _⟩ := h
  rwa [hl.tokenizer]

/-- A character listed for one class only has this class. -/
theorem Excepts.isTokenChar {listed : Bool → Unichar → Prop} (h : s.Excepts listed)
    {tokenChars : Bool} {c : Unichar} (hc : listed tokenChars c) (hnot : ¬ listed (!tokenChars) c) :
    s.tokenizer.isTokenChar c = tokenChars := by
  have hsorted := h.sorted
  obtain ⟨xs, hl, hs, hmem⟩ := h
  rw [isTokenChar_sorted hsorted, hl.tokenizer]
  have hiff : c ∈ xs ↔ isAlNum c ≠ tokenChars := by
    rw [hmem c]
    constructor
    · intro hex
      obtain ⟨t, ht, hne⟩ := hex
      by_cases heq : t = tokenChars
      · rwa [← heq]
      · rw [Bool.eq_not_of_ne heq] at ht
        exact absurd ht hnot
    · intro hne
      exact ⟨tokenChars, hc, hne⟩
  simp only [hiff]
  cases isAlNum c <;> cases tokenChars <;> rfl

theorem Excepts.isTokenChar_default {listed : Bool → Unichar → Prop} (h : s.Excepts listed)
    {c : Unichar} (hnot : ∀ tokenChars, ¬ listed tokenChars c) :
    s.tokenizer.isTokenChar c = isAlNum c := by
  have hsorted := h.sorted
  obtain ⟨xs, hl, hs, hmem⟩ := h
  rw [isTokenChar_sorted hsorted, hl.tokenizer]
  have hout : c ∉ xs := by
    rw [hmem c]
    intro hex
    obtain ⟨t, ht, _⟩ := hex
    exact hnot t ht
  simp only [decide_eq_false hout, Bool.xor_false]

end Options

/-- The option whose characters become token characters, or separators. -/
def classOption (tokenChars : Bool) : List UInt8 :=
  if tokenChars then tokencharsOption else separatorsOption

/-- A character in the string of an argument of this option. -/
def ArgumentChar (arg : List UInt8) (tokenChars : Bool) (c : Unichar) : Prop :=
  ∃ text, arg = classOption tokenChars ++ text ∧ c ∈ stringChars text

/-- An argument of one of the three options; the number of the first one can be read. -/
def KnownOption (sscanf : List UInt8 → Option Int) (arg : List UInt8) : Prop :=
  (∃ text n, arg = removeDiacriticsOption ++ text ∧ sscanf text = some n) ∨
    ∃ tokenChars text, arg = classOption tokenChars ++ text

theorem not_argumentChar_removeDiacritics (text : List UInt8) (tokenChars : Bool) (c : Unichar) :
    ¬ ArgumentChar (removeDiacriticsOption ++ text) tokenChars c := by
  intro hex
  obtain ⟨text', heq, _⟩ := hex
  cases tokenChars <;>
    simp [removeDiacriticsOption, classOption, tokencharsOption, separatorsOption] at heq

theorem classOption_inj {tokenChars t : Bool} {text text' : List UInt8}
    (h : classOption t ++ text = classOption tokenChars ++ text') :
    t = tokenChars ∧ text = text' := by
  obtain rfl : t = tokenChars := by
    cases t <;> cases tokenChars <;>
      simp [classOption, tokencharsOption, separatorsOption] at h <;> rfl
  exact ⟨rfl, List.append_cancel_left h⟩

theorem argumentChar_iff {text : List UInt8} {tokenChars t : Bool} {c : Unichar} :
    ArgumentChar (classOption tokenChars ++ text) t c ↔ t = tokenChars ∧ c ∈ stringChars text := by
  constructor
  · intro hex
    obtain ⟨text', heq, hc⟩ := hex
    obtain ⟨rfl, rfl⟩ := classOption_inj heq
    exact ⟨rfl, hc⟩
  · intro hboth
    obtain ⟨rfl, hc⟩ := hboth
    exact ⟨text, rfl, hc⟩

section

variable (sscanf : List UInt8 → Option Int) (allocates : Nat → Bool)

theorem Options.Excepts.congr {s : Options} {listed listed' : Bool → Unichar → Prop}
    (h : s.Excepts listed) (heq : ∀ t c, listed t c ↔ listed' t c) : s.Excepts listed' := by
  obtain ⟨xs, hl, hs, hmem⟩ := h
  exact ⟨xs, hl, hs, by simpa only [heq] using hmem⟩

/-- The characters of a string, added to the ones listed so far. -/
theorem Options.Excepts.addExceptions {s : Options} {listed : Bool → Unichar → Prop}
    (h : s.Excepts listed) (tokenChars : Bool) (text : List UInt8) :
    Ends (s.addExceptions allocates tokenChars text)
      (fun s' => s'.Excepts fun t c =>
        listed t c ∨ ArgumentChar (classOption tokenChars ++ text) t c)
      (fun e => e = .failure ∧ ∃ n, allocates n = false) := by
  obtain ⟨xs, hl, hs, hmem⟩ := h
  refine (hl.addExceptions hs allocates tokenChars text).mono ?_ fun _ he => he
  intro s' hex
  obtain ⟨xs', hl', hs', hmem'⟩ := hex
  refine ⟨xs', hl', hs', ?_⟩
  intro c
  simp only [hmem' c, hmem c, argumentChar_iff]
  constructor
  · intro hor
    rcases hor with ⟨t, ht, hne⟩ | ⟨hc, hne⟩
    · exact ⟨t, .inl ht, hne⟩
    · exact ⟨tokenChars, .inr ⟨rfl, hc⟩, hne⟩
  · intro hor
    rcases hor with ⟨t, ht | ⟨rfl, hc⟩, hne⟩
    · exact .inl ⟨t, ht, hne⟩
    · exact .inr ⟨hc, hne⟩

/-- Why an argument is refused: there is no memory, or it is not of a known option. -/
def Refused (arg : List UInt8) : Prop := (∃ n, allocates n = false) ∨ ¬ KnownOption sscanf arg

/-- One argument lists its characters. -/
theorem parseArgument_spec {s : Options} {listed : Bool → Unichar → Prop} (h : s.Excepts listed)
    (arg : List UInt8) :
    Ends (parseArgument sscanf allocates s arg)
      (fun s' => s'.Excepts fun t c => listed t c ∨ ArgumentChar arg t c)
      (fun e => e = .failure ∧ Refused sscanf allocates arg) := by
  rw [parseArgument]
  split
  · next hopt =>
    obtain ⟨text, rfl⟩ := List.isPrefixOf_iff_prefix.mp hopt
    rw [List.drop_left]
    split
    · obtain ⟨xs, hl, hs, hmem⟩ := h
      refine ⟨xs, ⟨hl.holds, hl.count, hl.allocated⟩, hs, ?_⟩
      intro c
      simp only [hmem c, not_argumentChar_removeDiacritics, or_false]
    · next hnumber =>
      refine ⟨rfl, .inr ?_⟩
      intro hknown
      rcases hknown with ⟨text', n, heq, hsome⟩ | ⟨tokenChars, text', heq⟩
      · rw [List.append_cancel_left heq, hsome] at hnumber
        cases hnumber
      · cases tokenChars <;>
          simp [removeDiacriticsOption, classOption, tokencharsOption, separatorsOption] at heq
  · next hremove =>
    split
    · next hopt =>
      obtain ⟨text, rfl⟩ := List.isPrefixOf_iff_prefix.mp hopt
      rw [List.drop_left]
      exact (h.addExceptions allocates true text).mono (fun _ h' => h')
        fun e he => ⟨he.1, .inl he.2⟩
    · next htoken =>
      split
      · next hopt =>
        obtain ⟨text, rfl⟩ := List.isPrefixOf_iff_prefix.mp hopt
        have hlen : tokencharsOption.length = separatorsOption.length := rfl
        rw [hlen, List.drop_left]
        exact (h.addExceptions allocates false text).mono (fun _ h' => h')
          fun e he => ⟨he.1, .inl he.2⟩
      · next hseparator =>
        refine ⟨rfl, .inr ?_⟩
        rw [List.isPrefixOf_iff_prefix] at hremove htoken hseparator
        intro hknown
        rcases hknown with ⟨text, n, rfl, _⟩ | ⟨tokenChars, text, rfl⟩
        · exact hremove (List.prefix_append _ _)
        · cases tokenChars with
          | false => exact hseparator (List.prefix_append _ _)
          | true => exact htoken (List.prefix_append _ _)

/-- All arguments do, in their order. -/
theorem parseArguments_spec (argv : List (List UInt8)) :
    Ends (parseArguments sscanf allocates argv)
      (fun s => s.Excepts fun t c => ∃ arg, arg ∈ argv ∧ ArgumentChar arg t c)
      (fun e => e = .failure ∧ ∃ arg, arg ∈ argv ∧ Refused sscanf allocates arg) := by
  have hrun : ∀ (s : Options) (listed : Bool → Unichar → Prop), s.Excepts listed →
      Ends (argv.foldlM (parseArgument sscanf allocates) s)
        (fun s' => s'.Excepts fun t c => listed t c ∨ ∃ arg, arg ∈ argv ∧ ArgumentChar arg t c)
        (fun e => e = .failure ∧ ∃ arg, arg ∈ argv ∧ Refused sscanf allocates arg) := by
    induction argv with
    | nil =>
      intro s listed h
      exact h.congr (by simp)
    | cons arg argv ih =>
      intro s listed h
      rw [List.foldlM_cons]
      apply ((parseArgument_spec sscanf allocates h arg).mono (fun _ h' => h')
        fun e he => ⟨he.1, arg, List.mem_cons_self, he.2⟩).bind
      intro s1 h1
      refine (ih s1 _ h1).mono (fun s' h' => h'.congr ?_) ?_
      · intro t c
        simp only [List.mem_cons, or_and_right, exists_or, exists_eq_left, or_assoc]
      · intro e he
        obtain ⟨hfailure, arg', hmem, hrefused⟩ := he
        exact ⟨hfailure, arg', List.mem_cons_of_mem _ hmem, hrefused⟩
  have hstart : Options.Excepts ⟨true, .fresh 0, 0⟩ fun _ _ => False :=
    ⟨[], ⟨Buf.holds_nil _ _, rfl, Nat.le_refl _⟩, .nil, by simp⟩
  exact (hrun _ _ hstart).mono (fun s h => h.congr (by simp)) fun _ he => he

/-- Known options are all parsed when there is memory. -/
theorem parseArguments_ok {argv : List (List UInt8)} (halloc : ∀ n, allocates n = true)
    (hknown : ∀ arg, arg ∈ argv → KnownOption sscanf arg) :
    ∃ s, parseArguments sscanf allocates argv = .ok s := by
  have hspec := parseArguments_spec sscanf allocates argv
  cases hres : parseArguments sscanf allocates argv with
  | ok s => exact ⟨s, rfl⟩
  | error e =>
    rw [hres] at hspec
    obtain ⟨_, arg, hmem, hrefused⟩ := hspec
    rcases hrefused with ⟨n, hn⟩ | hnot
    · rw [halloc n] at hn
      cases hn
    · exact absurd (hknown arg hmem) hnot

end

/-- A character that an argument of this option gives, in a string that is valid UTF-8. -/
def Mentions (argv : List (List UInt8)) (tokenChars : Bool) (c : Unichar) : Prop :=
  ∃ cs, classOption tokenChars ++ utf8Text cs ∈ argv ∧ (∀ u, u ∈ cs → u.isValidChar) ∧ c ∈ cs

/-- The strings of the two options are valid UTF-8. -/
def ValidUtf8 (argv : List (List UInt8)) : Prop :=
  ∀ tokenChars text, classOption tokenChars ++ text ∈ argv →
    ∃ cs, text = utf8Text cs ∧ ∀ u, u ∈ cs → u.isValidChar

/-- What the arguments make of the classes of the characters. -/
structure Classified (argv : List (List UInt8)) (t : NdsUnicode61) : Prop where
  tokenchars : ∀ c, Mentions argv true c → t.isTokenChar c = true
  separators : ∀ c, Mentions argv false c → t.isTokenChar c = false
  others : ∀ c, ¬ Mentions argv true c → ¬ Mentions argv false c → t.isTokenChar c = isAlNum c
  increasing : t.alnumExceptions.Pairwise (· < ·)

theorem stringChars_valid {cs : List Unichar} (h : ∀ u, u ∈ cs → u.isValidChar) :
    stringChars (utf8Text cs) = cs := by
  apply stringChars_utf8Text
  intro u hu
  rcases h u hu with hlow | ⟨_, hhigh⟩ <;> omega

theorem mentions_iff {argv : List (List UInt8)} (hutf8 : ValidUtf8 argv) (tokenChars : Bool)
    (c : Unichar) :
    (∃ arg, arg ∈ argv ∧ ArgumentChar arg tokenChars c) ↔ Mentions argv tokenChars c := by
  constructor
  · intro hex
    obtain ⟨arg, hmem, text, rfl, hc⟩ := hex
    obtain ⟨cs, rfl, hvalid⟩ := hutf8 tokenChars text hmem
    rw [stringChars_valid hvalid] at hc
    exact ⟨cs, hmem, hvalid, hc⟩
  · intro hex
    obtain ⟨cs, hmem, hvalid, hc⟩ := hex
    exact ⟨_, hmem, utf8Text cs, rfl, by rwa [stringChars_valid hvalid]⟩

/-- Two tokenizers with the same classes of characters. -/
theorem Classified.isTokenChar_eq {argv argv' : List (List UInt8)} {t t' : NdsUnicode61}
    (h : Classified argv t) (h' : Classified argv' t')
    (hsame : ∀ tokenChars c, Mentions argv tokenChars c ↔ Mentions argv' tokenChars c)
    (c : Unichar) : t.isTokenChar c = t'.isTokenChar c := by
  by_cases htoken : Mentions argv true c
  · rw [h.tokenchars c htoken, h'.tokenchars c ((hsame true c).mp htoken)]
  · by_cases hsep : Mentions argv false c
    · rw [h.separators c hsep, h'.separators c ((hsame false c).mp hsep)]
    · rw [h.others c htoken hsep, h'.others c (fun hm => htoken ((hsame true c).mpr hm))
        (fun hm => hsep ((hsame false c).mpr hm))]

section

variable (sscanf : List UInt8 → Option Int) (allocates : Nat → Bool)

theorem parseArguments_classified {argv : List (List UInt8)} (hutf8 : ValidUtf8 argv)
    (hapart : ∀ c, ¬ (Mentions argv true c ∧ Mentions argv false c)) :
    Ends (parseArguments sscanf allocates argv) (fun s => Classified argv s.tokenizer)
      (fun e => e = .failure) := by
  refine (parseArguments_spec sscanf allocates argv).mono (fun s h => ?_) fun _ he => he.1
  replace h := h.congr (mentions_iff hutf8)
  refine ⟨?_, ?_, ?_, h.sorted⟩
  · intro c hc
    exact h.isTokenChar hc fun hsep => hapart c ⟨hc, hsep⟩
  · intro c hc
    exact h.isTokenChar hc fun htoken => hapart c ⟨htoken, hc⟩
  · intro c htoken hsep
    apply h.isTokenChar_default
    intro hor
    rcases hor with _ | _
    · exact hsep
    · exact htoken

/-- The arguments are parsed without a write outside the allocated array, and give each listed
character its class, in whatever order they come. -/
theorem parseArguments_isTokenChar (argv : List (List UInt8)) (hutf8 : ValidUtf8 argv)
    (hapart : ∀ c, ¬ (Mentions argv true c ∧ Mentions argv false c)) :
    (parseArguments sscanf allocates argv = .error .failure ∨
      ∃ s, parseArguments sscanf allocates argv = .ok s ∧ Classified argv s.tokenizer) ∧
    ∀ argv' s s', argv.Perm argv' → parseArguments sscanf allocates argv = .ok s →
      parseArguments sscanf allocates argv' = .ok s' →
      ∀ c, s.tokenizer.isTokenChar c = s'.tokenizer.isTokenChar c := by
  have hspec := parseArguments_classified sscanf allocates hutf8 hapart
  constructor
  · cases hres : parseArguments sscanf allocates argv with
    | error e =>
      rw [hres] at hspec
      exact .inl (by rw [show e = .failure from hspec])
    | ok s =>
      rw [hres] at hspec
      exact .inr ⟨s, rfl, hspec⟩
  · intro argv' s s' hperm hres hres'
    have hsame : ∀ tokenChars c, Mentions argv tokenChars c ↔ Mentions argv' tokenChars c := by
      intro tokenChars c
      simp only [Mentions, hperm.mem_iff]
    have hutf8' : ValidUtf8 argv' := fun t text hmem => hutf8 t text (hperm.mem_iff.mpr hmem)
    have hapart' : ∀ c, ¬ (Mentions argv' true c ∧ Mentions argv' false c) := by
      simpa only [← hsame] using hapart
    have hspec' := parseArguments_classified sscanf allocates hutf8' hapart'
    rw [hres] at hspec
    rw [hres'] at hspec'
    exact hspec.isTokenChar_eq hspec' hsame

end

/-- The arguments `tokenchars= \t` and `separators=/;"`. -/
def blankArguments : List (List UInt8) :=
  [classOption true ++ utf8Text [0x20, 0x09], classOption false ++ utf8Text [0x2F, 0x3B, 0x22]]

theorem validUtf8_blankArguments : ValidUtf8 blankArguments := by
  intro t text hmem
  rcases List.mem_cons.mp hmem with heq | hmem
  · obtain ⟨_, rfl⟩ := classOption_inj heq
    exact ⟨[0x20, 0x09], rfl, by decide⟩
  · obtain ⟨_, rfl⟩ := classOption_inj (List.mem_singleton.mp hmem)
    exact ⟨[0x2F, 0x3B, 0x22], rfl, by decide⟩

theorem blankArguments_apart (c : Unichar) :
    ¬ (Mentions blankArguments true c ∧ Mentions blankArguments false c) := by
  have htokenchars : ∀ u : Unichar, u ∈ [0x20, 0x09] → u.isValidChar := by decide
  have hseparators : ∀ u : Unichar, u ∈ [0x2F, 0x3B, 0x22] → u.isValidChar := by decide
  have hmention : ∀ t, Mentions blankArguments t c ↔
      (t = true ∧ c ∈ [0x20, 0x09]) ∨ t = false ∧ c ∈ [0x2F, 0x3B, 0x22] := by
    intro t
    rw [← mentions_iff validUtf8_blankArguments]
    simp only [blankArguments, List.mem_cons, List.not_mem_nil, or_false, or_and_right, exists_or,
      exists_eq_left, argumentChar_iff, stringChars_valid htokenchars,
      stringChars_valid hseparators]
  intro hboth
  obtain ⟨htoken, hsep⟩ := hboth
  simp only [hmention, List.mem_cons, List.not_mem_nil, or_false, true_and, Bool.true_eq_false,
    Bool.false_eq_true, false_and, false_or] at htoken hsep
  rcases htoken with rfl | rfl <;> simp at hsep

theorem blankArguments_known (sscanf : List UInt8 → Option Int) (arg : List UInt8)
    (hmem : arg ∈ blankArguments) : KnownOption sscanf arg := by
  rcases List.mem_cons.mp hmem with rfl | hmem
  · exact .inr ⟨true, _, rfl⟩
  · obtain rfl := List.mem_singleton.mp hmem
    exact .inr ⟨false, _, rfl⟩

theorem parseArguments_isTokenChar_blank :
    (∃ s, parseArguments (fun _ => none) (fun _ => true) blankArguments = .ok s ∧
      Classified blankArguments s.tokenizer) ∧
    ∀ argv' s s', blankArguments.Perm argv' →
      parseArguments (fun _ => none) (fun _ => true) blankArguments = .ok s →
      parseArguments (fun _ => none) (fun _ => true) argv' = .ok s' →
      ∀ c, s.tokenizer.isTokenChar c = s'.tokenizer.isTokenChar c := by
  have h := parseArguments_isTokenChar (fun _ => none) (fun _ => true) blankArguments
    validUtf8_blankArguments blankArguments_apart
  refine ⟨h.1.resolve_left ?_, h.2⟩
  intro hfail
  obtain ⟨s, hok⟩ := parseArguments_ok (fun _ => none) (fun _ => true) (fun _ => rfl)
    (blankArguments_known _)
  rw [hok] at hfail
  cases hfail

end NdsDevkit.Tokenizer
