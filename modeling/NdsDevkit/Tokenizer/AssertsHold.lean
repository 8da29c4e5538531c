import NdsDevkit.Tokenizer.AssertsSafe

namespace NdsDevkit.Tokenizer

open Framework Text NdsUnicode61Cursor

namespace NdsUnicode61Cursor

variable {fresh : Nat → Nat → UInt8} {module : NdsUnicode61} {cursor : NdsUnicode61Cursor}
  {off : Nat} {clean : Bool} {p q k : Piece} {ps : List Piece}

/-- A code point that cannot be written is pushed as it is. -/
theorem addTokenCodepointAsserts_lt {c : Nat}
    (h : addTokenCodepointAsserts fresh unicharDecompositionData module cursor c = true) :
    c < 0x10ffff := by
  by_contra hc
  rw [Nat.not_lt] at hc
  have hmark := isDiacritic_high hc
  have hroom := (StringBuffer.ensureExtraCapacity_spec fresh cursor.token 4).2
  have hsize := (StringBuffer.ensureExtraCapacity_spec fresh cursor.token 4).1
  have hwrite : cursor.token.pushBackUnicharAsserts fresh c = false := by
    simp only [StringBuffer.pushBackUnicharAsserts, writeUnicharAsUtf8Asserts, Bool.or_eq_false_iff,
      decide_eq_false_iff_not, utf8MaxCodepoint]
    refine ⟨⟨?_, ?_⟩, decide_eq_false (Nat.not_lt.mpr hc)⟩
    · omega
    · exact Nat.not_lt.mpr (Nat.le_trans (by decide) hc)
  simp [addTokenCodepointAsserts, sqlite3FtsUnicodeFold_high hc, decomposition_high hc,
    pushDecomposedAsserts, hmark, hwrite] at h
  omega

theorem accumulateTokenCharacterAsserts_lt
    (h : accumulateTokenCharacterAsserts fresh unicharDecompositionData module cursor = true) :
    (cursor.currentCharacter : Nat) < 0x10ffff :=
  addTokenCodepointAsserts_lt (Bool.and_eq_true_iff.mp h).1

/-- The second part comes to the first character of the next cluster. -/
theorem secondOfBigramAsserts_lt
    (h : secondOfBigramAsserts fresh unicharDecompositionData module cursor = true)
    (hstands : cursor.Stands module off (q :: ps) clean) (hq : q.kind module = .bigram) :
    (q.base.1 : Nat) < 0x10ffff := by
  obtain ⟨_, _, hchar, hend⟩ := hstands.cons
  obtain ⟨htoken, hclass⟩ := kind_bigram.mp hq
  unfold secondOfBigramAsserts at h
  simp only [hend, hchar, htoken, hclass, Bool.not_false, Bool.and_true, if_true,
    Bool.and_eq_true] at h
  have hlt := accumulateTokenCharacterAsserts_lt h.2
  exact hlt

theorem nextBodyAsserts_bigram
    (h : nextBodyAsserts fresh unicharDecompositionData module cursor = true)
    (hend : cursor.isEnd = false)
    (hstate : cursor.state = .bigram ∨ cursor.state = .bigramStart) :
    nextBigramAsserts fresh unicharDecompositionData module cursor = true := by
  have hunknown : cursor.state ≠ .unknown := by rcases hstate with hs | hs <;> simp [hs]
  have hlatin : cursor.state ≠ .latin := by rcases hstate with hs | hs <;> simp [hs]
  simp only [nextBodyAsserts, hend, Bool.false_eq_true, if_false, if_neg hunknown,
    readTokenAsserts, if_neg hlatin, Bool.and_eq_true] at h
  exact h.2.1

/-- A pass at the first cluster of a run comes to the first characters of two clusters. -/
theorem Placed.asserts_lt (hplaced : cursor.Placed module (p :: ps) clean)
    (h : nextBodyAsserts fresh unicharDecompositionData module cursor = true)
    (hp : p.kind module = .bigram) : (p.base.1 : Nat) < 0x10ffff ∧
      ∀ q ∈ ps.head?, q.kind module = .bigram → (q.base.1 : Nat) < 0x10ffff := by
  obtain ⟨⟨off, hstands⟩, hstate, _⟩ := hplaced
  obtain ⟨_, _, hchar, hend⟩ := hstands.cons
  have hstart : cursor.state = .bigramStart := by
    rw [hstate, stateAt, hp]
  have hbigram := nextBodyAsserts_bigram h hend (.inr hstart)
  simp only [nextBigramAsserts, Bool.and_eq_true] at hbigram
  obtain ⟨⟨_, hfirst⟩, hsecond⟩ := hbigram
  constructor
  · rw [firstOfBigramAsserts, if_pos hstart] at hfirst
    have hlt := accumulateTokenCharacterAsserts_lt hfirst
    rw [← hchar]
    exact hlt
  · intro q hq hkind
    rcases firstOfBigram_start fresh unicharDecompositionData hstands hp hstart with
      ⟨rfl, _⟩ | ⟨cursor1, heq, _, hstands1, _⟩
    · cases hq
    · obtain ⟨qs, rfl⟩ : ∃ qs, ps = q :: qs := by
        cases ps with
        | nil => cases hq
        | cons r rs =>
          cases hq
          exact ⟨rs, rfl⟩
      rw [heq] at hsecond
      exact secondOfBigramAsserts_lt hsecond hstands1 hkind

/-- A pass inside a run comes to the first character of the next cluster. -/
theorem InBigram.asserts_lt
    (hin : InBigram unicharDecompositionData module cursor k (q :: ps) clean)
    (h : nextBodyAsserts fresh unicharDecompositionData module cursor = true)
    (hq : q.kind module = .bigram) : (q.base.1 : Nat) < 0x10ffff := by
  obtain ⟨⟨off, hstands⟩, hstate, _⟩ := hin
  have hbigram := nextBodyAsserts_bigram h hstands.cons.2.2.2 (.inl hstate)
  have hfirst : firstOfBigram fresh unicharDecompositionData module cursor =
      (true, cursor.shifted) := by
    simp [firstOfBigram, hstate, shifted]
  simp only [nextBigramAsserts, hfirst, Bool.and_eq_true] at hbigram
  have hshifted : cursor.shifted.Stands module off (q :: ps) clean := hstands.congr rfl rfl rfl rfl
  exact secondOfBigramAsserts_lt hbigram.2 hshifted hq

theorem AssertsHold.behind (h : AssertsHold fresh unicharDecompositionData module cursor) :
    AssertsHold fresh unicharDecompositionData module
      (behind (nextBody fresh unicharDecompositionData module cursor)) :=
  fun cursor' hr => h cursor' (.pass hr)

theorem AssertsHold.nextBody (h : AssertsHold fresh unicharDecompositionData module cursor) :
    nextBodyAsserts fresh unicharDecompositionData module cursor = true :=
  h cursor (.refl cursor)

/-- The pass that looks for the next token reads it as well. -/
theorem AssertsHold.of_seek {cursor' : NdsUnicode61Cursor}
    (h : AssertsHold fresh unicharDecompositionData module cursor) (hend : cursor.isEnd = false)
    (hstate : cursor.state = .unknown)
    (hseek : ∃ cursor1, seekTokenStart module cursor = (true, cursor1) ∧ cursor1.isEnd = false ∧
      cursor' = { cursor1 with
        state := if isBigrammable cursor1.currentCharacter then .bigramStart else .latin })
    (hbody : Tokenizer.NdsUnicode61Cursor.nextBody fresh unicharDecompositionData module cursor =
      Tokenizer.NdsUnicode61Cursor.nextBody fresh unicharDecompositionData module cursor') :
    AssertsHold fresh unicharDecompositionData module cursor' := by
  intro cursor'' hr
  cases hr with
  | refl =>
    have hasserts := h.nextBody
    obtain ⟨cursor1, hseek, hend1, rfl⟩ := hseek
    have hend' : ({ cursor1 with
        state := if isBigrammable cursor1.currentCharacter then .bigramStart else .latin } :
          NdsUnicode61Cursor).isEnd = false := hend1
    simp only [nextBodyAsserts, hend, hstate, hseek, hend1, Bool.false_eq_true, if_false, if_true,
      Bool.and_eq_true, Bool.false_or] at hasserts
    rw [nextBodyAsserts, hend']
    simp only [Bool.false_eq_true, if_false]
    rw [if_neg (by split <;> simp)]
    exact hasserts.2
  | pass hr =>
    refine h cursor'' (.pass ?_)
    rwa [hbody]

end NdsUnicode61Cursor

/-- Bigrammable clusters begin with code points that can be written. -/
def Writable (module : NdsUnicode61) (ps : List Piece) : Prop :=
  ∀ p ∈ ps, p.kind module = .bigram → (p.base.1 : Nat) < 0x10ffff

section

variable {fresh : Nat → Nat → UInt8} {module : NdsUnicode61} {p : Piece} {ps : List Piece}

theorem Writable.cons (hp : p.kind module = .bigram → (p.base.1 : Nat) < 0x10ffff)
    (hps : Writable module ps) : Writable module (p :: ps) :=
  List.forall_mem_cons.mpr ⟨hp, hps⟩

theorem Writable.of_ne (hp : p.kind module ≠ .bigram) (hps : Writable module ps) :
    Writable module (p :: ps) :=
  .cons (fun h => absurd h hp) hps

theorem writable_nil (module : NdsUnicode61) : Writable module [] := by simp [Writable]

theorem writable_behindSeparators :
    Writable module (behindSeparators module ps) → Writable module ps := by
  intro h
  induction ps with
  | nil => exact writable_nil module
  | cons p ps ih =>
    by_cases hp : p.kind module = .separator
    · rw [behindSeparators, List.dropWhile_cons_of_pos (by simpa)] at h
      exact .of_ne (by simp [hp]) (ih h)
    · rwa [behindSeparators, List.dropWhile_cons_of_neg (by simpa)] at h

/-- From these pieces on, the assertions demand code points that can be written. -/
def Demands (fresh : Nat → Nat → UInt8) (module : NdsUnicode61) (ps : List Piece) : Prop :=
  ∀ ⦃cursor clean⦄, cursor.Placed module ps clean →
    AssertsHold fresh unicharDecompositionData module cursor → Writable module ps

/-- The same inside a run of bigrammable clusters. -/
def DemandsBigram (fresh : Nat → Nat → UInt8) (module : NdsUnicode61) (ps : List Piece) : Prop :=
  ∀ ⦃cursor clean k⦄, InBigram unicharDecompositionData module cursor k ps clean →
    AssertsHold fresh unicharDecompositionData module cursor → Writable module ps

theorem demands_seek {cursor : NdsUnicode61Cursor} {off : Nat} {l : Chars} {clean : Bool}
    (h : cursor.Left off l clean) (hstate : cursor.state = .unknown) (hend : cursor.isEnd = false)
    (hasserts : AssertsHold fresh unicharDecompositionData module cursor)
    (hdemands : Demands fresh module (behindSeparators module (pieces module off l))) :
    Writable module (pieces module off l) := by
  apply writable_behindSeparators
  rcases nextBody_seek fresh unicharDecompositionData module h hstate hend with
    ⟨hnil, _⟩ | ⟨cursor', hplaced, _, _, _, hseek, hbody⟩
  · rw [hnil]
    exact writable_nil module
  · exact hdemands hplaced (hasserts.of_seek hend hstate hseek hbody)

theorem demands_separator (hp : p.kind module = .separator)
    (ih : ∀ qs : List Piece, qs.length ≤ ps.length → Demands fresh module qs) :
    Demands fresh module (p :: ps) := by
  intro cursor clean h hasserts
  obtain ⟨off, l, hleft, rfl, hstate, hend⟩ := Placed.separator h hp
  exact .of_ne (by simp [hp])
    (demands_seek hleft hstate hend hasserts (ih _ (length_behindSeparators_le _)))

theorem demands_latin (hp : p.kind module = .latin)
    (ih : ∀ qs : List Piece, qs.length ≤ ps.length → Demands fresh module qs) :
    Demands fresh module (p :: ps) := by
  intro cursor clean h hasserts
  obtain ⟨run, rest, rfl, hrun⟩ := exists_run (Piece.kind module) p ps
  rw [hp] at hrun
  have hbehind := hasserts.behind
  have hrest : Writable module rest := by
    rcases nextBody_latin fresh unicharDecompositionData h hrun with
      ⟨rfl, _⟩ | ⟨text, cursor', hbody, _, _, _, hplaced⟩
    · exact writable_nil module
    · rw [hbody] at hbehind
      exact ih rest (by simp) hplaced.index_succ hbehind
  intro q hq hkind
  rw [← List.cons_append, List.mem_append] at hq
  rcases hq with hq | hq
  · rw [hrun.same q hq] at hkind
    cases hkind
  · exact hrest q hq hkind

theorem demands_bigram (hp : p.kind module = .bigram)
    (ih : ∀ qs : List Piece, qs.length ≤ ps.length → Demands fresh module qs)
    (ihBigram : ∀ qs : List Piece, qs.length < ps.length → DemandsBigram fresh module qs) :
    Demands fresh module (p :: ps) := by
  intro cursor clean h hasserts
  obtain ⟨hlt, hnext⟩ := h.asserts_lt hasserts.nextBody hp
  have hbehind := hasserts.behind
  refine .cons (fun _ => hlt) ?_
  rcases nextBody_bigramStart fresh unicharDecompositionData h hp with
    ⟨_, hshort, _⟩ | ⟨text, cursor', _, hbody, _, _, _, hplaced⟩ |
    ⟨q, qs, text, cursor', rfl, hq, hbody, _, _, _, hin⟩
  · rcases hshort with rfl | ⟨q, rfl, _⟩
    · exact writable_nil module
    · exact .cons (hnext q rfl) (writable_nil module)
  · rw [hbody] at hbehind
    exact ih ps (Nat.le_refl _) hplaced.index_succ hbehind
  · rw [hbody] at hbehind
    exact .cons (hnext q rfl) (ihBigram qs (by simp) hin.index_succ hbehind)

theorem demandsBigram (ih : Demands fresh module ps)
    (ihBigram : ∀ qs : List Piece, qs.length < ps.length → DemandsBigram fresh module qs) :
    DemandsBigram fresh module ps := by
  intro cursor clean k h hasserts
  cases ps with
  | nil => exact writable_nil module
  | cons q qs =>
    have hbehind := hasserts.behind
    rcases nextBody_bigram fresh h with
      ⟨hq, cursor', hbody, _, _, hplaced⟩ | ⟨hq, rfl, _⟩ |
      ⟨hq, text, cursor', hbody, _, _, _, hin⟩
    · rw [hbody] at hbehind
      exact ih hplaced hbehind
    · exact .cons (h.asserts_lt hasserts.nextBody) (writable_nil module)
    · rw [hbody] at hbehind
      exact .cons (h.asserts_lt hasserts.nextBody)
        (ihBigram qs (by simp) hin.index_succ hbehind)

theorem demands (fresh : Nat → Nat → UInt8) (module : NdsUnicode61) (ps : List Piece) :
    Demands fresh module ps ∧ DemandsBigram fresh module ps := by
  apply pieces_induction module
  · intro _ _ _ _
    exact writable_nil module
  · intro p ps hp ih
    exact demands_separator hp ih
  · intro p ps hp ih
    exact demands_latin hp ih
  · intro p ps hp ih ihBigram
    exact demands_bigram hp ih ihBigram
  · intro ps ih ihBigram
    exact demandsBigram ih ihBigram

/-- A token character that is no mark begins a cluster. -/
theorem mem_pieces {off : Nat} {l : Chars} {c : Unichar × Nat} (hc : c ∈ l)
    (hmark : isDiacritic c.1 = false) : ∃ p ∈ pieces module off l, p.base = c := by
  fun_induction pieces module off l with
  | case1 off => cases hc
  | case2 off d l hd ih =>
    rcases List.mem_cons.mp hc with rfl | hc
    · exact ⟨_, List.mem_cons_self, rfl⟩
    · rw [← List.takeWhile_append_dropWhile (p := fun c => isDiacritic c.1) (l := l),
        List.mem_append] at hc
      have hbehind : c ∈ behindMarks l := by
        refine hc.resolve_left ?_
        intro htake
        have hyes := List.mem_takeWhile_imp htake
        rw [hmark] at hyes
        cases hyes
      obtain ⟨p, hp, hbase⟩ := ih hbehind
      exact ⟨p, List.mem_cons_of_mem _ hp, hbase⟩
  | case3 off d l hd ih =>
    rcases List.mem_cons.mp hc with rfl | hc
    · exact ⟨_, List.mem_cons_self, rfl⟩
    · obtain ⟨p, hp, hbase⟩ := ih hc
      exact ⟨p, List.mem_cons_of_mem _ hp, hbase⟩

end

/-- No assertion of the tokenizer can fail, unless a code point from 0x10FFFF on is a token
character. -/
theorem assertsHold_iff (fresh : Nat → Nat → UInt8) (module : NdsUnicode61) (input : List UInt8) :
    AssertsHold fresh unicharDecompositionData module (openedExact input) ↔
      ∀ c ∈ decoded input, module.isTokenChar c.1 = true → c.1 < utf8MaxCodepoint := by
  constructor
  · intro h
    cases input with
    | nil => simp [decoded]
    | cons b bs =>
      have hwritable := demands_seek (opened_left b bs _) rfl (opened_isEnd b bs _) h
        (demands fresh module _).1
      intro c hc htoken
      by_contra hge
      rw [Nat.not_lt] at hge
      obtain ⟨p, hp, rfl⟩ := mem_pieces hc (isDiacritic_high hge)
      have hclass : isBigrammable p.base.1 = true :=
        Bool.or_eq_true_iff.mpr (.inr (decide_eq_true (Nat.lt_of_lt_of_le (by decide) hge)))
      exact Nat.not_lt.mpr hge (hwritable p hp (kind_bigram.mpr ⟨htoken, hclass⟩))
  · intro h cursor' hr
    exact (((sound_openedExact h).reaches hr).nextBody fresh).1

/-- U+10FFFF, the last code point there is. -/
theorem not_assertsHold_last : ¬ AssertsHold (fun _ _ => 0) unicharDecompositionData ⟨true, []⟩
    (openedExact [0xF4, 0x8F, 0xBF, 0xBF]) := by
  intro h
  exact absurd (h _ (.refl _)) (by decide +kernel)

end NdsDevkit.Tokenizer
