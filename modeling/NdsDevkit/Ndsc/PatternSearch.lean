import NdsDevkit.Ndsc.HashChain

namespace NdsDevkit.Ndsc

open Framework

/-- Every bucket of the table is such a chain. -/
def Chained (src : List UInt8) (hnum curOfs : Nat) (tbl : HashTbl) : Prop :=
  ∀ hash, hash < nsdcHashLen → ∃ slots, slots.length = hnum ∧ tbl.Holds (hash * hnum) slots ∧
    Chain src curOfs hash slots

variable {src : List UInt8} {curOfs hash hnum : Nat} {slots slots' : List (Option Nat)}
  {tbl tbl' : HashTbl} {s : PackState}

theorem pairHash_lt {p : Nat} (h : pairHash src p = some hash) : hash < nsdcHashLen := by
  unfold pairHash at h
  split at h
  · cases h
    exact Nat.lt_succ_of_le Nat.and_le_right
  · cases h

theorem lt_length_of_pairHash {p : Nat} (h : pairHash src p = some hash) : p < src.length := by
  unfold pairHash at h
  split at h
  · next h0 _ => exact (List.getElem?_eq_some_iff.mp h0).1
  · cases h

/-- Entering the current position into its bucket. -/
theorem Chained.enter (h : Chained src hnum curOfs tbl) (hcur : pairHash src curOfs = some hash)
    (hbucket : Chain src curOfs hash slots) (hsub : slots'.Sublist (some curOfs :: slots))
    (hlen : slots'.length = hnum) (hholds : tbl'.Holds (hash * hnum) slots')
    (hsame : ∀ j, j < hash * hnum ∨ hash * hnum + hnum ≤ j → tbl'.cells j = tbl.cells j) :
    Chained src hnum (curOfs + 1) tbl' := by
  intro hash' hlt
  obtain ⟨slots, hl, hold, hchain⟩ := h hash' hlt
  rcases eq_or_ne hash' hash with rfl | hne
  · exact ⟨slots', hlen, hholds, (hbucket.push hcur).sublist hsub⟩
  · refine ⟨slots, hl, ?_, hchain.mono (Nat.le_succ _)⟩
    intro k hk
    have hother : hash' * hnum + k < hash * hnum ∨ hash * hnum + hnum ≤ hash' * hnum + k := by
      rcases Nat.lt_or_gt_of_ne hne with hbelow | habove
      · have := bucket_apart hnum hbelow
        omega
      · have := bucket_apart hnum habove
        omega
    rw [hsame _ hother]
    exact hold k hk

/-- What a pass does to the table. -/
def TableStep (src : List UInt8) (hnum : Nat) (s : PackState) (tbl' : HashTbl) : Prop :=
  tbl' = s.hashTbl ∨ ∃ hash, pairHash src s.srcOfs = some hash ∧
    (shiftChain (hash * hnum) hnum 0 (some s.srcOfs) s.hashTbl = .ok tbl' ∨
      ∃ best, searchChain (.ofList src) src.length s.srcOfs s.uncOfs (hash * hnum) hnum 0
        (some s.srcOfs) s.hashTbl ⟨0, 0, 0⟩ = .ok (tbl', best))

/-- The pass ends with the match written and behind it. -/
structure Writes (src : List UInt8) (s : PackState) (best : Best) (s' : PackState) : Prop where
  long : 2 < best.mcnt
  curOfs : s'.curOfs = s.srcOfs - best.mext
  srcOfs : s'.srcOfs = s'.curOfs + best.mcnt
  out : ∃ out, s.out.flush (.ofList src) s'.curOfs s.uncOfs = .ok out ∧
    out.putPattern best.mcnt best.mgap = .ok s'.out

theorem Chained.step (h : Chained src hnum s.srcOfs s.hashTbl)
    (hsize : s.hashTbl.size = nsdcHashLen * hnum) (ht : TableStep src hnum s tbl') :
    Chained src hnum (s.srcOfs + 1) tbl' := by
  rcases ht with rfl | ⟨hash, hcur, ht⟩
  · intro hash hlt
    obtain ⟨slots, hlen, hholds, hchain⟩ := h hash hlt
    exact ⟨slots, hlen, hholds, hchain.mono (Nat.le_succ _)⟩
  · obtain ⟨slots, rfl, hholds, hchain⟩ := h hash (pairHash_lt hcur)
    have hroom : hash * slots.length + 0 + slots.length ≤ s.hashTbl.size := by
      rw [hsize]
      exact bucket_apart _ (pairHash_lt hcur)
    rcases ht with ht | ⟨best, ht⟩
    · obtain ⟨tbl, he, -, hslots, hsame⟩ := shiftChain_eq _ 0 (some s.srcOfs) hroom hholds
      cases ht.symm.trans he
      exact h.enter hcur hchain (List.take_sublist _ _) (by simp) hslots hsame
    · obtain ⟨tbl, he, -, hslots, hsame⟩ := searchChain_eq s.uncOfs _ 0 (some s.srcOfs) ⟨0, 0, 0⟩
        hroom hholds (lt_length_of_pairHash hcur) hchain.before
      cases ht.symm.trans he
      exact h.enter hcur hchain (pushed_sublist _) (length_pushed _) hslots hsame

theorem packRun_table (s : PackState) :
    Ends (packRun (.ofList src) src.length s)
      (fun r => r.2.hashTbl = s.hashTbl ∧ (r.1 = false → r.2 = s)) fun _ => True := by
  rw [packRun]
  split
  · apply (Ends.self _).bind
    intro c _
    apply (Ends.self _).bind
    intro srcOfs _
    simp only
    split
    · apply (Ends.self _).bind
      intro ext _
      split
      · apply (Ends.self _).bind
        intro out _
        apply (Ends.self _).bind
        intro out _
        exact ⟨rfl, fun h => by cases h⟩
      · exact ⟨rfl, fun _ => rfl⟩
    · exact ⟨rfl, fun _ => rfl⟩
  · exact ⟨rfl, fun _ => rfl⟩

theorem packPattern_table (src : List UInt8) (hnum : Nat) (hcur : s.curOfs = s.srcOfs) :
    Ends (packPattern (.ofList src) src.length hnum s)
      (fun r => TableStep src hnum s r.2.hashTbl ∧ (r.1 = true → ∃ hash best,
        pairHash src s.srcOfs = some hash ∧
        searchChain (.ofList src) src.length s.srcOfs s.uncOfs (hash * hnum) hnum 0
          (some s.srcOfs) s.hashTbl ⟨0, 0, 0⟩ = .ok (r.2.hashTbl, best) ∧
        Writes src s best r.2)) fun _ => True := by
  rw [packPattern]
  rw [hcur]
  split
  · have h0 : s.srcOfs < src.length := by omega
    have h1 : s.srcOfs + 1 < src.length := by omega
    have hhash : pairHash src s.srcOfs = some ((src[s.srcOfs].toNat <<< 4 ^^^
        src[s.srcOfs + 1].toNat) &&& (nsdcHashLen - 1)) := by
      simp only [pairHash, List.getElem?_eq_getElem h0, List.getElem?_eq_getElem h1]
    simp only [Buf.read_ofList h0, Buf.read_ofList h1, bind, Except.bind]
    split
    · apply (Ends.self _).bind
      intro tbl' ht
      exact ⟨.inr ⟨_, hhash, .inl ht⟩, fun h => by cases h⟩
    · refine (Ends.self _).bind ?_
      intro res ht
      obtain ⟨tbl', best⟩ := res
      have hstep : TableStep src hnum s tbl' := .inr ⟨_, hhash, .inr ⟨best, ht⟩⟩
      simp only
      split
      · next hbig =>
        apply (Ends.self _).bind
        intro out hflush
        apply (Ends.self _).bind
        intro out' hput
        exact ⟨hstep, fun _ => ⟨_, best, hhash, ht, hbig.1, rfl, rfl, out, hflush, hput⟩⟩
      · exact ⟨hstep, fun h => by cases h⟩
  · exact ⟨.inl rfl, fun h => by cases h⟩

theorem packStep_table (src : List UInt8) (hnum : Nat) (s : PackState) :
    Ends (packStep (.ofList src) src.length hnum s)
      (fun s' => TableStep src hnum s s'.hashTbl) fun _ => True := by
  rw [packStep]
  split
  · trivial
  · refine (packRun_table _).bind ?_
    intro res hboth
    obtain ⟨done, s1⟩ := res
    obtain ⟨htbl, hs1⟩ := hboth
    simp only at htbl hs1 ⊢
    cases done with
    | true => exact .inl htbl
    | false =>
      obtain rfl := hs1 rfl
      refine (packPattern_table src hnum rfl).bind ?_
      intro r hboth
      obtain ⟨done, s2⟩ := r
      obtain ⟨ht, -⟩ := hboth
      cases done <;> exact ht

theorem packInit_chained (src : List UInt8) (dstLen hnum : Nat) :
    Chained src hnum 0 (packInit dstLen hnum).hashTbl := by
  intro hash _
  refine ⟨List.replicate hnum none, List.length_replicate, ?_, ?_, ?_, ?_⟩
  · intro k hk
    rw [List.length_replicate] at hk
    rw [List.getElem?_replicate, if_pos hk]
    rfl
  · intro p hp
    cases List.eq_of_mem_replicate hp
  · exact List.pairwise_replicate.mpr (.inr fun q hq => by cases hq)
  · intro p hp
    cases List.eq_of_mem_replicate hp

/-- The states at the head of the main loop. -/
def PackReached (src : List UInt8) (dstLen : Nat) (mode : Int) (s : PackState) : Prop :=
  Enters (fun s => decide (s.srcOfs < src.length))
    (packStep (.ofList src) src.length (1 <<< mode.toNat)) (packInit dstLen (1 <<< mode.toNat)) s

theorem PackReached.chained {dstLen : Nat} {mode : Int} (h : PackReached src dstLen mode s) :
    PackInv src dstLen (1 <<< mode.toNat) s ∧
      Chained src (1 <<< mode.toNat) s.srcOfs s.hashTbl := by
  apply h.keeps ⟨packInit_inv src dstLen _, packInit_chained src dstLen _⟩
  intro t u hboth hc ht
  obtain ⟨hinv, hchain⟩ := hboth
  have hspec := packStep_spec hinv (of_decide_eq_true hc)
  have htable := packStep_table src (1 <<< mode.toNat) t
  rw [ht] at hspec htable
  obtain ⟨hinv', hlt⟩ := hspec
  refine ⟨hinv', ?_⟩
  intro hash hhash
  obtain ⟨slots, hlen, hholds, hslots⟩ := hchain.step hinv.tbl.size_eq htable hash hhash
  exact ⟨slots, hlen, hholds, hslots.mono hlt⟩

/-- At every search the bucket holds earlier positions of its hash in decreasing order, so leaving
at the first candidate outside the window skips none inside it, and the match that is written is a
longest one. -/
theorem PackReached.search {dstLen : Nat} {mode : Int} (h : PackReached src dstLen mode s)
    (hhash : hash < nsdcHashLen) :
    ∃ slots, slots.length = 1 <<< mode.toNat ∧
      s.hashTbl.Holds (hash * (1 <<< mode.toNat)) slots ∧ Chain src s.srcOfs hash slots ∧
      (∀ i j p q : Nat, i < j → slots[i]? = some (some p) → slots[j]? = some (some q) →
        ¬InWindow s.srcOfs p → ¬InWindow s.srcOfs q) ∧
      (pairHash src s.srcOfs = some hash → ∃ tbl' best,
        searchChain (.ofList src) src.length s.srcOfs s.uncOfs (hash * (1 <<< mode.toNat))
          (1 <<< mode.toNat) 0 (some s.srcOfs) s.hashTbl ⟨0, 0, 0⟩ = .ok (tbl', best) ∧
        ((2 < best.mcnt ∨ ∃ p, IsCandidate src s.srcOfs p slots ∧
            2 < extLength src s.srcOfs s.uncOfs p) →
          IsLongest src s.srcOfs s.uncOfs slots best) ∧
        ∀ s', packPattern (.ofList src) src.length (1 <<< mode.toNat)
            { s with curOfs := s.srcOfs } = .ok (true, s') → Writes src s best s') := by
  obtain ⟨hinv, hchain⟩ := h.chained
  obtain ⟨slots, hlen, hholds, hslots⟩ := hchain hash hhash
  refine ⟨slots, hlen, hholds, hslots, fun i j p q hij hp hq => hslots.outside hij hp hq, ?_⟩
  intro hcur
  have hroom : hash * (1 <<< mode.toNat) + 0 + slots.length ≤ s.hashTbl.size := by
    rw [hinv.tbl.size_eq, hlen]
    exact bucket_apart _ hhash
  obtain ⟨tbl', he, -⟩ := searchChain_eq s.uncOfs _ 0 (some s.srcOfs) ⟨0, 0, 0⟩ hroom
    hholds (lt_length_of_pairHash hcur) hslots.before
  rw [hlen] at he
  refine ⟨tbl', _, he, hslots.isLongest rfl, ?_⟩
  intro s' hs'
  have htable := @packPattern_table { s with curOfs := s.srcOfs } src (1 <<< mode.toNat) rfl
  rw [hs'] at htable
  obtain ⟨hash', best', hcur', he', hwrites⟩ := htable.2 rfl
  cases hcur.symm.trans hcur'
  cases he.symm.trans he'
  exact ⟨hwrites.long, hwrites.curOfs, hwrites.srcOfs, hwrites.out⟩

theorem PackReached.search_third : ∃ s, PackReached [7, 1, 2, 8, 9, 1, 2] 20 0 s ∧ s.srcOfs = 5 ∧
    ∃ slots, slots.length = 1 ∧ s.hashTbl.Holds (18 * 1) slots ∧ slots[0]? = some (some 1) ∧
      Chain [7, 1, 2, 8, 9, 1, 2] 5 18 slots := by
  have h : PackReached [7, 1, 2, 8, 9, 1, 2] 20 0 _ :=
    .pass (.pass (.pass (.pass (.pass .start rfl rfl) rfl rfl) rfl rfl) rfl rfl) rfl rfl
  obtain ⟨slots, hlen, hholds, hchain, -⟩ := h.search (show 18 < nsdcHashLen by decide)
  exact ⟨_, h, rfl, slots, hlen, hholds, (hholds 0 (by rw [hlen]; decide)).symm, hchain⟩

end NdsDevkit.Ndsc
