import NdsDevkit.Rijndael.Words

namespace NdsDevkit.Rijndael

open Framework

theorem Column.word_byte0 (c : Column) : c.word &&& 0xff000000 = (⟨c.b0, 0, 0, 0⟩ : Column).word := by
  have hb : c.b0.toNat &&& 0xff = c.b0.toNat := by
    rw [and_byte]
    exact Nat.mod_eq_of_lt c.b0.toNat_lt
  rw [show 0xff000000 = 0xff <<< 24 from rfl, and_shifted_mask, word_shift24, hb]
  simp [word]

theorem Column.word_byte1 (c : Column) : c.word &&& 0x00ff0000 = (⟨0, c.b1, 0, 0⟩ : Column).word := by
  rw [show 0x00ff0000 = 0xff <<< 16 from rfl, and_shifted_mask, word_shift16]
  simp [word]

theorem Column.word_byte2 (c : Column) : c.word &&& 0x0000ff00 = (⟨0, 0, c.b2, 0⟩ : Column).word := by
  rw [show 0x0000ff00 = 0xff <<< 8 from rfl, and_shifted_mask, word_shift8]
  simp [word]

theorem Column.word_byte3 (c : Column) : c.word &&& 0x000000ff = (⟨0, 0, 0, c.b3⟩ : Column).word := by
  rw [word_low]
  simp [word]

/-- One table for the four bytes of a word. -/
theorem substituteBytes_tableOf (f : UInt8 → UInt8) (c : Column) :
    substituteBytes (tableOf fun b => .same (f b)) c.b0.toNat c.b1.toNat c.b2.toNat c.b3.toNat =
      .ok (c.map f).word := by
  simp only [substituteBytes, lookup_tableOf, bind, Except.bind, Column.word_byte0,
    Column.word_byte1, Column.word_byte2, Column.word_byte3, ← Column.word_add]
  rw [Column.eq_sum (c.map f)]
  rfl

theorem mixBytes_tableOf (f0 f1 f2 f3 : UInt8 → Column) (c : Column) :
    mixBytes (tableOf f0) (tableOf f1) (tableOf f2) (tableOf f3) c.b0.toNat c.b1.toNat c.b2.toNat
      c.b3.toNat = .ok ((((f0 c.b0).add (f1 c.b1)).add (f2 c.b2)).add (f3 c.b3)).word := by
  simp only [mixBytes, lookup_tableOf, bind, Except.bind, ← Column.word_add]
  rfl

/-- The encryption tables substitute and mix. -/
theorem mixBytes_te (c : Column) : mixBytes te0 te1 te2 te3 c.b0.toNat c.b1.toNat c.b2.toNat
    c.b3.toNat = .ok (c.map sbox).mix.word := by
  obtain ⟨h0, h1, h2, h3⟩ := te_eq
  rw [h0, h1, h2, h3, mixBytes_tableOf, Column.eq_sum (c.map sbox)]
  simp only [Column.mix, Column.circulant_add]
  rfl

/-- The decryption tables undo the substitution and unmix. -/
theorem mixBytes_td (c : Column) : mixBytes td0 td1 td2 td3 c.b0.toNat c.b1.toNat c.b2.toNat
    c.b3.toNat = .ok (c.map sbox.symm).unmix.word := by
  obtain ⟨h0, h1, h2, h3⟩ := td_eq
  rw [h0, h1, h2, h3, mixBytes_tableOf, Column.eq_sum (c.map sbox.symm)]
  simp only [Column.unmix, Column.circulant_add]
  rfl

/-- The first `n` words of a schedule stand in the buffer. -/
structure Filled (rk : Buf Nat) (w : Nat → Column) (n : Nat) : Prop where
  size_le : n ≤ rk.size
  cells_eq : ∀ i < n, rk.cells i = some (w i).word

theorem Filled.read {rk : Buf Nat} {w : Nat → Column} {n i : Nat} (h : Filled rk w n) (hi : i < n) :
    rk.read i = .ok (w i).word := by
  have hs := h.size_le
  rw [Buf.read, if_pos (by omega), h.cells_eq i hi]

section

variable {rk : Buf Nat} {w : Nat → Column} {n : Nat}

theorem roundWord_te (h : Filled rk w n) {k : Nat} (hk : k < n) (c0 c1 c2 c3 : Column) :
    roundWord te0 te1 te2 te3 rk k c0.word c1.word c2.word c3.word =
      .ok (((⟨c0.b0, c1.b1, c2.b2, c3.b3⟩ : Column).map sbox).mix.add (w k)).word := by
  have hmix := mixBytes_te ⟨c0.b0, c1.b1, c2.b2, c3.b3⟩
  simp only [roundWord, Column.word_shift24, Column.word_shift16, Column.word_shift8,
    Column.word_low, hmix, h.read hk, bind, Except.bind, Column.word_add]
  rfl

theorem roundWord_td (h : Filled rk w n) {k : Nat} (hk : k < n) (c0 c1 c2 c3 : Column) :
    roundWord td0 td1 td2 td3 rk k c0.word c1.word c2.word c3.word =
      .ok (((⟨c0.b0, c1.b1, c2.b2, c3.b3⟩ : Column).map sbox.symm).unmix.add (w k)).word := by
  have hmix := mixBytes_td ⟨c0.b0, c1.b1, c2.b2, c3.b3⟩
  simp only [roundWord, Column.word_shift24, Column.word_shift16, Column.word_shift8,
    Column.word_low, hmix, h.read hk, bind, Except.bind, Column.word_add]
  rfl

theorem lastWord_tableOf (f : UInt8 → UInt8) (h : Filled rk w n) {k : Nat} (hk : k < n)
    (c0 c1 c2 c3 : Column) :
    lastWord (tableOf fun b => .same (f b)) rk k c0.word c1.word c2.word c3.word =
      .ok (((⟨c0.b0, c1.b1, c2.b2, c3.b3⟩ : Column).map f).add (w k)).word := by
  have hsub := substituteBytes_tableOf f ⟨c0.b0, c1.b1, c2.b2, c3.b3⟩
  simp only [lastWord, Column.word_shift24, Column.word_shift16, Column.word_shift8,
    Column.word_low, hsub, h.read hk, bind, Except.bind, Column.word_add]
  rfl

theorem encryptRound_eq (h : Filled rk w n) {r : Nat} (hr : 4 * r + 4 ≤ n) (s : State) :
    encryptRound rk (4 * r) s.words = .ok ((s.sub.mix.add (roundKey w r))).words := by
  simp only [encryptRound, State.words, roundWord_te h (show 4 * r < n by omega),
    roundWord_te h (show 4 * r + 1 < n by omega), roundWord_te h (show 4 * r + 2 < n by omega),
    roundWord_te h (show 4 * r + 3 < n by omega), bind, Except.bind]
  rfl

theorem decryptRound_eq (h : Filled rk w n) {r : Nat} (hr : 4 * r + 4 ≤ n) (s : State) :
    decryptRound rk (4 * r) s.words =
      .ok (((State.mix.symm (State.sub.symm s)).add (roundKey w r))).words := by
  simp only [decryptRound, State.words, roundWord_td h (show 4 * r < n by omega),
    roundWord_td h (show 4 * r + 1 < n by omega), roundWord_td h (show 4 * r + 2 < n by omega),
    roundWord_td h (show 4 * r + 3 < n by omega), bind, Except.bind]
  rfl

/-- The unrolled rounds, for the three numbers of rounds that a key length can give. -/
theorem fullRounds_eq (round : Nat → Words → Except Stop Words) (g : Nat → Words) {nrounds : Nat}
    (hn : nrounds = 10 ∨ nrounds = 12 ∨ nrounds = 14)
    (hround : ∀ r, 1 ≤ r → r < nrounds → round (4 * r) (g (r - 1)) = .ok (g r)) :
    fullRounds round nrounds (g 0) = .ok (g (nrounds - 1)) := by
  have h1 : round 4 (g 0) = .ok (g 1) := hround 1 (by omega) (by omega)
  have h2 : round 8 (g 1) = .ok (g 2) := hround 2 (by omega) (by omega)
  have h3 : round 12 (g 2) = .ok (g 3) := hround 3 (by omega) (by omega)
  have h4 : round 16 (g 3) = .ok (g 4) := hround 4 (by omega) (by omega)
  have h5 : round 20 (g 4) = .ok (g 5) := hround 5 (by omega) (by omega)
  have h6 : round 24 (g 5) = .ok (g 6) := hround 6 (by omega) (by omega)
  have h7 : round 28 (g 6) = .ok (g 7) := hround 7 (by omega) (by omega)
  have h8 : round 32 (g 7) = .ok (g 8) := hround 8 (by omega) (by omega)
  have h9 : round 36 (g 8) = .ok (g 9) := hround 9 (by omega) (by omega)
  simp only [fullRounds, h1, h2, h3, h4, h5, h6, h7, h8, h9, bind, Except.bind]
  rcases hn with rfl | rfl | rfl
  · rfl
  · have h10 : round 40 (g 9) = .ok (g 10) := hround 10 (by omega) (by omega)
    have h11 : round 44 (g 10) = .ok (g 11) := hround 11 (by omega) (by omega)
    simp [h10, h11, pure, Except.pure]
  · have h10 : round 40 (g 9) = .ok (g 10) := hround 10 (by omega) (by omega)
    have h11 : round 44 (g 10) = .ok (g 11) := hround 11 (by omega) (by omega)
    have h12 : round 48 (g 11) = .ok (g 12) := hround 12 (by omega) (by omega)
    have h13 : round 52 (g 12) = .ok (g 13) := hround 13 (by omega) (by omega)
    simp [h10, h11, h12, h13]

end

theorem getU32_eq {p : Buf UInt8} {i : Nat} {c : Column} (h : p.Holds i c.bytes)
    (hs : i + 4 ≤ p.size) : getU32 p i = .ok c.word := by
  have hlen : c.bytes.length = 4 := rfl
  have h0 := h.read (j := 0) (by omega) (by omega)
  have h1 := h.read (j := 1) (by omega) (by omega)
  have h2 := h.read (j := 2) (by omega) (by omega)
  have h3 := h.read (j := 3) (by omega) (by omega)
  rw [Nat.add_zero] at h0
  simp only [getU32, h0, h1, h2, h3, bind, Except.bind]
  rfl

theorem putU32_eq {p : Buf UInt8} {i : Nat} (hs : i + 4 ≤ p.size) (c : Column) :
    putU32 p i c.word = .ok (p.put i c.bytes) := by
  have h0 : UInt8.ofNat (c.word >>> 24) = c.b0 := by
    rw [c.word_shift24, UInt8.ofNat_toNat]
  have h1 : UInt8.ofNat (c.word >>> 16) = c.b1 := by
    rw [← UInt8.toNat_inj, ← c.word_shift16, and_byte]
    rfl
  have h2 : UInt8.ofNat (c.word >>> 8) = c.b2 := by
    rw [← UInt8.toNat_inj, ← c.word_shift8, and_byte]
    rfl
  simp only [putU32, h0, h1, h2, ofNat_word, bind, Except.bind]
  rw [Buf.write_eq _ (by omega)]
  simp only
  rw [Buf.write_eq _ (by rw [Buf.size_put]; omega)]
  simp only
  rw [Buf.write_eq _ (by simp only [Buf.size_put]; omega)]
  simp only
  rw [Buf.write_eq _ (by simp only [Buf.size_put]; omega), Buf.put_put (j := i + 1) _ _ _ rfl,
    Buf.put_put (j := i + 2) _ _ _ rfl, Buf.put_put (j := i + 3) _ _ _ rfl]
  rfl

section

variable {rk : Buf Nat} {w : Nat → Column} {n : Nat} {p : Buf UInt8} {i : Nat} {s : State}

theorem firstWords_eq (h : Filled rk w n) (hn : 4 ≤ n) (hp : p.Holds i s.bytes)
    (hs : i + 16 ≤ p.size) : firstWords rk p i = .ok (s.add (roundKey w 0)).words := by
  rw [State.bytes, Buf.holds_append, Buf.holds_append, Buf.holds_append] at hp
  obtain ⟨⟨⟨h0, h1⟩, h2⟩, h3⟩ := hp
  have g0 := getU32_eq h0 (by omega)
  have g1 : getU32 p (i + 4) = .ok s.c1.word := getU32_eq h1 (by omega)
  have g2 : getU32 p (i + 8) = .ok s.c2.word := getU32_eq h2 (by omega)
  have g3 : getU32 p (i + 12) = .ok s.c3.word := getU32_eq h3 (by omega)
  have r0 := h.read (i := 0) (by omega)
  have r1 := h.read (i := 1) (by omega)
  have r2 := h.read (i := 2) (by omega)
  have r3 := h.read (i := 3) (by omega)
  simp only [firstWords, g0, g1, g2, g3, r0, r1, r2, r3, bind, Except.bind, ← Column.word_add]
  rfl

/-- The four words of a block, written one behind the other. -/
theorem putU32_block {q : Buf UInt8} {j : Nat} (hq : j + 16 ≤ q.size) (t : State) :
    putU32 q j t.c0.word = .ok (q.put j t.c0.bytes) ∧
    putU32 (q.put j t.c0.bytes) (j + 4) t.c1.word = .ok (q.put j (t.c0.bytes ++ t.c1.bytes)) ∧
    putU32 (q.put j (t.c0.bytes ++ t.c1.bytes)) (j + 8) t.c2.word =
      .ok (q.put j (t.c0.bytes ++ t.c1.bytes ++ t.c2.bytes)) ∧
    putU32 (q.put j (t.c0.bytes ++ t.c1.bytes ++ t.c2.bytes)) (j + 12) t.c3.word =
      .ok (q.put j t.bytes) := by
  refine ⟨putU32_eq (by omega) _, ?_, ?_, ?_⟩
  · rw [putU32_eq (by rw [Buf.size_put]; omega), Buf.put_put (j := j + 4) _ _ _ rfl]
  · rw [putU32_eq (by rw [Buf.size_put]; omega), Buf.put_put (j := j + 8) _ _ _ rfl]
  · rw [putU32_eq (by rw [Buf.size_put]; omega), Buf.put_put (j := j + 12) _ _ _ rfl]
    rfl

/-- The last round, on a state `u` whose columns are the rows of words it takes. -/
theorem lastRound_eq (f : UInt8 → UInt8) (h : Filled rk w n) {k : Nat} (hk : k + 4 ≤ n)
    {q : Buf UInt8} {j : Nat} (hq : j + 16 ≤ q.size) (u0 u1 u2 u3 : State) :
    lastRound (tableOf fun b => .same (f b)) rk k q j u0.words u1.words u2.words u3.words =
      .ok (q.put j (State.add
        ⟨(⟨u0.c0.b0, u0.c1.b1, u0.c2.b2, u0.c3.b3⟩ : Column).map f,
          (⟨u1.c0.b0, u1.c1.b1, u1.c2.b2, u1.c3.b3⟩ : Column).map f,
          (⟨u2.c0.b0, u2.c1.b1, u2.c2.b2, u2.c3.b3⟩ : Column).map f,
          (⟨u3.c0.b0, u3.c1.b1, u3.c2.b2, u3.c3.b3⟩ : Column).map f⟩
        ⟨w k, w (k + 1), w (k + 2), w (k + 3)⟩).bytes) := by
  generalize hc : State.add _ _ = c
  obtain ⟨hq0, hq1, hq2, hq3⟩ := putU32_block hq c
  have l0 := lastWord_tableOf f h (k := k) (by omega) u0.c0 u0.c1 u0.c2 u0.c3
  have l1 := lastWord_tableOf f h (k := k + 1) (by omega) u1.c0 u1.c1 u1.c2 u1.c3
  have l2 := lastWord_tableOf f h (k := k + 2) (by omega) u2.c0 u2.c1 u2.c2 u2.c3
  have l3 := lastWord_tableOf f h (k := k + 3) (by omega) u3.c0 u3.c1 u3.c2 u3.c3
  subst hc
  simp only [lastRound, State.words, l0, l1, l2, l3, bind, Except.bind]
  simp only [State.add] at hq0 hq1 hq2 hq3
  simp only [hq0, hq1, hq2, hq3]
  rfl

/-- The encryption on a schedule: no index leaves a table or the schedule, and the target gets the
block that the rounds make. -/
theorem rijndaelEncrypt_eq {nrounds : Nat} (hn : nrounds = 10 ∨ nrounds = 12 ∨ nrounds = 14)
    (h : Filled rk w (4 * (nrounds + 1))) (hp : p.Holds i s.bytes) (hs : i + 16 ≤ p.size)
    {q : Buf UInt8} {j : Nat} (hq : j + 16 ≤ q.size) :
    rijndaelEncrypt rk nrounds p i q j =
      .ok (q.put j (State.layers.encrypt (roundKey w) (nrounds - 1) s).bytes) := by
  have hfirst := firstWords_eq h (by omega) hp hs
  have hfull := fullRounds_eq (encryptRound rk)
    (fun r => (State.layers.rounds (roundKey w) r s).words) hn (by
      intro r hr hlt
      have hround := encryptRound_eq h (r := r) (by omega)
        (State.layers.rounds (roundKey w) (r - 1) s)
      obtain ⟨r, rfl⟩ : ∃ m, r = m + 1 := ⟨r - 1, by omega⟩
      exact hround)
  obtain ⟨m, rfl⟩ : ∃ m, nrounds = m + 1 := ⟨nrounds - 1, by omega⟩
  have hk : (m + 1) <<< 2 = 4 * (m + 1) := by
    rw [Nat.shiftLeft_eq, Nat.mul_comm]
  have hstart : (State.layers.rounds (roundKey w) 0 s).words = (s.add (roundKey w 0)).words := rfl
  rw [hstart, Nat.add_sub_cancel] at hfull
  simp only [rijndaelEncrypt, hfirst, hfull, hk, te4_eq, bind, Except.bind]
  generalize ht : State.layers.rounds (roundKey w) m s = t
  have hlast := lastRound_eq sbox h (k := 4 * (m + 1)) (by omega) hq t ⟨t.c1, t.c2, t.c3, t.c0⟩
    ⟨t.c2, t.c3, t.c0, t.c1⟩ ⟨t.c3, t.c0, t.c1, t.c2⟩
  rw [Nat.add_sub_cancel, Layers.encrypt, ht]
  exact hlast

/-- The decryption on a schedule, the inverse cipher with keys of its own. -/
theorem rijndaelDecrypt_eq {nrounds : Nat} (hn : nrounds = 10 ∨ nrounds = 12 ∨ nrounds = 14)
    (h : Filled rk w (4 * (nrounds + 1))) (hp : p.Holds i s.bytes) (hs : i + 16 ≤ p.size)
    {q : Buf UInt8} {j : Nat} (hq : j + 16 ≤ q.size) :
    rijndaelDecrypt rk nrounds p i q j =
      .ok (q.put j (State.layers.decrypt (roundKey w) (nrounds - 1) s).bytes) := by
  have hfirst := firstWords_eq h (by omega) hp hs
  have hfull := fullRounds_eq (decryptRound rk)
    (fun r => (State.layers.unrounds (roundKey w) r s).words) hn (by
      intro r hr hlt
      have hround := decryptRound_eq h (r := r) (by omega)
        (State.layers.unrounds (roundKey w) (r - 1) s)
      obtain ⟨r, rfl⟩ : ∃ m, r = m + 1 := ⟨r - 1, by omega⟩
      exact hround)
  obtain ⟨m, rfl⟩ : ∃ m, nrounds = m + 1 := ⟨nrounds - 1, by omega⟩
  have hk : (m + 1) <<< 2 = 4 * (m + 1) := by
    rw [Nat.shiftLeft_eq, Nat.mul_comm]
  have hstart : (State.layers.unrounds (roundKey w) 0 s).words = (s.add (roundKey w 0)).words := rfl
  rw [hstart, Nat.add_sub_cancel] at hfull
  simp only [rijndaelDecrypt, hfirst, hfull, hk, td4_eq, bind, Except.bind]
  generalize ht : State.layers.unrounds (roundKey w) m s = t
  have hlast := lastRound_eq sbox.symm h (k := 4 * (m + 1)) (by omega) hq
    ⟨t.c0, t.c3, t.c2, t.c1⟩ ⟨t.c1, t.c0, t.c3, t.c2⟩ ⟨t.c2, t.c1, t.c0, t.c3⟩
    ⟨t.c3, t.c2, t.c1, t.c0⟩
  rw [Nat.add_sub_cancel, Layers.decrypt, ht]
  exact hlast

end

end NdsDevkit.Rijndael
