import NdsDevkit.Rijndael.Schedule

namespace NdsDevkit.Rijndael

open Framework

section

variable {size n : Nat} {w v : Nat → Column} {rk : Buf Nat}

theorem Upto.congr (h : Upto size w n rk) (hwv : ∀ i < n, w i = v i) : Upto size v n rk := by
  obtain ⟨hsize, hrk⟩ := h
  refine ⟨hsize, hrk.size_le, ?_⟩
  intro i hi
  rw [hrk.cells_eq i hi, hwv i hi]

/-- A word of the schedule replaced by another one. -/
theorem Upto.overwrite (h : Upto size w n rk) {i : Nat} (hi : i < n) {c : Column} {x : Nat}
    (hx : x = c.word) :
    Ends (rk.write i x) (Upto size (Function.update w i c) n) fun _ => False := by
  obtain ⟨hsize, hrk⟩ := h
  have hle := hrk.size_le
  subst hx
  rw [Buf.write_eq _ (by omega)]
  refine ⟨hsize, hle, ?_⟩
  intro k hk
  by_cases hki : k = i
  · subst hki
    rw [Buf.cells_put_of_mem _ (by omega) (by simp), Function.update_self]
    simp
  · rw [Buf.cells_put_of_not_mem _ (by simp; omega), Function.update_of_ne hki]
    exact hrk.cells_eq k hk

/-- The words of two round keys at `i` and `j`, the first `c` of them exchanged. -/
def exchanged (w : Nat → Column) (i j c k : Nat) : Column :=
  if i ≤ k ∧ k < i + c then w (j + (k - i))
  else if j ≤ k ∧ k < j + c then w (i + (k - j))
  else w k

theorem Upto.swapWords {i j c : Nat} (h : Upto size (exchanged w i j c) n rk) (hij : i + 4 ≤ j)
    (hc : c < 4) (hj : j + 4 ≤ n) :
    Ends (swapWords rk (i + c) (j + c)) (Upto size (exchanged w i j (c + 1)) n)
      fun _ => False := by
  have hi := h.2.read (i := i + c) (by omega)
  have hjr := h.2.read (i := j + c) (by omega)
  simp only [Rijndael.swapWords, hi, hjr, bind, Except.bind]
  apply (h.overwrite (by omega) rfl).bind
  intro rk h1
  apply (h1.overwrite (by omega) rfl).mono _ (fun _ he => he)
  intro rk h2
  apply h2.congr
  intro k hk
  by_cases hkj : k = j + c
  · subst hkj
    rw [Function.update_self, exchanged, exchanged, if_neg (by omega), if_neg (by omega),
      if_neg (by omega), if_pos (by omega)]
    congr 1
    omega
  · rw [Function.update_of_ne hkj]
    by_cases hki : k = i + c
    · subst hki
      rw [Function.update_self, exchanged, exchanged, if_neg (by omega), if_neg (by omega),
        if_pos (by omega)]
      congr 1
      omega
    · have hlow : i ≤ k ∧ k < i + c ↔ i ≤ k ∧ k < i + (c + 1) := by omega
      have hhigh : j ≤ k ∧ k < j + c ↔ j ≤ k ∧ k < j + (c + 1) := by omega
      rw [Function.update_of_ne hki]
      simp only [exchanged, hlow, hhigh]

/-- The round keys before number `a` exchanged with those at the other end, out of `nr + 1`. -/
def reversed (w : Nat → Column) (nr a k : Nat) : Column :=
  if k / 4 < a ∨ nr < k / 4 + a then w (4 * (nr - k / 4) + k % 4) else w k

theorem exchanged_reversed {nr a k : Nat} (ha : 2 * a < nr) (hk : k < 4 * (nr + 1)) :
    exchanged (reversed w nr a) (4 * a) (4 * (nr - a)) 4 k = reversed w nr (a + 1) k := by
  rw [exchanged]
  by_cases hlow : 4 * a ≤ k ∧ k < 4 * a + 4
  · rw [if_pos hlow, reversed, reversed, if_neg (by omega), if_pos (by omega)]
    congr 1
    omega
  by_cases hhigh : 4 * (nr - a) ≤ k ∧ k < 4 * (nr - a) + 4
  · rw [if_neg hlow, if_pos hhigh, reversed, reversed, if_neg (by omega), if_pos (by omega)]
    congr 1
    omega
  have hiff : k / 4 < a ∨ nr < k / 4 + a ↔ k / 4 < a + 1 ∨ nr < k / 4 + (a + 1) := by omega
  rw [if_neg hlow, if_neg hhigh]
  simp only [reversed, hiff]

theorem Upto.reverseKeys {nr fuel a : Nat} (hfuel : nr < fuel + a) (ha : 2 * a ≤ nr + 1)
    (h : Upto size (reversed w nr a) (4 * (nr + 1)) rk) :
    Ends (reverseKeys fuel rk (4 * a) (4 * (nr - a)))
      (Upto size (fun k => w (4 * (nr - k / 4) + k % 4)) (4 * (nr + 1))) fun _ => False := by
  induction fuel generalizing a rk with
  | zero => omega
  | succ fuel ih =>
    rw [Rijndael.reverseKeys]
    by_cases hlt : 4 * a < 4 * (nr - a)
    · rw [if_pos hlt]
      have h0 : Upto size (exchanged (reversed w nr a) (4 * a) (4 * (nr - a)) 0) (4 * (nr + 1)) rk :=
        h.congr fun k _ => by rw [exchanged, if_neg (by omega), if_neg (by omega)]
      apply (h0.swapWords (by omega) (by omega) (by omega)).bind
      intro rk h1
      apply (h1.swapWords (by omega) (by omega) (by omega)).bind
      intro rk h2
      apply (h2.swapWords (by omega) (by omega) (by omega)).bind
      intro rk h3
      apply (h3.swapWords (by omega) (by omega) (by omega)).bind
      intro rk h4
      rw [show 4 * a + 4 = 4 * (a + 1) by omega, show 4 * (nr - a) - 4 = 4 * (nr - (a + 1)) by omega]
      exact ih (by omega) (by omega) (h4.congr fun k hk => exchanged_reversed (by omega) hk)
    · rw [if_neg hlt]
      apply h.congr
      intro k hk
      rw [reversed]
      split
      · rfl
      · congr 1
        omega

/-- The words from 4 to `m + 3` unmixed. -/
def unmixed (w : Nat → Column) (m k : Nat) : Column :=
  if 4 ≤ k ∧ k < 4 + m then (w k).unmix else w k

theorem Upto.unmixWord {m k : Nat} (h : Upto size (unmixed w m) n rk) (hk : k = 4 + m)
    (hn : k < n) : Ends (unmixWord rk k) (Upto size (unmixed w (m + 1)) n) fun _ => False := by
  have hread := h.2.read hn
  have hentry : ∀ b : UInt8, (Column.same (sbox b)).word &&& 0xff = (sbox b).toNat :=
    fun b => Column.word_low _
  rw [unmixed, if_neg (by omega)] at hread
  have hmix := mixBytes_td ((w k).map sbox)
  have hback : ((w k).map sbox).map sbox.symm = w k := by
    simp [Column.map]
  rw [hback] at hmix
  simp only [Rijndael.unmixWord, hread, te4_eq, Column.word_shift24, Column.word_shift16,
    Column.word_shift8, Column.word_low, lookup_tableOf, hentry, bind, Except.bind]
  simp only [Column.map] at hmix
  simp only [hmix]
  apply (h.overwrite hn rfl).mono _ (fun _ he => he)
  intro rk h1
  apply h1.congr
  intro i _
  by_cases hik : i = k
  · subst hik
    rw [Function.update_self, unmixed, if_pos (by omega)]
  · have hiff : 4 ≤ i ∧ i < 4 + m ↔ 4 ≤ i ∧ i < 4 + (m + 1) := by omega
    rw [Function.update_of_ne hik]
    simp only [unmixed, hiff]

theorem Upto.unmixKeys {d r : Nat} (h : Upto size (unmixed w (4 * r)) n rk)
    (hn : 4 * (r + d) + 4 ≤ n) :
    Ends (unmixKeys d rk (4 * r)) (Upto size (unmixed w (4 * (r + d))) n) fun _ => False := by
  induction d generalizing r rk with
  | zero => exact h
  | succ d ih =>
    rw [Rijndael.unmixKeys]
    apply (h.unmixWord (by omega) (by omega)).bind
    intro rk h1
    apply (h1.unmixWord (by omega) (by omega)).bind
    intro rk h2
    apply (h2.unmixWord (by omega) (by omega)).bind
    intro rk h3
    apply (h3.unmixWord (by omega) (by omega)).bind
    intro rk h4
    have hnext := ih (r := r + 1) h4 (by omega)
    rw [show r + 1 + d = r + (d + 1) by omega] at hnext
    exact hnext

end

/-- The words of a sequence of round keys. -/
def keyWords (k : Nat → State) (i : Nat) : Column :=
  if i % 4 = 0 then (k (i / 4)).c0
  else if i % 4 = 1 then (k (i / 4)).c1
  else if i % 4 = 2 then (k (i / 4)).c2
  else (k (i / 4)).c3

theorem roundKey_keyWords (k : Nat → State) : roundKey (keyWords k) = k := by
  funext r
  have hdiv : ∀ c < 4, (4 * r + c) / 4 = r := by
    intro c hc
    omega
  have h0 : 4 * r / 4 = r := by omega
  simp [roundKey, keyWords, h0, hdiv]

/-- The round keys that the decryption of a key takes. -/
def inverseSchedule (bs : List UInt8) (keybits : Nat) : Nat → Column :=
  keyWords (State.layers.inverseKey (roundKey (schedule bs keybits)) (nRounds keybits - 1))

/-- Reversing the order and unmixing makes the round keys of the inverse cipher. -/
theorem unmixed_reversed (w : Nat → Column) {m k : Nat} (hk : k < 4 * (m + 2)) :
    unmixed (fun k => w (4 * (m + 1 - k / 4) + k % 4)) (4 * m) k =
      keyWords (State.layers.inverseKey (roundKey w) m) k := by
  have hmod : k % 4 = 0 ∨ k % 4 = 1 ∨ k % 4 = 2 ∨ k % 4 = 3 := by omega
  by_cases hend : k / 4 = 0 ∨ k / 4 = m + 1
  · have hkey : State.layers.inverseKey (roundKey w) m (k / 4) = roundKey w (m + 1 - k / 4) := by
      rw [Layers.inverseKey, if_pos hend]
    rw [unmixed, if_neg (by omega), keyWords, hkey]
    rcases hmod with h | h | h | h <;> simp [h, roundKey]
  · have hkey : State.layers.inverseKey (roundKey w) m (k / 4) =
        (roundKey w (m + 1 - k / 4)).map Column.unmix := by
      rw [Layers.inverseKey, if_neg hend]
      rfl
    rw [unmixed, if_pos (by omega), keyWords, hkey]
    rcases hmod with h | h | h | h <;> simp [h, roundKey, State.map]

theorem rijndaelSetupDecrypt_spec {rk : Buf Nat} {key : Buf UInt8} {bs : List UInt8}
    {keybits : Nat} (hbits : KeyBits keybits) (hrk : rkLength keybits ≤ rk.size)
    (hkey : key.Holds 0 bs) (hbs : bs.length ≤ key.size) (hlen : bs.length = keyLength keybits) :
    Ends (rijndaelSetupDecrypt rk key keybits) (fun r => r.2 = nRounds keybits ∧
      Upto rk.size (inverseSchedule bs keybits) (4 * (nRounds keybits + 1)) r.1)
      fun _ => False := by
  obtain ⟨m, hm⟩ : ∃ m, nRounds keybits = m + 1 := ⟨keybits / 32 + 5, rfl⟩
  rw [rijndaelSetupDecrypt, inverseSchedule, hm]
  apply (rijndaelSetupEncrypt_spec hbits hrk hkey hbs hlen).bind
  intro r hr
  obtain ⟨rk', nrounds⟩ := r
  obtain ⟨hrounds, h⟩ := hr
  rw [hm] at hrounds h
  obtain rfl : nrounds = m + 1 := hrounds
  have h0 : Upto rk.size (reversed (schedule bs keybits) (m + 1) 0) (4 * (m + 1 + 1)) rk' :=
    h.congr fun k hk => by rw [reversed, if_neg (by omega)]
  apply (h0.reverseKeys (by omega) (by omega)).bind
  intro rk1 h1
  have h2 : Upto rk.size (unmixed (fun k => schedule bs keybits (4 * (m + 1 - k / 4) + k % 4))
      (4 * 0)) (4 * (m + 1 + 1)) rk1 :=
    h1.congr fun k _ => by rw [unmixed, if_neg (by omega)]
  apply (h2.unmixKeys (by omega)).bind
  intro rk2 h3
  refine ⟨rfl, h3.congr ?_⟩
  intro k hk
  rw [Nat.zero_add]
  exact unmixed_reversed _ hk

end NdsDevkit.Rijndael
