import NdsDevkit.Rijndael.Rounds

namespace NdsDevkit.Rijndael

open Framework

section

variable {key : Nat → Column} {nk : Nat}

theorem scheduleWord_key {i : Nat} (hi : i < nk) : scheduleWord key nk i = key i := by
  rw [scheduleWord, if_pos (.inl hi)]

theorem scheduleWord_head (hnk : 4 ≤ nk) (i : Nat) : scheduleWord key nk (nk * i + nk) =
    ((scheduleWord key nk (nk * i)).add
      ((scheduleWord key nk (nk * i + nk - 1)).rotate.map sbox)).add (roundConstant (i + 1)) := by
  have hmod : (nk * i + nk) % nk = 0 := by simp
  have hdiv : (nk * i + nk) / nk = i + 1 := by
    rw [← Nat.mul_succ, Nat.mul_div_cancel_left _ (by omega)]
  rw [scheduleWord, if_neg (by omega), hmod, hdiv, if_pos rfl, Nat.add_sub_cancel]
  simp only [Column.add, UInt8.xor_assoc]

theorem scheduleWord_chain {i : Nat} (hnk : 0 < nk) (hi : nk ≤ i) (hmod : i % nk ≠ 0)
    (hsub : ¬ (nk > 6 ∧ i % nk = 4)) : scheduleWord key nk i =
      (scheduleWord key nk (i - nk)).add (scheduleWord key nk (i - 1)) := by
  rw [scheduleWord, if_neg (by omega), if_neg hmod, if_neg hsub]

theorem scheduleWord_sub (key : Nat → Column) (i : Nat) (hi : 8 ≤ i) (hmod : i % 8 = 4) :
    scheduleWord key 8 i = (scheduleWord key 8 (i - 8)).add
      ((scheduleWord key 8 (i - 1)).map sbox) := by
  rw [scheduleWord, if_neg (by omega), if_neg (by omega), if_pos ⟨by omega, hmod⟩]

end

theorem rcon_eq : rcon = (List.range 10).map fun i => (roundConstant (i + 1)).word := by decide

theorem substituteBytes_rotate (v : Column) : substituteBytes te4 (v.word >>> 16 &&& 0xff)
    (v.word >>> 8 &&& 0xff) (v.word &&& 0xff) (v.word >>> 24) = .ok (v.rotate.map sbox).word := by
  rw [v.word_shift24, v.word_shift16, v.word_shift8, v.word_low, te4_eq]
  exact substituteBytes_tableOf sbox v.rotate

theorem substituteBytes_word (v : Column) : substituteBytes te4 (v.word >>> 24)
    (v.word >>> 16 &&& 0xff) (v.word >>> 8 &&& 0xff) (v.word &&& 0xff) =
      .ok (v.map sbox).word := by
  rw [v.word_shift24, v.word_shift16, v.word_shift8, v.word_low, te4_eq]
  exact substituteBytes_tableOf sbox v

/-- The buffer has kept its size and holds the first `n` words of a schedule. -/
def Upto (size : Nat) (w : Nat → Column) (n : Nat) (rk : Buf Nat) : Prop :=
  rk.size = size ∧ Filled rk w n

section

variable {size n : Nat} {w : Nat → Column} {rk : Buf Nat}

/-- The next word of a schedule. -/
theorem Upto.write (h : Upto size w n rk) (hn : n < size) {v : Nat} (hv : v = (w n).word) :
    Ends (rk.write n v) (Upto size w (n + 1)) fun _ => False := by
  obtain ⟨hsize, hrk⟩ := h
  subst hv
  rw [Buf.write_eq _ (by omega)]
  refine ⟨hsize, by rw [Buf.size_put]; omega, ?_⟩
  intro i hi
  by_cases hin : i = n
  · subst hin
    rw [Buf.cells_put_of_mem _ (by omega) (by simp)]
    simp
  · rw [Buf.cells_put_of_not_mem _ (by simp; omega)]
    exact hrk.cells_eq i (by omega)

theorem Upto.chainWord {key : Nat → Column} {nk : Nat} (h : Upto size (scheduleWord key nk) n rk)
    (hnk : 0 < nk) (hle : nk ≤ n) (hn : n < size) (hmod : n % nk ≠ 0)
    (hsub : ¬ (nk > 6 ∧ n % nk = 4)) :
    Ends (chainWord nk rk n) (Upto size (scheduleWord key nk) (n + 1)) fun _ => False := by
  have hw := h.2.read (i := n - nk) (by omega)
  have hv := h.2.read (i := n - 1) (by omega)
  simp only [Rijndael.chainWord, hw, hv, bind, Except.bind]
  apply h.write hn
  rw [scheduleWord_chain hnk hle hmod hsub, Column.word_add]

/-- The head of a pass adds four words. -/
theorem Upto.expandHead {key : Nat → Column} {nk i : Nat}
    (h : Upto size (scheduleWord key nk) (nk * i + nk) rk) (hnk : 4 ≤ nk) (hi : i < 10)
    (hn : nk * i + nk + 4 ≤ size) :
    Ends (expandHead nk rk (nk * i) i) (Upto size (scheduleWord key nk) (nk * i + nk + 4))
      fun _ => False := by
  have htemp := h.2.read (i := nk * i + nk - 1) (by omega)
  have hw := h.2.read (i := nk * i) (by omega)
  have hc : lookup rcon i = .ok (roundConstant (i + 1)).word := by
    rw [rcon_eq, lookup_map_range _ hi]
  have hmod : ∀ j, 0 < j → j < 4 → (nk * i + nk + j) % nk = j := by
    intro j _ hj
    rw [← Nat.mul_succ, Nat.mul_add_mod, Nat.mod_eq_of_lt (by omega)]
  simp only [Rijndael.expandHead, htemp, hw, hc, substituteBytes_rotate, bind, Except.bind]
  apply (h.write (by omega) (by
    rw [scheduleWord_head hnk, Column.word_add, Column.word_add])).bind
  intro rk h1
  apply (h1.chainWord (by omega) (by omega) (by omega)
    (by rw [hmod 1 (by omega) (by omega)]; omega)
    (by rw [hmod 1 (by omega) (by omega)]; omega)).bind
  intro rk h2
  apply (h2.chainWord (by omega) (by omega) (by omega)
    (by rw [hmod 2 (by omega) (by omega)]; omega)
    (by rw [hmod 2 (by omega) (by omega)]; omega)).bind
  intro rk h3
  exact h3.chainWord (by omega) (by omega) (by omega)
    (by rw [hmod 3 (by omega) (by omega)]; omega)
    (by rw [hmod 3 (by omega) (by omega)]; omega)

/-- What the tail of a pass adds to the head makes the pass complete. -/
def Completes (nk size : Nat) (tail : Buf Nat → Nat → Except Stop (Buf Nat)) : Prop :=
  ∀ (key : Nat → Column) (rk : Buf Nat) (i : Nat), nk * i + nk + nk ≤ size →
    Upto size (scheduleWord key nk) (nk * i + nk + 4) rk →
    Ends (tail rk (nk * i)) (Upto size (scheduleWord key nk) (nk * i + nk + nk)) fun _ => False

theorem completes_expandTail128 : Completes 4 size expandTail128 := fun _ _ _ _ h => h

theorem completes_expandTail192 : Completes 6 size expandTail192 := by
  intro key rk i hsize h
  rw [expandTail192]
  apply (h.chainWord (by omega) (by omega) (by omega) (by omega) (by omega)).bind
  intro rk h1
  exact h1.chainWord (by omega) (by omega) (by omega) (by omega) (by omega)

theorem completes_expandTail256 : Completes 8 size expandTail256 := by
  intro key rk i hsize h
  have htemp := h.2.read (i := 8 * i + 11) (by omega)
  have hw := h.2.read (i := 8 * i + 4) (by omega)
  simp only [expandTail256, htemp, hw, substituteBytes_word, bind, Except.bind]
  have hword := scheduleWord_sub key (8 * i + 12) (by omega) (by omega)
  apply (h.write (by omega) (by
    rw [hword, Column.word_add]
    rfl)).bind
  intro rk h1
  apply (h1.chainWord (by omega) (by omega) (by omega) (by omega) (by omega)).bind
  intro rk h2
  apply (h2.chainWord (by omega) (by omega) (by omega) (by omega) (by omega)).bind
  intro rk h3
  exact h3.chainWord (by omega) (by omega) (by omega) (by omega) (by omega)

/-- The passes from number `i` to the last one. -/
theorem Upto.expandLoop {key : Nat → Column} {nk last : Nat}
    {tail : Buf Nat → Nat → Except Stop (Buf Nat)} (htail : Completes nk size tail) (hnk : 4 ≤ nk)
    (hlast : last ≤ 10) (hsize : nk * last + 4 ≤ size) {fuel i : Nat} (hi : i < last)
    (hfuel : last - i ≤ fuel) (h : Upto size (scheduleWord key nk) (nk * i + nk) rk) :
    Ends (expandLoop nk last tail fuel rk (nk * i) i)
      (Upto size (scheduleWord key nk) (nk * last + 4)) fun _ => False := by
  induction fuel generalizing i rk with
  | zero => omega
  | succ fuel ih =>
    have hle : nk * i + nk ≤ nk * last := Nat.mul_le_mul_left nk hi
    rw [Rijndael.expandLoop]
    apply (h.expandHead hnk (by omega) (by omega)).bind
    intro rk h1
    by_cases hend : i + 1 = last
    · subst hend
      rw [if_pos rfl]
      exact h1
    · have hnext : nk * (i + 1 + 1) ≤ nk * last := Nat.mul_le_mul_left nk (by omega)
      rw [Nat.mul_succ, Nat.mul_succ] at hnext
      rw [if_neg hend]
      apply (htail key rk i (by omega) h1).bind
      intro rk h2
      exact ih (i := i + 1) (by omega) (by omega) h2

end

/-- Column `i` of the bytes of a key or a block. -/
def columnOf (bs : List UInt8) (i : Nat) : Column :=
  ⟨bs.getD (4 * i) 0, bs.getD (4 * i + 1) 0, bs.getD (4 * i + 2) 0, bs.getD (4 * i + 3) 0⟩

theorem holds_columnOf {key : Buf UInt8} {bs : List UInt8} (h : key.Holds 0 bs) {i : Nat}
    (hi : 4 * i + 4 ≤ bs.length) : key.Holds (4 * i) (columnOf bs i).bytes := by
  have hcell : ∀ k < 4, key.cells (4 * i + k) = some (bs.getD (4 * i + k) 0) := by
    intro k hk
    have hb := h (4 * i + k) (by omega)
    rw [Nat.zero_add] at hb
    rw [hb, List.getD_eq_getElem?_getD, List.getElem?_eq_getElem (by omega)]
    rfl
  intro k hk
  have hk : k < 4 := hk
  rw [hcell k hk]
  rcases (by omega : k = 0 ∨ k = 1 ∨ k = 2 ∨ k = 3) with rfl | rfl | rfl | rfl <;> rfl

theorem Upto.keyWord {key : Buf UInt8} {bs : List UInt8} {nk size n : Nat} {rk : Buf Nat}
    (h : Upto size (scheduleWord (columnOf bs) nk) n rk) (hkey : key.Holds 0 bs)
    (hbs : bs.length ≤ key.size) (hlen : 4 * nk ≤ bs.length) (hn : n < nk) (hsize : n < size) :
    Ends (keyWord key rk n) (Upto size (scheduleWord (columnOf bs) nk) (n + 1)) fun _ => False := by
  have hget := getU32_eq (holds_columnOf hkey (i := n) (by omega)) (by omega)
  simp only [Rijndael.keyWord, hget, bind, Except.bind]
  exact h.write hsize (by rw [scheduleWord_key hn])

/-- The key sizes that the expansion knows. -/
def KeyBits (keybits : Nat) : Prop := keybits = 128 ∨ keybits = 192 ∨ keybits = 256

/-- The schedule of a key. -/
def schedule (bs : List UInt8) (keybits : Nat) : Nat → Column :=
  scheduleWord (columnOf bs) (keybits / 32)

/-- The expanded key is the schedule, whatever the buffer held before. -/
theorem rijndaelSetupEncrypt_spec {rk : Buf Nat} {key : Buf UInt8} {bs : List UInt8}
    {keybits : Nat} (hbits : KeyBits keybits) (hrk : rkLength keybits ≤ rk.size)
    (hkey : key.Holds 0 bs) (hbs : bs.length ≤ key.size) (hlen : bs.length = keyLength keybits) :
    Ends (rijndaelSetupEncrypt rk key keybits) (fun r => r.2 = nRounds keybits ∧
      Upto rk.size (schedule bs keybits) (4 * (nRounds keybits + 1)) r.1) fun _ => False := by
  have h0 : Upto rk.size (schedule bs keybits) 0 rk := ⟨rfl, Nat.zero_le _, by simp⟩
  have hword : ∀ n rk', n < keybits / 32 → Upto rk.size (schedule bs keybits) n rk' →
      Ends (keyWord key rk' n) (Upto rk.size (schedule bs keybits) (n + 1)) fun _ => False := by
    intro n rk' hn h
    have hk : 4 * (keybits / 32) ≤ bs.length := by
      rw [hlen, keyLength]
      omega
    have hs : n < rk.size := by
      rw [rkLength] at hrk
      omega
    exact h.keyWord hkey hbs hk hn hs
  have hnk : 4 ≤ keybits / 32 := by
    rcases hbits with rfl | rfl | rfl <;> decide
  rw [rijndaelSetupEncrypt]
  apply (hword 0 rk (by omega) h0).bind
  intro rk h1
  apply (hword 1 rk (by omega) h1).bind
  intro rk h2
  apply (hword 2 rk (by omega) h2).bind
  intro rk h3
  apply (hword 3 rk (by omega) h3).bind
  intro rk h4
  rcases hbits with rfl | rfl | rfl
  · rw [if_pos rfl]
    apply (Upto.expandLoop (i := 0) completes_expandTail128 (by decide) (by decide) hrk (by decide)
      (by decide) h4).bind
    intro rk h
    exact ⟨rfl, h⟩
  · rw [if_neg (by decide)]
    apply (hword 4 rk (by decide) h4).bind
    intro rk h5
    apply (hword 5 rk (by decide) h5).bind
    intro rk h6
    rw [if_pos rfl]
    apply (Upto.expandLoop (i := 0) completes_expandTail192 (by decide) (by decide) hrk (by decide)
      (by decide) h6).bind
    intro rk h
    exact ⟨rfl, h⟩
  · rw [if_neg (by decide)]
    apply (hword 4 rk (by decide) h4).bind
    intro rk h5
    apply (hword 5 rk (by decide) h5).bind
    intro rk h6
    rw [if_neg (by decide)]
    apply (hword 6 rk (by decide) h6).bind
    intro rk h7
    apply (hword 7 rk (by decide) h7).bind
    intro rk h8
    rw [if_pos rfl]
    apply (Upto.expandLoop (i := 0) completes_expandTail256 (by decide) (by decide) hrk (by decide)
      (by decide) h8).bind
    intro rk h
    exact ⟨rfl, h⟩

end NdsDevkit.Rijndael
