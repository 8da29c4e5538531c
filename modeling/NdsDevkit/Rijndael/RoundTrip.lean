import NdsDevkit.Rijndael.InverseSchedule

namespace NdsDevkit.Rijndael

open Framework

/-- The cipher of a key, without tables. -/
def standardCipher (key : List UInt8) (keybits : Nat) (s : State) : State :=
  State.layers.encrypt (roundKey (schedule key keybits)) (nRounds keybits - 1) s

def standardInverse (key : List UInt8) (keybits : Nat) (s : State) : State :=
  State.layers.decrypt (roundKey (inverseSchedule key keybits)) (nRounds keybits - 1) s

theorem standardInverse_standardCipher (key : List UInt8) (keybits : Nat) (s : State) :
    standardInverse key keybits (standardCipher key keybits s) = s := by
  rw [standardInverse, inverseSchedule, roundKey_keyWords, standardCipher]
  exact Layers.decrypt_encrypt _ _ _ s

theorem standardCipher_standardInverse (key : List UInt8) (keybits : Nat) (s : State) :
    standardCipher key keybits (standardInverse key keybits s) = s := by
  rw [standardInverse, inverseSchedule, roundKey_keyWords, standardCipher]
  exact Layers.encrypt_decrypt _ _ _ s

/-- The state of a block of 16 bytes. -/
def State.ofBytes (text : List UInt8) : State :=
  ⟨columnOf text 0, columnOf text 1, columnOf text 2, columnOf text 3⟩

theorem State.length_bytes (s : State) : s.bytes.length = 16 := rfl

theorem State.bytes_ofBytes {text : List UInt8} (h : text.length = 16) :
    (ofBytes text).bytes = text := by
  match text, h with
  | [_, _, _, _, _, _, _, _, _, _, _, _, _, _, _, _], _ => rfl

theorem State.ofBytes_bytes (s : State) : ofBytes s.bytes = s := rfl

theorem nRounds_cases {keybits : Nat} (h : KeyBits keybits) :
    nRounds keybits = 10 ∨ nRounds keybits = 12 ∨ nRounds keybits = 14 := by
  rcases h with rfl | rfl | rfl <;> decide

/-- A key that is expanded into a buffer with room for the schedule. -/
structure Expansion (rk : Buf Nat) (key : Buf UInt8) (bs : List UInt8) (keybits : Nat) : Prop where
  bits : KeyBits keybits
  room : rkLength keybits ≤ rk.size
  holds : key.Holds 0 bs
  size_le : bs.length ≤ key.size
  length_eq : bs.length = keyLength keybits

theorem Expansion.setupEncrypt {rk : Buf Nat} {key : Buf UInt8} {bs : List UInt8} {keybits : Nat}
    (h : Expansion rk key bs keybits) :
    ∃ rk', rijndaelSetupEncrypt rk key keybits = .ok (rk', nRounds keybits) ∧
      rk'.size = rk.size ∧ Filled rk' (schedule bs keybits) (4 * (nRounds keybits + 1)) := by
  have hspec := rijndaelSetupEncrypt_spec h.bits h.room h.holds h.size_le h.length_eq
  obtain ⟨r, hr, hn, hsize, hfilled⟩ := hspec.ok_of_not (fun _ => id)
  obtain ⟨rk', n⟩ := r
  obtain rfl : n = nRounds keybits := hn
  exact ⟨rk', hr, hsize, hfilled⟩

theorem Expansion.setupDecrypt {rk : Buf Nat} {key : Buf UInt8} {bs : List UInt8} {keybits : Nat}
    (h : Expansion rk key bs keybits) :
    ∃ rk', rijndaelSetupDecrypt rk key keybits = .ok (rk', nRounds keybits) ∧
      rk'.size = rk.size ∧ Filled rk' (inverseSchedule bs keybits) (4 * (nRounds keybits + 1)) := by
  have hspec := rijndaelSetupDecrypt_spec h.bits h.room h.holds h.size_le h.length_eq
  obtain ⟨r, hr, hn, hsize, hfilled⟩ := hspec.ok_of_not (fun _ => id)
  obtain ⟨rk', n⟩ := r
  obtain rfl : n = nRounds keybits := hn
  exact ⟨rk', hr, hsize, hfilled⟩

/-- The key of a connection, which has 16 bytes. -/
theorem Expansion.ofList {bs : List UInt8} (h : bs.length = 16) :
    Expansion (.fresh (rkLength 128)) (.ofList bs) bs 128 :=
  ⟨.inl rfl, Nat.le_refl _, Buf.holds_ofList bs, Nat.le_refl _, h⟩

/-- The tables compute the cipher for the three key sizes: the key is expanded within its buffer,
and the block goes to the target, which may be the source, in place. -/
theorem rijndaelEncrypt_standard {rk : Buf Nat} {key : Buf UInt8} {bs : List UInt8} {keybits : Nat}
    (h : Expansion rk key bs keybits) :
    ∃ rk', rijndaelSetupEncrypt rk key keybits = .ok (rk', nRounds keybits) ∧
      rk'.size = rk.size ∧
      ∀ (p q : Buf UInt8) (i j : Nat) (text : List UInt8), text.length = 16 → p.Holds i text →
        i + 16 ≤ p.size → j + 16 ≤ q.size →
        rijndaelEncrypt rk' (nRounds keybits) p i q j =
          .ok (q.put j (standardCipher bs keybits (.ofBytes text)).bytes) := by
  obtain ⟨rk', hr, hsize, hfilled⟩ := h.setupEncrypt
  refine ⟨rk', hr, hsize, ?_⟩
  intro p q i j text hlen hp hi hj
  rw [← State.bytes_ofBytes hlen] at hp
  exact rijndaelEncrypt_eq (nRounds_cases h.bits) hfilled hp hi hj

theorem rijndaelEncrypt_standard_zeros :
    Expansion (.fresh 44) (.ofList (List.replicate 16 0)) (List.replicate 16 0) 128 ∧
    ∃ rk' : Buf Nat, rijndaelSetupEncrypt (.fresh 44) (.ofList (List.replicate 16 0)) 128 =
        .ok (rk', 10) ∧ rk'.size = 44 ∧
      ∀ (p q : Buf UInt8) (i j : Nat) (text : List UInt8), text.length = 16 → p.Holds i text →
        i + 16 ≤ p.size → j + 16 ≤ q.size →
        rijndaelEncrypt rk' 10 p i q j =
          .ok (q.put j (standardCipher (List.replicate 16 0) 128 (.ofBytes text)).bytes) :=
  ⟨.ofList rfl, rijndaelEncrypt_standard (.ofList rfl)⟩

/-- The decryption schedule undoes what the encryption schedule does, and the other way round. -/
theorem rijndaelDecrypt_rijndaelEncrypt {rk dk : Buf Nat} {key : Buf UInt8} {bs : List UInt8}
    {keybits : Nat} (h : Expansion rk key bs keybits) (hd : rkLength keybits ≤ dk.size) :
    ∃ rk' dk', rijndaelSetupEncrypt rk key keybits = .ok (rk', nRounds keybits) ∧
      rijndaelSetupDecrypt dk key keybits = .ok (dk', nRounds keybits) ∧
      ∀ (p q : Buf UInt8) (i j : Nat) (text : List UInt8), text.length = 16 → p.Holds i text →
        i + 16 ≤ p.size → j + 16 ≤ q.size → ∃ c d,
          rijndaelEncrypt rk' (nRounds keybits) p i q j = .ok c ∧
          rijndaelDecrypt dk' (nRounds keybits) c j p i = .ok (p.put i text) ∧
          rijndaelDecrypt dk' (nRounds keybits) p i q j = .ok d ∧
          rijndaelEncrypt rk' (nRounds keybits) d j p i = .ok (p.put i text) := by
  obtain ⟨rk', hr, _, hfilled⟩ := h.setupEncrypt
  obtain ⟨dk', hdr, _, hdfilled⟩ :=
    (Expansion.mk h.bits hd h.holds h.size_le h.length_eq).setupDecrypt
  refine ⟨rk', dk', hr, hdr, ?_⟩
  intro p q i j text hlen hp hi hj
  have hn := nRounds_cases h.bits
  rw [← State.bytes_ofBytes hlen] at hp
  have henc := rijndaelEncrypt_eq hn hfilled hp hi hj
  have hdec := rijndaelDecrypt_eq hn hdfilled hp hi hj
  refine ⟨_, _, henc, ?_, hdec, ?_⟩
  · have hback := rijndaelDecrypt_eq hn hdfilled
      (Buf.Holds.put_same q j (standardCipher bs keybits (.ofBytes text)).bytes) hj hi
    rw [← standardInverse, standardInverse_standardCipher, State.bytes_ofBytes hlen] at hback
    exact hback
  · have hback := rijndaelEncrypt_eq hn hfilled
      (Buf.Holds.put_same q j (standardInverse bs keybits (.ofBytes text)).bytes) hj hi
    rw [← standardCipher, standardCipher_standardInverse, State.bytes_ofBytes hlen] at hback
    exact hback

theorem rijndaelDecrypt_rijndaelEncrypt_zeros :
    ∃ rk' dk', rijndaelSetupEncrypt (.fresh 44) (.ofList (List.replicate 16 0)) 128 =
        .ok (rk', 10) ∧
      rijndaelSetupDecrypt (.fresh 44) (.ofList (List.replicate 16 0)) 128 = .ok (dk', 10) ∧
      ∀ (p q : Buf UInt8) (i j : Nat) (text : List UInt8), text.length = 16 → p.Holds i text →
        i + 16 ≤ p.size → j + 16 ≤ q.size → ∃ c d,
          rijndaelEncrypt rk' 10 p i q j = .ok c ∧
          rijndaelDecrypt dk' 10 c j p i = .ok (p.put i text) ∧
          rijndaelDecrypt dk' 10 p i q j = .ok d ∧
          rijndaelEncrypt rk' 10 d j p i = .ok (p.put i text) :=
  rijndaelDecrypt_rijndaelEncrypt (.ofList rfl) (Nat.le_refl 44)

end NdsDevkit.Rijndael
