import NdsDevkit.Compress.Uri
import NdsDevkit.Page.Encryption
import NdsDevkit.Rijndael.RoundTrip

namespace NdsDevkit.Compress

open Framework Page Rijndael

def aesEncryptionKeyBits : Nat := 128

/-- The schedules that belong to a password. -/
structure AesSchedules where
  EncryptBuffer : Buf Nat
  EncryptRounds : Nat
  DecryptBuffer : Buf Nat
  DecryptRounds : Nat

/-- What a cipher makes of a block; texts that are not a block stay as they are. -/
def blockThrough (f : Buf UInt8 → Nat → Buf UInt8 → Nat → Except Stop (Buf UInt8))
    (b : List UInt8) : List UInt8 :=
  if b.length = 16 then
    match f (.ofList b) 0 (.fresh 16) 0 with
    | .ok c => (c.slice 0 16).getD b
    | .error _ => b
  else b

theorem length_blockThrough (f : Buf UInt8 → Nat → Buf UInt8 → Nat → Except Stop (Buf UInt8))
    (b : List UInt8) : (blockThrough f b).length = b.length := by
  rw [blockThrough]
  split
  · next h16 =>
    split
    · next c _ =>
      cases hs : c.slice 0 16 with
      | none => rfl
      | some xs => rw [Option.getD_some, Buf.length_of_slice hs, h16]
    · rfl
  · rfl

/-- The block cipher of the schedules. -/
def AesSchedules.cipher (s : AesSchedules) : BlockCipher where
  rijndaelEncrypt := blockThrough (Rijndael.rijndaelEncrypt s.EncryptBuffer s.EncryptRounds)
  rijndaelDecrypt := blockThrough (Rijndael.rijndaelDecrypt s.DecryptBuffer s.DecryptRounds)
  length_encrypt := length_blockThrough _
  length_decrypt := length_blockThrough _

/-- `AesKey[i] = *zPasswd != 0 ? *zPasswd++ : 0`, for the last `n` bytes of the key. -/
def aesKey : Nat → List UInt8 → List UInt8
  | 0, _ => []
  | n + 1, zPasswd =>
    if zPasswd.headD 0 = 0 then 0 :: aesKey n zPasswd
    else zPasswd.headD 0 :: aesKey n zPasswd.tail

/-- Expands the key in both directions. -/
def setupSchedules (key : List UInt8) : Except Stop AesSchedules := do
  let (EncryptBuffer, EncryptRounds) ← rijndaelSetupEncrypt
    (.fresh (rkLength aesEncryptionKeyBits)) (.ofList key) aesEncryptionKeyBits
  let (DecryptBuffer, DecryptRounds) ← rijndaelSetupDecrypt
    (.fresh (rkLength aesEncryptionKeyBits)) (.ofList key) aesEncryptionKeyBits
  return ⟨EncryptBuffer, EncryptRounds, DecryptBuffer, DecryptRounds⟩

/-- Encryption is used when there is a password; all algorithms have both directions of it. -/
def aesEncryptionSetup (zPasswd : Option (List UInt8)) : Except Stop ZipvfsInst :=
  match zPasswd with
  | none => return ⟨none⟩
  | some zPasswd => do
    let s ← setupSchedules (aesKey (keyLength aesEncryptionKeyBits) zPasswd)
    return ⟨some ⟨s.cipher, .fresh 0⟩⟩

theorem length_aesKey (n : Nat) (z : List UInt8) : (aesKey n z).length = n := by
  induction n generalizing z with
  | zero => rfl
  | succ n ih =>
    rw [aesKey]
    split <;> rw [List.length_cons, ih]

/-- The key is the start of the password with zeros behind it. -/
theorem aesKey_eq (n : Nat) (z : List UInt8) :
    aesKey n z = (cstring z ++ List.replicate n 0).take n := by
  induction n generalizing z with
  | zero => simp [aesKey]
  | succ n ih =>
    have htake : ∀ xs : List UInt8, (xs ++ List.replicate n 0 ++ [0]).take n =
        (xs ++ List.replicate n 0).take n :=
      fun xs => List.take_append_of_le_length (by simp)
    cases z with
    | nil =>
      have hnil := ih []
      rw [cstring, List.takeWhile_nil, List.nil_append] at hnil ⊢
      rw [aesKey, if_pos (show ([] : List UInt8).headD 0 = 0 from rfl), hnil]
      simp [List.replicate_succ]
    | cons b z =>
      by_cases hb : b = 0
      · have hzero := ih (b :: z)
        have hempty : cstring (b :: z) = [] := by simp [cstring, hb]
        rw [hempty, List.nil_append] at hzero ⊢
        rw [aesKey, List.headD_cons, if_pos hb, hzero]
        simp [List.replicate_succ]
      · have hcons : cstring (b :: z) = b :: cstring z := by simp [cstring, hb]
        rw [aesKey, List.headD_cons, if_neg hb, List.tail_cons, ih, hcons, List.cons_append,
          List.take_succ_cons, List.replicate_succ', ← List.append_assoc, htake]

/-- A cipher that is the same function `g` on every block and for all buffers. -/
theorem blockThrough_eq {f : Buf UInt8 → Nat → Buf UInt8 → Nat → Except Stop (Buf UInt8)}
    {g : List UInt8 → List UInt8} (hg : ∀ text, (g text).length = 16)
    (hf : ∀ (p q : Buf UInt8) (i j : Nat) (text : List UInt8), text.length = 16 →
      p.Holds i text → i + 16 ≤ p.size → j + 16 ≤ q.size → f p i q j = .ok (q.put j (g text)))
    {b : List UInt8} (hb : b.length = 16) : blockThrough f b = g b := by
  have hrun := hf (.ofList b) (.fresh 16) 0 0 b hb (Buf.holds_ofList b) (by simp [hb]) (by simp)
  have hslice := (Buf.Holds.put_same (.fresh 16 : Buf UInt8) 0 (g b)).slice
  rw [hg] at hslice
  rw [blockThrough, if_pos hb, hrun]
  simp [hslice]

/-- The keys are expanded within their buffers, and the schedules belong to each other. -/
theorem setupSchedules_spec {key : List UInt8} (h : key.length = 16) :
    ∃ s, setupSchedules key = .ok s ∧
      (∀ b, b.length = 16 →
        s.cipher.rijndaelEncrypt b = (standardCipher key 128 (.ofBytes b)).bytes) ∧
      (∀ b, b.length = 16 →
        s.cipher.rijndaelDecrypt b = (standardInverse key 128 (.ofBytes b)).bytes) := by
  obtain ⟨rk, hr, _, hfilled⟩ := (Expansion.ofList h).setupEncrypt
  obtain ⟨dk, hd, _, hdfilled⟩ := (Expansion.ofList h).setupDecrypt
  refine ⟨⟨rk, nRounds 128, dk, nRounds 128⟩, ?_, ?_, ?_⟩
  · simp only [setupSchedules, aesEncryptionKeyBits, hr, hd, bind, Except.bind]
    rfl
  · intro b hb
    apply blockThrough_eq (fun text => State.length_bytes _) _ hb
    intro p q i j text hlen hp hi hj
    rw [← State.bytes_ofBytes hlen] at hp
    exact rijndaelEncrypt_eq (nRounds_cases (.inl rfl)) hfilled hp hi hj
  · intro b hb
    apply blockThrough_eq (fun text => State.length_bytes _) _ hb
    intro p q i j text hlen hp hi hj
    rw [← State.bytes_ofBytes hlen] at hp
    exact rijndaelDecrypt_eq (nRounds_cases (.inl rfl)) hdfilled hp hi hj

end NdsDevkit.Compress
