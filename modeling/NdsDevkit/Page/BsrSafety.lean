import NdsDevkit.Page.Encryption
import NdsDevkit.Page.Bsr

namespace NdsDevkit.Page

open Framework

/-- A memcpy from the blob to the page, or a memset of bytes of the page. -/
inductive Move where
  | copy (d : Int) (s : Nat) (n : Int)
  | zero (d n : Int)

namespace Move

def run (aIn aOut : Buf UInt8) : Move → Except Stop (Buf UInt8)
  | .copy d s n => memcpy aOut d aIn s n
  | .zero d n => memset aOut d 0 n

def length : Move → Int
  | .copy _ _ n => n
  | .zero _ n => n

def start : Move → Int
  | .copy d _ _ => d
  | .zero d _ => d

/-- The offsets in the page that are written. -/
def writes (m : Move) (i : Int) : Bool := decide (m.start ≤ i ∧ i < m.start + m.length)

theorem writes_iff {m : Move} {i : Int} :
    m.writes i = true ↔ m.start ≤ i ∧ i < m.start + m.length :=
  decide_eq_true_iff

/-- The offsets in the blob that are read. -/
def reads (i : Int) : Move → Bool
  | .copy _ s n => decide ((s : Int) ≤ i ∧ i < s + n)
  | .zero _ _ => false

end Move

/-- The calls of the decoder for the offset `X` and a blob of `nIn` bytes. -/
def bsrMoves (X : Nat) (szPage nIn : Int) : List Move :=
  (if X > 0 then [.copy 0 2 X] else []) ++
    [.zero X (szPage - (nIn - 2)), .copy (szPage - (nIn - 2 - X)) (2 + X) (nIn - 2 - X)]

theorem bsrUncompress_eq (p : ZipvfsInst) (aOut : Buf UInt8) (pnOut : Int) (aIn : Buf UInt8)
    (nIn : Int) : bsrUncompress p aOut pnOut aIn nIn = (do
      let (p, text) ← aesDecryptWrapper p aIn nIn
      match text with
      | none => throw .failure
      | some text => do
        let a0 ← text.read 0
        let a1 ← text.read 1
        let aOut ← (bsrMoves (a0.toNat <<< 8 + a1.toNat) pnOut nIn).foldlM (Move.run text) aOut
        return (p, aOut)) := by
  rw [bsrUncompress]
  congr 1
  funext ⟨p, text⟩
  cases text with
  | none => rfl
  | some text =>
    refine bind_congr fun a0 => bind_congr ?_
    intro a1
    simp only [bsrMoves, copyHead]
    split <;> simp [Move.run, Int.sub_sub]

/-- The calls copy and fill no negative length, read inside a blob of `nIn` bytes and write inside
the page, each byte of it exactly once. -/
structure SafeMoves (nIn szPage : Nat) (ms : List Move) : Prop where
  length_nonneg : ∀ m, m ∈ ms → 0 ≤ m.length
  reads_inside : ∀ m, m ∈ ms → ∀ i, m.reads i = true → 0 ≤ i ∧ i < nIn
  writes_inside : ∀ m, m ∈ ms → ∀ i, m.writes i = true → 0 ≤ i ∧ i < szPage
  writes_once : ∀ i : Nat, i < szPage → ms.countP (fun m => m.writes i) = 1

/-- The three lengths of the decoder decide: no other order of them is safe. -/
theorem safeMoves_iff {X szPage nIn : Nat} (hn : 2 ≤ nIn) :
    SafeMoves nIn szPage (bsrMoves X szPage nIn) ↔ X ≤ nIn - 2 ∧ nIn - 2 ≤ szPage := by
  constructor
  · intro h
    have hzero := h.length_nonneg (.zero X (szPage - (nIn - 2))) (by simp [bsrMoves])
    have htail := h.length_nonneg (.copy (szPage - (nIn - 2 - X)) (2 + X) (nIn - 2 - X))
      (by simp [bsrMoves])
    simp only [Move.length] at hzero htail
    omega
  · intro hboth
    obtain ⟨hX, hpage⟩ := hboth
    have hcases : ∀ m, m ∈ bsrMoves X szPage nIn → X > 0 ∧ m = .copy 0 2 X ∨
        m = .zero X (szPage - (nIn - 2)) ∨
        m = .copy (szPage - (nIn - 2 - X)) (2 + X) (nIn - 2 - X) := by
      intro m hm
      unfold bsrMoves at hm
      split at hm <;> simp_all
    refine ⟨?_, ?_, ?_, ?_⟩
    · intro m hm
      rcases hcases m hm with ⟨_, rfl⟩ | rfl | rfl <;> simp only [Move.length] <;> omega
    · intro m hm i hi
      rcases hcases m hm with ⟨_, rfl⟩ | rfl | rfl <;>
        simp only [Move.reads, decide_eq_true_eq, Bool.false_eq_true] at hi
      all_goals omega
    · intro m hm i hi
      rw [Move.writes_iff] at hi
      rcases hcases m hm with ⟨_, rfl⟩ | rfl | rfl <;>
        simp only [Move.start, Move.length] at hi <;> omega
    · intro i hi
      -- the page is its head, the gap and its tail
      have hhead : (if X > 0 then [Move.copy 0 2 X] else []).countP (fun m => m.writes i) =
          if i < X then 1 else 0 := by
        split
        · simp [Move.writes, Move.start, Move.length]
        · rw [if_neg (by omega), List.countP_nil]
      have hgap : (Move.zero X (szPage - (nIn - 2))).writes i =
          decide (X ≤ i ∧ i < X + szPage - (nIn - 2)) := by
        simp only [Move.writes, Move.start, Move.length]
        congr 1
        rw [eq_iff_iff]
        omega
      have htail : (Move.copy (szPage - (nIn - 2 - X)) (2 + X) (nIn - 2 - X)).writes i =
          decide (X + szPage - (nIn - 2) ≤ i) := by
        simp only [Move.writes, Move.start, Move.length]
        congr 1
        rw [eq_iff_iff]
        omega
      rw [bsrMoves, List.countP_append, hhead, List.countP_cons, List.countP_cons, hgap, htail]
      simp only [List.countP_nil, decide_eq_true_eq]
      split_ifs <;> omega

/-- The blob as the decoder reads it: decrypted, if there is a password. -/
def plainText (p : ZipvfsInst) (blob : List UInt8) : List UInt8 :=
  match p.pCrypto with
  | none => blob
  | some d => applyCipher d.cipher.rijndaelDecrypt blob

/-- A password is set, but nothing was decrypted yet. -/
def Unallocated (p : ZipvfsInst) : Prop := ∃ d, p.pCrypto = some d ∧ d.pTempBuffer.size = 0

/-- The big-endian number at the start. -/
def headLength : List UInt8 → Nat
  | a0 :: a1 :: _ => a0.toNat <<< 8 + a1.toNat
  | _ => 0

/-- The wrapper returns the plain text, or NULL when there was no byte to decrypt so far. -/
theorem aesDecryptWrapper_plainText (p : ZipvfsInst) (blob : List UInt8) :
    ∃ p' out, aesDecryptWrapper p (.ofList blob) blob.length = .ok (p', out) ∧
      (p.pCrypto = none → p' = p) ∧ (out = none ↔ blob = [] ∧ Unallocated p) ∧
      ∀ text, out = some text → text.Holds 0 (plainText p blob) ∧ blob.length ≤ text.size := by
  obtain ⟨_ | d⟩ := p
  · refine ⟨_, _, rfl, fun _ => rfl, ?_, ?_⟩
    · simp [Unallocated]
    · intro text hnone
      cases hnone
      exact ⟨Buf.holds_ofList blob, Nat.le_refl _⟩
  · obtain ⟨temp, ht, hs, hh⟩ := aesDecryptWrapper_spec d (Buf.holds_ofList blob) (Nat.le_refl _)
    refine ⟨_, _, ht, nofun, ?_, ?_⟩
    · simp only [Unallocated, Option.some.injEq, exists_eq_left', ← List.length_eq_zero_iff]
      by_cases hz : temp.size = 0
      · simp only [if_pos hz, true_iff]
        omega
      · simp only [if_neg hz, reduceCtorEq, false_iff]
        omega
    · intro text htext
      split at htext
      · cases htext
      · cases htext
        exact ⟨hh, by omega⟩

theorem length_plainText (p : ZipvfsInst) (blob : List UInt8) :
    (plainText p blob).length = blob.length := by
  rw [plainText]
  split
  · rfl
  · exact length_applyCipher (BlockCipher.length_decrypt _) blob

/-- The decoder reports the missing text, or it reads the offset inside the blob and goes on with
safe calls. -/
def BsrSafe (p : ZipvfsInst) (aOut : Buf UInt8) (szPage : Nat) (blob : List UInt8) : Prop :=
  bsrUncompress p aOut szPage (.ofList blob) blob.length = .error .failure ∨
    ∃ p' text a0 a1, aesDecryptWrapper p (.ofList blob) blob.length = .ok (p', some text) ∧
      2 ≤ blob.length ∧ text.read 0 = .ok a0 ∧ text.read 1 = .ok a1 ∧
      SafeMoves blob.length szPage (bsrMoves (a0.toNat <<< 8 + a1.toNat) szPage blob.length)

/-- The offset and the text behind it fit the blob and the page. -/
def Consistent (p : ZipvfsInst) (szPage : Nat) (blob : List UInt8) : Prop :=
  2 ≤ blob.length ∧ headLength (plainText p blob) ≤ blob.length - 2 ∧ blob.length - 2 ≤ szPage

theorem read_headLength {text : Buf UInt8} {xs : List UInt8} (h : text.Holds 0 xs)
    (hl : 2 ≤ xs.length) (hs : xs.length ≤ text.size) :
    ∃ a0 a1, text.read 0 = .ok a0 ∧ text.read 1 = .ok a1 ∧
      a0.toNat <<< 8 + a1.toNat = headLength xs := by
  match xs, h, hl with
  | a0 :: a1 :: xs, h, _ =>
    simp only [List.length_cons] at hs
    exact ⟨a0, a1, h.read (j := 0) (by omega) (by simp), h.read (j := 1) (by omega) (by simp), rfl⟩

theorem read_ne_failure (b : Buf UInt8) (i : Nat) :
    Ends (b.read i) (fun _ => True) (fun e => e ≠ .failure) := by
  rw [Buf.read]
  split
  · split <;> simp
  · simp

theorem writeMany_ne_failure (b : Buf UInt8) (i : Nat) (bs : List UInt8) :
    Ends (b.writeMany i bs) (fun _ => True) (fun e => e ≠ .failure) := by
  rw [Buf.writeMany]
  split <;> simp

theorem run_ne_failure (text aOut : Buf UInt8) (m : Move) :
    Ends (m.run text aOut) (fun _ => True) (fun e => e ≠ .failure) := by
  cases m with
  | copy d s n =>
    simp only [Move.run, memcpy]
    split
    · simp
    · split
      · simp
      · refine Ends.bind (P := fun _ => True) ?_ fun bs _ => writeMany_ne_failure aOut _ bs
        rw [Buf.readMany]
        split
        · split <;> simp
        · simp
  | zero d n =>
    simp only [Move.run, memset]
    split
    · simp
    · split
      · simp
      · exact writeMany_ne_failure aOut _ _

/-- Only NULL makes the decoder report an error. -/
theorem bsrUncompress_failure_iff (p : ZipvfsInst) (aOut : Buf UInt8) (szPage : Nat)
    (blob : List UInt8) :
    bsrUncompress p aOut szPage (.ofList blob) blob.length = .error .failure ↔
      blob = [] ∧ Unallocated p := by
  obtain ⟨p', out, hout, _, hnull, _⟩ := aesDecryptWrapper_plainText p blob
  rw [← hnull, bsrUncompress_eq, hout]
  cases out with
  | none => simp [bind, Except.bind, throw, throwThe, MonadExceptOf.throw]
  | some text =>
    simp only [reduceCtorEq, iff_false]
    intro hres
    have hends : Ends (do
        let a0 ← text.read 0
        let a1 ← text.read 1
        let aOut ← (bsrMoves (a0.toNat <<< 8 + a1.toNat) szPage blob.length).foldlM
          (Move.run text) aOut
        return (p', aOut)) (fun _ => True) (fun e => e ≠ .failure) :=
      (read_ne_failure text 0).bind fun a0 _ => (read_ne_failure text 1).bind fun a1 _ =>
        (Ends.foldlM (fun b m _ => run_ne_failure text b m) _ aOut trivial).bind fun _ _ => trivial
    have hrest := hres
    simp only [bind, Except.bind] at hrest hends
    rw [hrest] at hends
    exact hends rfl

theorem BsrSafe.consistent {p : ZipvfsInst} {aOut : Buf UInt8} {szPage : Nat} {blob : List UInt8}
    (h : BsrSafe p aOut szPage blob) : blob = [] ∧ Unallocated p ∨ Consistent p szPage blob := by
  rcases h with hfail | ⟨p', text, a0, a1, hw, hn, h0, h1, hsafe⟩
  · exact .inl ((bsrUncompress_failure_iff p aOut szPage blob).mp hfail)
  · obtain ⟨_, _, hw', _, _, htext⟩ := aesDecryptWrapper_plainText p blob
    rw [hw] at hw'
    cases hw'
    obtain ⟨hh, hsize⟩ := htext text rfl
    have hlen := length_plainText p blob
    obtain ⟨b0, b1, h0', h1', hX⟩ := read_headLength hh (by omega) (by omega)
    rw [h0] at h0'
    rw [h1] at h1'
    cases h0'
    cases h1'
    refine .inr ⟨hn, ?_⟩
    rw [← hX]
    exact (safeMoves_iff hn).mp hsafe

theorem Consistent.wrapper {p : ZipvfsInst} {szPage : Nat} {blob : List UInt8}
    (h : Consistent p szPage blob) :
    ∃ p' text a0 a1, aesDecryptWrapper p (.ofList blob) blob.length = .ok (p', some text) ∧
      (p.pCrypto = none → p' = p) ∧ text.Holds 0 (plainText p blob) ∧ blob.length ≤ text.size ∧
      text.read 0 = .ok a0 ∧ text.read 1 = .ok a1 ∧
      a0.toNat <<< 8 + a1.toNat = headLength (plainText p blob) := by
  have hn := h.1
  have hlen := length_plainText p blob
  obtain ⟨p', out, hw, hp, hnull, htext⟩ := aesDecryptWrapper_plainText p blob
  cases out with
  | none =>
    obtain ⟨rfl, _⟩ := hnull.mp rfl
    exact absurd hn (by decide)
  | some text =>
    obtain ⟨hh, hsize⟩ := htext text rfl
    obtain ⟨a0, a1, h0, h1, hX⟩ := read_headLength hh (by omega) (by omega)
    exact ⟨p', text, a0, a1, hw, hp, hh, hsize, h0, h1, hX⟩

/-- The decoder is safe on the consistent blobs, and where it has no text to decode. -/
theorem bsrSafe_iff (p : ZipvfsInst) (aOut : Buf UInt8) (szPage : Nat) (blob : List UInt8) :
    BsrSafe p aOut szPage blob ↔ blob = [] ∧ Unallocated p ∨ Consistent p szPage blob := by
  refine ⟨BsrSafe.consistent, ?_⟩
  intro hor
  rcases hor with hnull | hfits
  · exact .inl ((bsrUncompress_failure_iff p aOut szPage blob).mpr hnull)
  · obtain ⟨p', text, a0, a1, hw, _, _, _, h0, h1, hX⟩ := hfits.wrapper
    refine .inr ⟨p', text, a0, a1, hw, hfits.1, h0, h1, ?_⟩
    rw [hX]
    exact (safeMoves_iff hfits.1).mpr hfits.2

/-- An offset behind the end of the blob: the head is copied from outside the blob, far over the
end of the page. -/
theorem not_bsrSafe_offset : ¬ BsrSafe ⟨none⟩ (.fresh 512) 512 [0xFF, 0xFF, 0] := by
  intro h
  rcases h.consistent with ⟨hnil, _⟩ | ⟨_, hX, _⟩
  · cases hnil
  · exact absurd hX (by decide)

/-- The page that a text stands for: its head, zeros, and its tail. -/
def bsrPage (text : List UInt8) (szPage : Nat) : List UInt8 :=
  (text.drop 2).take (headLength text) ++ List.replicate (szPage - (text.length - 2)) 0 ++
    text.drop (2 + headLength text)

/-- A consistent blob is decoded to its page, without a fault and to the last byte. -/
theorem bsrUncompress_consistent {p : ZipvfsInst} {aOut : Buf UInt8} {szPage : Nat}
    {blob : List UInt8} (hout : aOut.size = szPage) (h : Consistent p szPage blob) :
    ∃ p' out, bsrUncompress p aOut szPage (.ofList blob) blob.length = .ok (p', out) ∧
      (p.pCrypto = none → p' = p) ∧ out.size = szPage ∧
      out.Holds 0 (bsrPage (plainText p blob) szPage) := by
  obtain ⟨p', text, a0, a1, hw, hp, hh, hsize, h0, h1, hX⟩ := h.wrapper
  obtain ⟨hn, hfits, hpage⟩ := h
  have hlen := length_plainText p blob
  generalize plainText p blob = xs at hh hX hfits hlen ⊢
  generalize hx : headLength xs = x at hX hfits
  -- the head is copied only when there is one
  have hhead : ∃ b1, copyHead aOut text x = .ok b1 ∧ b1.size = szPage ∧
      b1.Holds 0 ((xs.drop 2).take x) := by
    rw [copyHead]
    by_cases hpos : x > 0
    · have hcpy := memcpy_eq aOut (d := 0) (s := 2) (n := x) (i := 0) (m := x) hh (by omega)
        (by omega) (by omega) rfl rfl
      rw [if_pos hpos, hcpy]
      exact ⟨_, rfl, hout, (Buf.holds_nil aOut 0).put_at _ rfl⟩
    · have hx0 : x = 0 := by omega
      subst hx0
      exact ⟨aOut, rfl, hout, Buf.holds_nil _ _⟩
  obtain ⟨b1, h2, hs1, g1⟩ := hhead
  have hxl : ((xs.drop 2).take x).length = x := by
    rw [List.length_take, List.length_drop]
    omega
  have h3 := memset_eq b1 (d := x) (n := szPage - (xs.length - 2)) (i := x)
    (m := szPage - ((blob.length : Int) - 2)) (b := 0) (by omega) rfl (by omega)
  have g2 := g1.put_at (List.replicate (szPage - (xs.length - 2)) 0) (j := x) (by omega)
  generalize hb2 : b1.put x (List.replicate (szPage - (xs.length - 2)) 0) = b2 at h3 g2
  have hs2 : b2.size = szPage := by rw [← hb2, Buf.size_put, hs1]
  have h4 := memcpy_eq b2 (d := x + (szPage - (xs.length - 2))) (s := 2 + x)
    (n := xs.length - (2 + x)) (i := szPage - ((blob.length : Int) - 2 - x))
    (m := (blob.length : Int) - 2 - x) hh (by omega) (by omega) (by omega) (by omega) (by omega)
  rw [List.take_of_length_le (by simp)] at h4
  have g3 := g2.put_at (xs.drop (2 + x)) (j := x + (szPage - (xs.length - 2)))
    (by rw [List.length_append, hxl, List.length_replicate]; omega)
  refine ⟨p', b2.put (x + (szPage - (xs.length - 2))) (xs.drop (2 + x)), ?_, hp, hs2, ?_⟩
  · rw [bsrUncompress]
    simp only [hw, h0, h1, hX, h2, h3, h4, bind, Except.bind]
    rfl
  · rw [bsrPage, hx]
    exact g3

end NdsDevkit.Page
