import Mathlib.Tactic.Common
import Mathlib.Algebra.Order.Ring.Nat
import Mathlib.Data.Nat.Bitwise
import Mathlib.Data.List.Induction
import Mathlib.Algebra.BigOperators.Group.List.Basic

namespace NdsDevkit.Framework

/-- The eight flags of a control byte, most significant bit first. -/
def controlBits (c : UInt8) : List Bool :=
  (List.range 8).map fun i => c.toNat.testBit (7 - i)

/-- The number whose binary digits are the flags, first flag most significant. -/
def flagValue (flags : List Bool) : Nat :=
  flags.foldl (fun v b => 2 * v + b.toNat) 0

@[simp] theorem controlBits_length (c : UInt8) : (controlBits c).length = 8 := by
  simp [controlBits]

@[simp] theorem flagValue_nil : flagValue [] = 0 := rfl

@[simp] theorem flagValue_append (flags : List Bool) (b : Bool) :
    flagValue (flags ++ [b]) = 2 * flagValue flags + b.toNat := by
  simp [flagValue]

theorem flagValue_lt (flags : List Bool) : flagValue flags < 2 ^ flags.length := by
  induction flags using List.reverseRecOn with
  | nil => simp
  | append_singleton flags b ih =>
    have hb := b.toNat_le
    simp only [flagValue_append, List.length_append, List.length_singleton, Nat.pow_succ]
    omega

theorem flagValue_testBit (flags : List Bool) (i : Nat) (h : i < flags.length) :
    (flagValue flags).testBit (flags.length - 1 - i) = flags[i] := by
  induction flags using List.reverseRecOn with
  | nil => simp at h
  | append_singleton flags b ih =>
    simp only [List.length_append, List.length_singleton] at h
    rw [flagValue_append]
    by_cases hi : i < flags.length
    · have hk : (flags ++ [b]).length - 1 - i = flags.length - 1 - i + 1 := by
        simp
        omega
      have hhalf : (2 * flagValue flags + b.toNat) / 2 = flagValue flags := by
        have hb := b.toNat_le
        omega
      rw [hk, Nat.testBit_succ, hhalf, ih hi, List.getElem_append_left hi]
    · have he : i = flags.length := by omega
      subst he
      have hk : (flags ++ [b]).length - 1 - flags.length = 0 := by simp
      rw [hk, Nat.testBit_zero]
      cases b <;> simp

/-- A control byte whose leading bits spell the flags offers exactly these flags first. -/
theorem controlBits_take (c : UInt8) (flags : List Bool) (hl : flags.length ≤ 8)
    (hc : c.toNat / 2 ^ (8 - flags.length) = flagValue flags) :
    (controlBits c).take flags.length = flags := by
  apply List.ext_getElem
  · simp [hl]
  · intro i h1 h2
    have hbit := flagValue_testBit flags i h2
    rw [← hc, Nat.testBit_div_two_pow] at hbit
    rw [← hbit]
    simp only [controlBits, List.getElem_take, List.getElem_map, List.getElem_range]
    congr 1
    omega

variable {ι : Type*} (flag : ι → Bool) (bytes : ι → List UInt8)

/-- Reading items off a source: each item answers to the next pending control bit, and a new
control byte is taken only when no bit is pending and something follows it. -/
inductive Reads : List Bool × List UInt8 → List ι → List Bool × List UInt8 → Prop where
  | nil (p) : Reads p [] p
  | control {c src items q} (hs : src ≠ []) (h : Reads (controlBits c, src) items q) :
      Reads ([], c :: src) items q
  | item {bits src items q} (it : ι) (h : Reads (bits, src) items q) :
      Reads (flag it :: bits, bytes it ++ src) (it :: items) q

theorem Reads.single (it : ι) (bits : List Bool) :
    Reads flag bytes (flag it :: bits, bytes it) [it] (bits, []) := by
  have h : Reads flag bytes (flag it :: bits, bytes it ++ []) [it] (bits, []) :=
    .item it (.nil (bits, []))
  rwa [List.append_nil] at h

variable {flag bytes}

theorem Reads.trans {p q r : List Bool × List UInt8} {xs ys : List ι}
    (h : Reads flag bytes p xs q) (h' : Reads flag bytes q ys r) :
    Reads flag bytes p (xs ++ ys) r := by
  induction h with
  | nil p => exact h'
  | control hs _ ih => exact .control hs (ih h')
  | item it _ ih => exact .item it (ih h')

/-- What follows the part read so far does not matter. -/
theorem Reads.extend {bits bits' : List Bool} {src src' : List UInt8} {xs : List ι}
    (h : Reads flag bytes (bits, src) xs (bits', src')) (t : List UInt8) :
    Reads flag bytes (bits, src ++ t) xs (bits', src' ++ t) := by
  generalize hp : (bits, src) = p at h
  generalize hq : (bits', src') = q at h
  induction h generalizing bits src with
  | nil p =>
    subst hp
    cases hq
    exact .nil _
  | control hs _ ih =>
    cases hp
    exact .control (by simp [hs]) (ih rfl hq)
  | item it _ ih =>
    cases hp
    rw [List.append_assoc]
    exact .item it (ih rfl hq)

/-- An encoder's view of its output: finished groups, the flags of the open group and its
bytes. The control byte of the open group stands between `closed` and `data`. -/
structure Frame where
  closed : List UInt8
  flags : List Bool
  data : List UInt8

/-- The control byte of a complete group. -/
def controlByte (flags : List Bool) : UInt8 :=
  UInt8.ofNat (flagValue flags * 2 ^ (8 - flags.length))

namespace Frame

def empty : Frame := ⟨[], [], []⟩

/-- Reserves a flag, opening a new group when eight flags are in use, and adds the bytes. -/
def push (f : Frame) (b : Bool) (xs : List UInt8) : Frame :=
  if f.flags.length = 8 then ⟨f.closed ++ controlByte f.flags :: f.data, [b], xs⟩
  else ⟨f.closed, f.flags ++ [b], f.data ++ xs⟩

/-- Bytes in use, the open control byte included. -/
def size (f : Frame) : Nat := f.closed.length + 1 + f.data.length

/-- The output once the open group is closed. -/
def output (f : Frame) : List UInt8 := f.closed ++ controlByte f.flags :: f.data

@[simp] theorem output_length (f : Frame) : f.output.length = f.size := by
  simp [output, size]
  omega

/-- The frame with room for another flag. -/
def ready (f : Frame) : Frame :=
  if f.flags.length = 8 then ⟨f.output, [], []⟩ else f

def addData (f : Frame) (xs : List UInt8) : Frame := { f with data := f.data ++ xs }

def addFlag (f : Frame) (b : Bool) : Frame := { f with flags := f.flags ++ [b] }

@[simp] theorem size_addFlag (f : Frame) (b : Bool) : (f.addFlag b).size = f.size := rfl

@[simp] theorem size_addData (f : Frame) (xs : List UInt8) :
    (f.addData xs).size = f.size + xs.length := by
  simp [size, addData]
  omega

@[simp] theorem addData_addData (f : Frame) (xs ys : List UInt8) :
    (f.addData xs).addData ys = f.addData (xs ++ ys) := by
  simp [addData]

theorem addFlag_addData (f : Frame) (b : Bool) (xs : List UInt8) :
    (f.addFlag b).addData xs = (f.addData xs).addFlag b := rfl

/-- A push is a reservation followed by the bytes and the flag. -/
theorem push_eq (f : Frame) (b : Bool) (xs : List UInt8) :
    f.push b xs = (f.ready.addData xs).addFlag b := by
  rw [push, ready]
  split <;> simp [addData, addFlag, output]

theorem ready_flags_lt {f : Frame} (h : f.flags.length ≤ 8) : f.ready.flags.length < 8 := by
  rw [ready]
  split
  · simp
  · omega

variable (flag bytes) in
/-- The frame an encoder has built after these items. -/
def ofItems (items : List ι) : Frame :=
  items.foldl (fun f it => f.push (flag it) (bytes it)) empty

@[simp] theorem ofItems_nil : ofItems flag bytes [] = empty := rfl

@[simp] theorem ofItems_append (items : List ι) (it : ι) :
    ofItems flag bytes (items ++ [it]) =
      (ofItems flag bytes items).push (flag it) (bytes it) := by
  simp [ofItems]

variable (flag bytes) in
theorem ofItems_flags_le (items : List ι) : (ofItems flag bytes items).flags.length ≤ 8 := by
  induction items using List.reverseRecOn with
  | nil => simp [empty]
  | append_singleton items it ih =>
    rw [ofItems_append, push]
    split
    · simp
    · simp
      omega

variable (flag bytes) in
theorem ofItems_flags_pos {items : List ι} (h : items ≠ []) :
    0 < (ofItems flag bytes items).flags.length := by
  induction items using List.reverseRecOn with
  | nil => exact absurd rfl h
  | append_singleton items it _ =>
    rw [ofItems_append, push]
    split <;> simp

theorem controlByte_div (flags : List Bool) (h : flags.length ≤ 8) :
    (controlByte flags).toNat / 2 ^ (8 - flags.length) = flagValue flags := by
  have hlt := flagValue_lt flags
  have hpow : 2 ^ flags.length * 2 ^ (8 - flags.length) = 256 := by
    rw [← pow_add, Nat.add_sub_cancel' h]
    rfl
  have hpos : 0 < 2 ^ (8 - flags.length) := Nat.two_pow_pos _
  have hsmall : flagValue flags * 2 ^ (8 - flags.length) < 256 := by
    rw [← hpow]
    exact Nat.mul_lt_mul_of_pos_right hlt hpos
  simp only [controlByte, UInt8.toNat_ofNat']
  rw [Nat.mod_eq_of_lt (by simpa using hsmall), Nat.mul_div_cancel _ hpos]

variable (flag bytes) in
/-- Each item costs eight bits a byte and one control bit, and a group reserves its eight
control bits at once. -/
theorem ofItems_size (items : List ι) :
    8 * (ofItems flag bytes items).size + (ofItems flag bytes items).flags.length =
      (items.map fun it => 8 * (bytes it).length + 1).sum + 8 := by
  induction items using List.reverseRecOn with
  | nil => simp [empty, size]
  | append_singleton items it ih =>
    rw [ofItems_append, List.map_append, List.sum_append]
    simp only [List.map_cons, List.map_nil, List.sum_cons, List.sum_nil]
    generalize (items.map fun it => 8 * (bytes it).length + 1).sum = total at ih ⊢
    simp only [push, size] at ih ⊢
    split
    · simp
      omega
    · simp
      omega

/-- The items an encoder framed are the items read back, whatever the unused control bits. -/
theorem ofItems_reads (hne : ∀ it, bytes it ≠ []) {items : List ι} (h : items ≠ []) (c : UInt8)
    (hc : (controlBits c).take (ofItems flag bytes items).flags.length =
      (ofItems flag bytes items).flags) :
    Reads flag bytes
      ([], (ofItems flag bytes items).closed ++ c :: (ofItems flag bytes items).data) items
      ((controlBits c).drop (ofItems flag bytes items).flags.length, []) := by
  induction items using List.reverseRecOn generalizing c with
  | nil => exact absurd rfl h
  | append_singleton items it ih =>
    have hpos := @ofItems_flags_pos ι flag bytes items
    have hle := ofItems_flags_le flag bytes items
    rw [ofItems_append] at hc ⊢
    generalize hf : ofItems flag bytes items = f at *
    -- one item at the head of a group whose first control bit is its flag
    have hone (d : UInt8) (hd : (controlBits d).take 1 = [flag it]) :
        Reads flag bytes ([], d :: bytes it) [it] ((controlBits d).drop 1, []) := by
      have hb : controlBits d = flag it :: (controlBits d).drop 1 := by
        conv_lhs => rw [← List.take_append_drop 1 (controlBits d), hd]
        rfl
      refine .control (hne it) ?_
      rw [hb]
      simpa using Reads.single flag bytes it ((controlBits d).drop 1)
    rcases eq_or_ne items [] with rfl | hitems
    · simp only [ofItems_nil] at hf
      subst hf
      simpa [push, empty] using hone c (by simpa [push, empty] using hc)
    · unfold push at hc ⊢
      split at hc
      · next hfull =>
        rw [if_pos hfull]
        have hcb := controlBits_take (controlByte f.flags) f.flags (by omega)
          (controlByte_div f.flags (by omega))
        have hold := (ih hitems (controlByte f.flags) hcb).extend (c :: bytes it)
        have hdrop : (controlBits (controlByte f.flags)).drop f.flags.length = [] := by
          rw [hfull]
          exact List.drop_eq_nil_of_le (by simp)
        rw [hdrop] at hold
        exact hold.trans (hone c hc)
      · next hroom =>
        rw [if_neg hroom]
        simp only [List.length_append, List.length_singleton] at hc ⊢
        have htake : (controlBits c).take f.flags.length = f.flags := by
          have := congrArg (List.take f.flags.length) hc
          rwa [List.take_take, Nat.min_eq_left (by omega), List.take_left'
            (by rfl)] at this
        have hhead : (controlBits c).drop f.flags.length =
            flag it :: (controlBits c).drop (f.flags.length + 1) := by
          have hlt : f.flags.length < (controlBits c).length := by simp; omega
          rw [List.drop_eq_getElem_cons hlt]
          congr 1
          have hg : ((controlBits c).take (f.flags.length + 1))[f.flags.length]? =
              (f.flags ++ [flag it])[f.flags.length]? := by rw [hc]
          rw [List.getElem?_take_of_lt (by omega), List.getElem?_eq_getElem hlt] at hg
          simpa using hg
        have hold := (ih hitems c htake).extend (bytes it)
        rw [hhead] at hold
        simpa using hold.trans (Reads.single flag bytes it _)

variable (flag) in
/-- Closing the open group makes the output readable as the items. -/
theorem output_reads (hne : ∀ it, bytes it ≠ []) {items : List ι} (h : items ≠ []) :
    ∃ bits, Reads flag bytes ([], (ofItems flag bytes items).output) items (bits, []) := by
  have hle := ofItems_flags_le flag bytes items
  exact ⟨_, ofItems_reads hne h _ (controlBits_take _ _ hle (controlByte_div _ hle))⟩

end Frame

end NdsDevkit.Framework
