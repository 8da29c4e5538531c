import NdsDevkit.Tokenizer.StringBuffer
import NdsDevkit.Text.Utf8Encode
import Mathlib.Data.List.Induction

namespace NdsDevkit.Tokenizer

open Text

namespace StringBuffer

theorem getBuffer_eq {self other : StringBuffer} (hs : other.size = self.size)
    (hb : ∀ i, i < self.size → other.buffer i = self.buffer i) :
    other.getBuffer = self.getBuffer := by
  rw [getBuffer]
  rw [hs]
  apply List.map_congr_left
  intro i hi
  exact hb i (List.mem_range.mp hi)

theorem getElem?_getBuffer (self : StringBuffer) {i : Nat} (h : i < self.size) :
    self.getBuffer[i]? = some (self.buffer i) := by
  simp [getBuffer, h]

theorem flush_getBuffer (self : StringBuffer) : self.flush.getBuffer = [] := rfl

theorem popFront_getBuffer (self : StringBuffer) (count : Nat) :
    (self.popFront count).getBuffer = self.getBuffer.drop count := by
  apply List.ext_getElem?
  intro i
  rw [List.getElem?_drop]
  by_cases hi : i < self.size - count
  · have hle : ¬ count > self.size := by omega
    rw [getElem?_getBuffer _ (by rwa [popFront_size]), getElem?_getBuffer _ (by omega)]
    simp only [popFront, if_neg hle, if_pos hi, Nat.add_comm]
  · rw [List.getElem?_eq_none (by rw [length_getBuffer, popFront_size]; omega),
      List.getElem?_eq_none (by rw [length_getBuffer]; omega)]

/-- Growth keeps the bytes of an allocated buffer. -/
theorem ensureExtraCapacity_getBuffer (fresh : Nat → Nat → UInt8) {self : StringBuffer}
    {extraBytes : Nat} (hsize : self.size ≤ self.capacity)
    (h : self.dynamic = true ∨ self.size + extraBytes ≤ self.capacity) :
    (self.ensureExtraCapacity fresh extraBytes).getBuffer = self.getBuffer := by
  rw [ensureExtraCapacity]
  simp only
  split
  · next hgrow =>
    have hdyn : self.dynamic = true := h.resolve_right (by omega)
    apply getBuffer_eq
    · rfl
    · intro i hi
      simp only
      rw [if_pos ⟨hdyn, by omega⟩]
  · rfl

theorem ensureExtraCapacity_dynamic (fresh : Nat → Nat → UInt8) {self : StringBuffer}
    {extraBytes : Nat} (h : self.dynamic = true) :
    (self.ensureExtraCapacity fresh extraBytes).dynamic = true := by
  rw [ensureExtraCapacity]
  simp only
  split
  · rfl
  · exact h

/-- The first growth loses them: `realloc` has no old block to copy. -/
theorem ensureExtraCapacity_lost (fresh : Nat → Nat → UInt8) {self : StringBuffer}
    (extraBytes : Nat) (hstatic : self.dynamic = false)
    (hgrow : self.capacity < self.size + extraBytes) (i : Nat) :
    ∃ n, (self.ensureExtraCapacity fresh extraBytes).buffer i = fresh n i := by
  rw [ensureExtraCapacity]
  simp only
  rw [dif_pos hgrow]
  exact ⟨doubledCapacity (self.size + extraBytes + 1) self.capacity (self.size + extraBytes),
    by simp [hstatic]⟩

/-- A push always succeeds. It puts the character behind what the buffer holds once it has made
room. -/
theorem pushBackUnichar_eq (fresh : Nat → Nat → UInt8) (self : StringBuffer) (c : Unichar) :
    ∃ self', self.pushBackUnichar fresh c = (true, self') ∧
      self'.size = self.size + (encoded c).length ∧ self'.size ≤ self'.capacity ∧
      self'.getBuffer = (self.ensureExtraCapacity fresh 4).getBuffer ++ encoded c ∧
      self'.capacity = (self.ensureExtraCapacity fresh 4).capacity ∧
      self'.dynamic = (self.ensureExtraCapacity fresh 4).dynamic := by
  obtain ⟨hsize, hcap⟩ := ensureExtraCapacity_spec fresh self 4
  have hle : (encoded c).length ≤ 4 := by
    rw [length_encoded]
    exact utf8Width_le c
  have hroom : utf8Width c ≤ (self.ensureExtraCapacity fresh 4).capacity -
      (self.ensureExtraCapacity fresh 4).size := by
    have := utf8Width_le c
    omega
  rw [pushBackUnichar]
  generalize self.ensureExtraCapacity fresh 4 = grown at hsize hcap hroom ⊢
  simp only [writeUnicharAsUtf8_spec c hroom, if_true]
  refine ⟨_, rfl, by simp only [hsize], by simp only; omega, ?_, rfl, rfl⟩
  apply List.ext_getElem?
  intro i
  rcases Nat.lt_or_ge i grown.size with hi | hi
  · rw [List.getElem?_append_left (by simpa using hi), getElem?_getBuffer _ (by simp only; omega),
      getElem?_getBuffer _ hi]
    simp only
    rw [if_neg (by omega)]
  · rw [List.getElem?_append_right (by simpa using hi), length_getBuffer]
    rcases Nat.lt_or_ge i (grown.size + (encoded c).length) with hw | hw
    · rw [getElem?_getBuffer _ hw]
      simp only
      rw [if_pos ⟨hi, hw⟩, List.getD_eq_getElem?_getD,
        List.getElem?_eq_getElem (show i - grown.size < (encoded c).length by omega)]
      rfl
    · rw [List.getElem?_eq_none (by simpa using hw), List.getElem?_eq_none (by omega)]

/-- The buffer has been allocated: from now on it is an exact queue of bytes. -/
structure Exact (b : StringBuffer) : Prop where
  dynamic : b.dynamic = true
  size_le : b.size ≤ b.capacity

theorem Exact.flush {self : StringBuffer} (h : self.Exact) : self.flush.Exact :=
  ⟨h.dynamic, Nat.zero_le _⟩

theorem Exact.popFront {self : StringBuffer} (h : self.Exact) (count : Nat) :
    (self.popFront count).Exact := by
  refine ⟨h.dynamic, Nat.le_trans ?_ h.size_le⟩
  rw [popFront_size]
  exact Nat.sub_le _ _

/-- Some bytes have been added. An exact queue has kept the others. -/
structure Appends (b b' : StringBuffer) (bs : List UInt8) : Prop where
  size : b'.size = b.size + bs.length
  exact : b.Exact → b'.Exact ∧ b'.getBuffer = b.getBuffer ++ bs

theorem Appends.refl (b : StringBuffer) : b.Appends b [] :=
  ⟨rfl, fun h => ⟨h, (List.append_nil _).symm⟩⟩

theorem Appends.trans {a b c : StringBuffer} {xs ys : List UInt8} (h : a.Appends b xs)
    (h' : b.Appends c ys) : a.Appends c (xs ++ ys) := by
  constructor
  · rw [h'.size, h.size, List.length_append, Nat.add_assoc]
  · intro ha
    obtain ⟨hb, hxs⟩ := h.exact ha
    obtain ⟨hc, hys⟩ := h'.exact hb
    exact ⟨hc, by rw [hys, hxs, List.append_assoc]⟩

/-- What an exact queue holds that has been empty. -/
theorem Appends.of_flush {b b' : StringBuffer} {bs : List UInt8} (h : b.flush.Appends b' bs)
    (hb : b.Exact) : b'.getBuffer = bs ∧ b'.Exact := by
  obtain ⟨hb', hbs⟩ := h.exact hb.flush
  exact ⟨by rw [hbs, flush_getBuffer, List.nil_append], hb'⟩

theorem pushBackUnichar_appends (fresh : Nat → Nat → UInt8) (self : StringBuffer) (c : Unichar) :
    ∃ self', self.pushBackUnichar fresh c = (true, self') ∧ self.Appends self' (encoded c) := by
  obtain ⟨self', hpush, hsize, hle, hb, _, hd⟩ := pushBackUnichar_eq fresh self c
  refine ⟨self', hpush, hsize, fun h => ⟨⟨?_, hle⟩, ?_⟩⟩
  · rw [hd, ensureExtraCapacity_dynamic fresh h.dynamic]
  · rw [hb, ensureExtraCapacity_getBuffer fresh h.size_le (.inl h.dynamic)]

/-- The static buffer in use holds `bs`. -/
structure Static (b : StringBuffer) (bs : List UInt8) : Prop where
  dynamic : b.dynamic = false
  capacity : b.capacity = stringBufferStaticSize
  size : b.size ≤ stringBufferStaticSize
  holds : b.getBuffer = bs

theorem Static.init (staticBuffer : Nat → UInt8) : (init staticBuffer).Static [] :=
  ⟨rfl, rfl, Nat.zero_le _, rfl⟩

theorem Static.flush {self : StringBuffer} {bs : List UInt8} (h : self.Static bs) :
    self.flush.Static [] :=
  ⟨h.dynamic, h.capacity, Nat.zero_le _, rfl⟩

theorem Static.popFront {self : StringBuffer} {bs : List UInt8} (h : self.Static bs)
    (count : Nat) : (self.popFront count).Static (bs.drop count) := by
  refine ⟨h.dynamic, h.capacity, ?_, ?_⟩
  · have hle := h.size
    rw [popFront_size]
    omega
  · rw [popFront_getBuffer, h.holds]

/-- While four bytes are left in the static buffer, a push is exact. -/
theorem Static.pushBackUnichar (fresh : Nat → Nat → UInt8) {self : StringBuffer} {bs : List UInt8}
    (h : self.Static bs) {c : Nat} (hc : c < 2 ^ 21)
    (hroom : bs.length + 4 ≤ stringBufferStaticSize) :
    (self.pushBackUnichar fresh c).2.Static (bs ++ utf8Bytes c) := by
  have hsize : self.size = bs.length := by rw [← length_getBuffer, h.holds]
  have hcap := h.capacity
  have hkeep : self.ensureExtraCapacity fresh 4 = self := by
    rw [ensureExtraCapacity]
    simp only
    rw [dif_neg (by omega)]
  obtain ⟨self', hpush, hs, hle, hb, hc', hd⟩ := pushBackUnichar_eq fresh self c
  rw [encoded_eq hc] at hb
  rw [hkeep] at hb hc' hd
  rw [hpush]
  change self'.Static (bs ++ utf8Bytes c)
  exact ⟨hd.trans h.dynamic, hc'.trans hcap, by omega, by rw [hb, h.holds]⟩

/-- With less room, the bytes in front of the character are those of the new block. -/
theorem Static.pushBackUnichar_lost (fresh : Nat → Nat → UInt8) {self : StringBuffer}
    {bs : List UInt8} (h : self.Static bs) {c : Nat} (hc : c < 2 ^ 21)
    (hfull : stringBufferStaticSize < bs.length + 4) {i : Nat} (hi : i < bs.length) :
    ∃ n, (self.pushBackUnichar fresh c).2.getBuffer[i]? = some (fresh n i) := by
  have hsize : self.size = bs.length := by rw [← length_getBuffer, h.holds]
  obtain ⟨n, hlost⟩ := ensureExtraCapacity_lost fresh 4 h.dynamic (by rw [h.capacity]; omega) i
  obtain ⟨hgs, _⟩ := ensureExtraCapacity_spec fresh self 4
  obtain ⟨self', hpush, _, _, hb, _⟩ := pushBackUnichar_eq fresh self c
  rw [encoded_eq hc] at hb
  refine ⟨n, ?_⟩
  rw [hpush, hb, List.getElem?_append_left (by rw [length_getBuffer]; omega),
    getElem?_getBuffer _ (by omega), hlost]

end StringBuffer

/-- A step of a client of the buffer: `popFront` takes off whole characters. -/
inductive QueueOp where
  | flush
  | pushBackUnichar (c : Unichar)
  | popFront (n : Nat)
  deriving DecidableEq

namespace QueueOp

/-- Every character that is pushed is one that UTF-8 can encode, as the writer asserts. -/
def Valid : QueueOp → Prop
  | .pushBackUnichar c => c ≤ 0x10FFFE
  | _ => True

/-- What the step makes of the queue of characters. -/
def apply (cs : List Unichar) : QueueOp → List Unichar
  | .flush => []
  | .pushBackUnichar c => cs ++ [c]
  | .popFront n => cs.drop n

/-- The call, for a buffer that should hold the characters `cs`. -/
def call (fresh : Nat → Nat → UInt8) (cs : List Unichar) (self : StringBuffer) :
    QueueOp → StringBuffer
  | .flush => self.flush
  | .pushBackUnichar c => (self.pushBackUnichar fresh c).2
  | .popFront n => self.popFront (utf8Text (cs.take n)).length

end QueueOp

/-- The queue after a sequence of steps. -/
def contents (ops : List QueueOp) : List Unichar := ops.foldl QueueOp.apply []

/-- The buffer and the queue after a sequence of steps. -/
def calls (staticBuffer : Nat → UInt8) (fresh : Nat → Nat → UInt8) (ops : List QueueOp) :
    StringBuffer × List Unichar :=
  ops.foldl (fun s op => (op.call fresh s.2 s.1, op.apply s.2)) (.init staticBuffer, [])

/-- After every step the buffer reports the bytes of the queue, whatever new memory holds. -/
def ExactByteQueue (ops : List QueueOp) : Prop :=
  ∀ staticBuffer fresh pre, pre <+: ops →
    (calls staticBuffer fresh pre).1.getBuffer = utf8Text (contents pre)

/-- No character is pushed while fewer than four bytes of the static buffer are free. -/
def KeepsStatic (ops : List QueueOp) : Prop :=
  ∀ pre c, pre ++ [.pushBackUnichar c] <+: ops →
    (utf8Text (contents pre)).length + 4 ≤ stringBufferStaticSize

theorem contents_snoc (ops : List QueueOp) (op : QueueOp) :
    contents (ops ++ [op]) = op.apply (contents ops) := by
  simp [contents]

theorem KeepsStatic.of_prefix {ops pre : List QueueOp} (h : KeepsStatic ops) (hp : pre <+: ops) :
    KeepsStatic pre :=
  fun pre' c h' => h pre' c (h'.trans hp)

section

variable (staticBuffer : Nat → UInt8) (fresh : Nat → Nat → UInt8)

theorem calls_snd (ops : List QueueOp) : (calls staticBuffer fresh ops).2 = contents ops := by
  induction ops using List.reverseRecOn with
  | nil => rfl
  | append_singleton ops op ih =>
    rw [contents_snoc, ← ih]
    simp [calls]

theorem calls_snoc (ops : List QueueOp) (op : QueueOp) :
    (calls staticBuffer fresh (ops ++ [op])).1 =
      op.call fresh (contents ops) (calls staticBuffer fresh ops).1 := by
  rw [← calls_snd staticBuffer fresh ops]
  simp [calls]

theorem valid_lt {c : Nat} (h : (QueueOp.pushBackUnichar c).Valid) : c < 2 ^ 21 := by
  have hle : c ≤ 0x10FFFE := h
  omega

/-- One step keeps the static buffer exact if there is room for a character. -/
theorem call_static {self : StringBuffer} {cs : List Unichar} (h : self.Static (utf8Text cs))
    {op : QueueOp} (hv : op.Valid)
    (hroom : ∀ c, op = .pushBackUnichar c → (utf8Text cs).length + 4 ≤ stringBufferStaticSize) :
    (op.call fresh cs self).Static (utf8Text (op.apply cs)) := by
  cases op with
  | flush => exact h.flush
  | pushBackUnichar c =>
    have hpush := h.pushBackUnichar fresh (valid_lt hv) (hroom c rfl)
    simpa [QueueOp.apply, QueueOp.call] using hpush
  | popFront n =>
    have hpop := h.popFront (utf8Text (cs.take n)).length
    have hdrop : (utf8Text cs).drop (utf8Text (cs.take n)).length = utf8Text (cs.drop n) := by
      conv_lhs => rw [← List.take_append_drop n cs, utf8Text_append]
      rw [List.take_append_drop, List.drop_left]
    rwa [hdrop] at hpop

/-- Runs that keep to the static buffer are exact. -/
theorem calls_static {ops : List QueueOp} (hv : ∀ op, op ∈ ops → op.Valid)
    (hk : KeepsStatic ops) :
    (calls staticBuffer fresh ops).1.Static (utf8Text (contents ops)) := by
  induction ops using List.reverseRecOn with
  | nil => exact .init staticBuffer
  | append_singleton ops op ih =>
    rw [calls_snoc, contents_snoc]
    refine call_static fresh (ih ?_ (hk.of_prefix (List.prefix_append ops [op]))) ?_ ?_
    · intro op' hop
      exact hv op' (by simp [hop])
    · exact hv op (by simp)
    · intro c heq
      obtain rfl := heq
      exact hk ops c (List.prefix_rfl)

end

/-- A push without room shows bytes of the new block, which may be anything. -/
theorem not_exact_of_full {ops : List QueueOp} (pre : List QueueOp) {c : Unichar}
    (hv : ∀ op, op ∈ ops → op.Valid) (hp : pre ++ [.pushBackUnichar c] <+: ops)
    (hk : KeepsStatic pre) (hfull : stringBufferStaticSize < (utf8Text (contents pre)).length + 4) :
    ¬ ExactByteQueue ops := by
  intro hex
  obtain ⟨b, bs, hb⟩ : ∃ b bs, utf8Text (contents pre) = b :: bs :=
    List.exists_cons_of_length_pos (by simp only [stringBufferStaticSize] at hfull; omega)
  -- memory whose bytes differ from the first one stored
  let fresh : Nat → Nat → UInt8 := fun _ _ => b + 1
  have hstatic := calls_static (fun _ => 0) fresh
    (fun op hop => hv op (hp.subset (by simp [hop]))) hk
  have hpush := hv (.pushBackUnichar c) (hp.subset (by simp))
  obtain ⟨n, hlost⟩ := hstatic.pushBackUnichar_lost fresh (valid_lt hpush) hfull (i := 0)
    (by rw [hb]; exact Nat.succ_pos _)
  have hkept := hex (fun _ => 0) fresh _ hp
  rw [calls_snoc, contents_snoc] at hkept
  rw [show (QueueOp.pushBackUnichar c).call fresh (contents pre)
    (calls (fun _ => 0) fresh pre).1 = ((calls (fun _ => 0) fresh pre).1.pushBackUnichar fresh c).2
    from rfl] at hkept
  rw [hkept, QueueOp.apply, utf8Text_append, hb] at hlost
  simp [fresh] at hlost

/-- The buffer is an exact queue of bytes as long as it does not leave its static array. -/
theorem exactByteQueue_iff (ops : List QueueOp) (hv : ∀ op, op ∈ ops → op.Valid) :
    ExactByteQueue ops ↔ KeepsStatic ops := by
  constructor
  · intro hex pre
    induction hlen : pre.length using Nat.strongRecOn generalizing pre with
    | ind n ih =>
      intro c hp
      by_contra hfull
      refine not_exact_of_full pre hv hp ?_ (by omega) hex
      -- the shorter prefixes have room
      intro pre' c' hp'
      have hlt : pre'.length < n := by
        have hle := hp'.length_le
        rw [List.length_append, List.length_singleton] at hle
        omega
      exact ih pre'.length hlt pre' rfl c'
        (hp'.trans ((List.prefix_append pre _).trans hp))
  · intro hk staticBuffer fresh pre hp
    exact (calls_static staticBuffer fresh (fun op hop => hv op (hp.subset hop))
      (hk.of_prefix hp)).holds

theorem exactByteQueue_push_pop :
    ExactByteQueue [.pushBackUnichar 0x61, .pushBackUnichar 0x10FFFE, .popFront 1] ↔
      KeepsStatic [.pushBackUnichar 0x61, .pushBackUnichar 0x10FFFE, .popFront 1] :=
  exactByteQueue_iff _ (by simp [QueueOp.Valid])

theorem contents_replicate (n : Nat) (c : Unichar) :
    contents (List.replicate n (.pushBackUnichar c)) = List.replicate n c := by
  induction n with
  | zero => rfl
  | succ n ih => rw [List.replicate_succ', contents_snoc, ih, QueueOp.apply, List.replicate_succ']

/-- Fourteen letters: the last one makes the buffer grow. -/
theorem not_exactByteQueue_growth :
    ¬ ExactByteQueue (List.replicate 14 (.pushBackUnichar 0x61)) := by
  have hlen : ∀ n, (utf8Text (List.replicate n 0x61)).length = n := by
    intro n
    induction n with
    | zero => rfl
    | succ n ih =>
      rw [List.replicate_succ', utf8Text_append, List.length_append, ih]
      rfl
  have hlast : List.replicate 14 (QueueOp.pushBackUnichar 0x61) =
      List.replicate 13 (.pushBackUnichar 0x61) ++ [.pushBackUnichar 0x61] := List.replicate_succ'
  refine not_exact_of_full (List.replicate 13 (.pushBackUnichar 0x61)) (c := 0x61) ?_
    ⟨[], by rw [hlast, List.append_nil]⟩ ?_ ?_
  · intro op hop
    obtain rfl := List.eq_of_mem_replicate hop
    exact Nat.le_of_ble_eq_true rfl
  · intro pre c hp
    obtain ⟨hle, heq⟩ := List.prefix_replicate_iff.mp ((List.prefix_append pre _).trans hp)
    have hshort := hp.length_le
    rw [List.length_append, List.length_singleton, List.length_replicate] at hshort
    rw [heq, contents_replicate, hlen, stringBufferStaticSize]
    omega
  · rw [contents_replicate, hlen]
    decide

end NdsDevkit.Tokenizer
