import NdsDevkit.Ndsc.Pack
import NdsDevkit.Ndsc.Format

namespace NdsDevkit.Ndsc

open Framework

/-- The writer's variables stand for a frame. `cnt` counts the control bits in use, among them
a reserved bit that is not in the frame yet. -/
structure Writer.Shows (w : Writer) (dstLen : Nat) (f : Frame) (cnt : Nat) : Prop where
  size : w.dst.size = dstLen
  ctrlCnt : w.ctrlCnt = cnt
  ctrlOfs : w.ctrlOfs = f.closed.length
  outOfs : w.outOfs = f.size
  ctrlData : w.ctrlData.toNat % 2 ^ f.flags.length = flagValue f.flags
  closed : w.dst.Holds 0 f.closed
  data : w.dst.Holds (f.closed.length + 1) f.data

variable {w : Writer} {dstLen cnt : Nat} {f : Frame}

theorem controlByte_of_full {c : UInt8} {flags : List Bool} (hl : flags.length = 8)
    (h : c.toNat % 2 ^ flags.length = flagValue flags) : c = controlByte flags := by
  have hlt := c.toNat_lt
  apply UInt8.toNat_inj.mp
  rw [controlByte, UInt8.toNat_ofNat', ← h, hl]
  omega

/-- Writing the control byte closes the group. -/
theorem Writer.Shows.close (h : w.Shows dstLen f cnt) (c : UInt8) :
    (w.dst.put w.ctrlOfs [c]).Holds 0 (f.closed ++ c :: f.data) := by
  have hclosed : (w.dst.put w.ctrlOfs [c]).Holds 0 f.closed :=
    h.closed.put_apart (.inl (by rw [h.ctrlOfs]; omega))
  have hctrl : (w.dst.put w.ctrlOfs [c]).Holds f.closed.length [c] := by
    rw [h.ctrlOfs]
    exact Buf.Holds.put_same _ _ _
  have hdata : (w.dst.put w.ctrlOfs [c]).Holds (f.closed.length + 1) f.data :=
    h.data.put_apart (.inr (by rw [h.ctrlOfs]; simp))
  have hgroup : (w.dst.put w.ctrlOfs [c]).Holds f.closed.length ([c] ++ f.data) :=
    Buf.holds_append.mpr ⟨hctrl, hdata⟩
  exact Buf.holds_append.mpr ⟨hclosed, by simpa using hgroup⟩

theorem Writer.Shows.reserve (h : w.Shows dstLen f f.flags.length)
    (hroom : f.flags.length = 8 → f.size ≤ dstLen) :
    ∃ w', w.reserve = .ok w' ∧ w'.Shows dstLen f.ready (f.ready.flags.length + 1) := by
  rw [Writer.reserve, Frame.ready]
  rw [h.ctrlCnt]
  by_cases h8 : f.flags.length = 8
  · have hin : w.ctrlOfs < w.dst.size := by
      have hr := hroom h8
      rw [Frame.size] at hr
      rw [h.ctrlOfs, h.size]
      omega
    have hc := controlByte_of_full h8 h.ctrlData
    have hclose := h.close w.ctrlData
    rw [if_pos h8, if_pos h8, Buf.write_eq _ hin]
    refine ⟨_, rfl, h.size, rfl, ?_, ?_, Nat.mod_one _, ?_, Buf.holds_nil _ _⟩
    · rw [Frame.output_length, h.outOfs]
    · simp [Frame.size, h.outOfs]
    · rw [hc] at hclose ⊢
      exact hclose
  · rw [if_neg h8, if_neg h8]
    exact ⟨_, rfl, h.size, rfl, h.ctrlOfs, h.outOfs, h.ctrlData, h.closed, h.data⟩

theorem Writer.Shows.storeMany (h : w.Shows dstLen f cnt) (xs : List UInt8)
    (hl : f.size + xs.length ≤ dstLen) :
    ∃ w', w.storeMany xs = .ok w' ∧ w'.Shows dstLen (f.addData xs) cnt := by
  have hin : w.outOfs + xs.length ≤ w.dst.size := by rw [h.outOfs, h.size]; exact hl
  have hofs : w.outOfs = f.closed.length + 1 + f.data.length := h.outOfs
  rw [Writer.storeMany]
  rw [Buf.writeMany_eq hin]
  refine ⟨_, rfl, h.size, h.ctrlCnt, h.ctrlOfs, ?_, h.ctrlData, ?_, ?_⟩
  · rw [Frame.size_addData, h.outOfs]
  · exact h.closed.put_apart (.inl (by omega))
  · rw [hofs]
    exact h.data.put_append

theorem Writer.store_eq_storeMany (w : Writer) (b : UInt8) : w.store b = w.storeMany [b] := by
  rw [Writer.store, Writer.storeMany, Buf.write, Buf.writeMany]
  rfl

theorem Writer.Shows.store (h : w.Shows dstLen f cnt) (b : UInt8) (hl : f.size + 1 ≤ dstLen) :
    ∃ w', w.store b = .ok w' ∧ w'.Shows dstLen (f.addData [b]) cnt := by
  rw [Writer.store_eq_storeMany]
  exact h.storeMany [b] hl

theorem shift_mod (c : UInt8) (b : Bool) {n v : Nat} (hn : n < 8) (h : c.toNat % 2 ^ n = v) :
    (if b then c <<< 1 ||| 1 else c <<< 1).toNat % 2 ^ (n + 1) = 2 * v + b.toNat := by
  have hdvd : 2 ^ (n + 1) ∣ 256 := Nat.pow_dvd_pow 2 (show n + 1 ≤ 8 by omega)
  have hsh : (c <<< 1).toNat = 2 * c.toNat % 256 := by
    rw [UInt8.toNat_shiftLeft]
    simp [Nat.shiftLeft_eq, Nat.mul_comm]
  have hbyte : (if b then c <<< 1 ||| 1 else c <<< 1).toNat = 2 * c.toNat % 256 + b.toNat := by
    cases b with
    | false => simp [hsh]
    | true =>
      have hor := Nat.two_pow_add_eq_or_of_lt (b := 1) (i := 1) (by decide) (c.toNat % 128)
      have heven : 2 * c.toNat % 256 = 2 ^ 1 * (c.toNat % 128) := by omega
      simp only [if_true, UInt8.toNat_or, hsh, heven]
      exact hor.symm
  rw [hbyte, Nat.add_mod, Nat.mod_mod_of_dvd _ hdvd, ← Nat.add_mod, Nat.pow_succ, ← h,
    Nat.mul_comm (2 ^ n) 2]
  have hb := b.toNat_le
  have hpos := Nat.two_pow_pos n
  rw [Nat.add_mod, Nat.mul_mod_mul_left, Nat.mod_eq_of_lt (a := b.toNat) (by omega)]
  have hlt := Nat.mod_lt c.toNat hpos
  exact Nat.mod_eq_of_lt (by omega)

theorem Writer.Shows.shift (h : w.Shows dstLen f (f.flags.length + 1)) (hlt : f.flags.length < 8)
    (b : Bool) : (w.shift b).Shows dstLen (f.addFlag b) (f.addFlag b).flags.length := by
  refine ⟨h.size, ?_, h.ctrlOfs, h.outOfs, ?_, h.closed, h.data⟩
  · simpa [Frame.addFlag, Writer.shift] using h.ctrlCnt
  · simp only [Frame.addFlag, Writer.shift, List.length_append, List.length_singleton,
      flagValue_append]
    exact shift_mod w.ctrlData b hlt h.ctrlData

/-- The frame of an item list. -/
abbrev frameOf (items : List Item) : Frame := Frame.ofItems Item.flag Item.bytes items

/-- The writer has written these items. Only the first control byte is reserved unchecked. -/
structure Writer.Written (w : Writer) (dstLen : Nat) (items : List Item) : Prop where
  shows : w.Shows dstLen (frameOf items) (frameOf items).flags.length
  room : items ≠ [] → (frameOf items).size ≤ dstLen

/-- An item does not fit. -/
def Overflows (dstLen : Nat) (items : List Item) (e : Stop) : Prop :=
  e = .failure ∧ dstLen < (frameOf items).size

variable {items : List Item}

theorem Writer.Written.reserve (h : w.Written dstLen items) :
    ∃ w', w.reserve = .ok w' ∧
      w'.Shows dstLen (frameOf items).ready ((frameOf items).ready.flags.length + 1) := by
  refine h.shows.reserve fun h8 => h.room ?_
  intro hnil
  rw [hnil] at h8
  cases h8

theorem frameOf_size_push (items : List Item) (it : Item) :
    (frameOf (items ++ [it])).size = (frameOf items).ready.size + it.bytes.length := by
  rw [frameOf, Frame.ofItems_append, Frame.push_eq, Frame.size_addFlag, Frame.size_addData]

theorem ready_flags_lt (items : List Item) : (frameOf items).ready.flags.length < 8 :=
  Frame.ready_flags_lt (Frame.ofItems_flags_le _ _ items)

/-- The bytes of an item and then its control bit complete the item. -/
theorem Writer.Shows.item (it : Item) {xs : List UInt8}
    (h : w.Shows dstLen ((frameOf items).ready.addData xs)
      ((frameOf items).ready.flags.length + 1)) (hxs : xs = it.bytes)
    (hroom : (frameOf (items ++ [it])).size ≤ dstLen) :
    (w.shift it.flag).Written dstLen (items ++ [it]) := by
  subst hxs
  refine ⟨?_, fun _ => hroom⟩
  rw [frameOf, Frame.ofItems_append, Frame.push_eq]
  exact h.shift (ready_flags_lt items) it.flag

theorem Writer.Written.putRun (h : w.Written dstLen items) {n : Nat} (hn : 3 ≤ n ∧ n < 4096 + 3) :
    Ends (w.putRun n) (fun w' => w'.Written dstLen (items ++ [.run n hn]))
      (Overflows dstLen (items ++ [.run n hn])) := by
  have hsize := frameOf_size_push items (.run n hn)
  have hbytes : (Item.run n hn).bytes.length = 2 := rfl
  obtain ⟨w1, hw1, hs1⟩ := h.reserve
  have hout := hs1.outOfs
  have hdst := hs1.size
  rw [Writer.putRun]
  simp only [hw1, bind, Except.bind]
  by_cases hc : w1.outOfs + 2 ≤ w1.dst.size
  · rw [if_pos hc]
    obtain ⟨w2, hw2, hs2⟩ := hs1.store (UInt8.ofNat (1 * 16 + (n - 3) / 256)) (by omega)
    obtain ⟨w3, hw3, hs3⟩ := hs2.store (UInt8.ofNat (n - 3)) (by simp; omega)
    rw [Frame.addData_addData] at hs3
    simp only [hw2, hw3]
    exact hs3.item (.run n hn) rfl (by omega)
  · have hover : dstLen < (frameOf (items ++ [.run n hn])).size := by omega
    rw [if_neg hc]
    exact ⟨rfl, hover⟩

theorem Writer.Written.putPattern (h : w.Written dstLen items) {mcnt mgap : Nat}
    (hg : mgap < 4096) (hn : 3 ≤ mcnt ∧ mcnt < 256 + 16) :
    Ends (w.putPattern mcnt mgap)
      (fun w' => w'.Written dstLen (items ++ [.pattern mgap mcnt hg hn]))
      (Overflows dstLen (items ++ [.pattern mgap mcnt hg hn])) := by
  have hsize := frameOf_size_push items (.pattern mgap mcnt hg hn)
  obtain ⟨w1, hw1, hs1⟩ := h.reserve
  have hout := hs1.outOfs
  have hdst := hs1.size
  have hover
      (hc : dstLen < (frameOf items).ready.size + (Item.pattern mgap mcnt hg hn).bytes.length) :
      Overflows dstLen (items ++ [.pattern mgap mcnt hg hn]) .failure := ⟨rfl, hsize ▸ hc⟩
  rw [Writer.putPattern]
  simp only [hw1, bind, Except.bind]
  by_cases hs : mcnt < 16
  · have hbytes : (Item.pattern mgap mcnt hg hn).bytes = Item.command mcnt mgap := if_pos hs
    rw [hbytes, Item.command_length] at hsize
    rw [if_pos hs]
    by_cases hc : w1.outOfs + 2 ≤ w1.dst.size
    · rw [if_pos hc]
      obtain ⟨w2, hw2, hs2⟩ := hs1.store (UInt8.ofNat (mcnt * 16 + mgap / 256)) (by omega)
      obtain ⟨w3, hw3, hs3⟩ := hs2.store (UInt8.ofNat mgap) (by simp; omega)
      rw [Frame.addData_addData] at hs3
      simp only [hw2, hw3]
      exact hs3.item (.pattern mgap mcnt hg hn) hbytes.symm (by omega)
    · rw [if_neg hc]
      exact hover (by rw [hbytes, Item.command_length]; omega)
  · have hbytes : (Item.pattern mgap mcnt hg hn).bytes =
        Item.command 2 mgap ++ [UInt8.ofNat (mcnt - 16)] := if_neg hs
    rw [hbytes, List.length_append, Item.command_length, List.length_singleton] at hsize
    rw [if_neg hs]
    by_cases hc : w1.outOfs + 3 ≤ w1.dst.size
    · rw [if_pos hc]
      obtain ⟨w2, hw2, hs2⟩ := hs1.store (UInt8.ofNat (2 * 16 + mgap / 256)) (by omega)
      obtain ⟨w3, hw3, hs3⟩ := hs2.store (UInt8.ofNat mgap) (by simp; omega)
      obtain ⟨w4, hw4, hs4⟩ := hs3.store (UInt8.ofNat (mcnt - 16)) (by simp; omega)
      rw [Frame.addData_addData, Frame.addData_addData] at hs4
      simp only [hw2, hw3, hw4]
      exact hs4.item (.pattern mgap mcnt hg hn) hbytes.symm (by omega)
    · rw [if_neg hc]
      exact hover (by
        rw [hbytes, List.length_append, Item.command_length, List.length_singleton]
        omega)

/-- The written items stand for the first `n` bytes of the source. -/
structure Spells (src : List UInt8) (n : Nat) (items : List Item) : Prop where
  edits : Edit.applyAll (items.map Item.edit) [] = some (src.take n)
  tight : ∀ it ∈ items, it.Tight

def Writer.Packed (w : Writer) (dstLen : Nat) (src : List UInt8) (n : Nat) : Prop :=
  ∃ items, w.Written dstLen items ∧ Spells src n items

/-- The encoder gives up, and the target is smaller than the bound. -/
def TooSmall (dstLen : Nat) (src : List UInt8) (e : Stop) : Prop :=
  e = .failure ∧ dstLen < 9 * src.length / 8 + 1

variable {src : List UInt8} {n m : Nat}

theorem Spells.concat {it : Item} (h : Spells src n items)
    (he : it.edit.apply (src.take n) = some (src.take m)) (ht : it.Tight) :
    Spells src m (items ++ [it]) := by
  refine ⟨?_, ?_⟩
  · rw [List.map_append]
    exact Edit.applyAll_concat h.edits he
  · intro it' hit
    rcases List.mem_append.mp hit with h' | h'
    · exact h.tight it' h'
    · rw [List.mem_singleton.mp h']
      exact ht

theorem tight_bits_le {items : List Item} (h : ∀ it ∈ items, it.Tight) :
    (items.map fun it => 8 * it.bytes.length + 1).sum ≤
      9 * ((items.map Item.edit).map Edit.produced).sum := by
  induction items with
  | nil => simp
  | cons it items ih =>
    have h1 := (h it (by simp)).bits_le
    have h2 := ih fun it' hit => h it' (List.mem_cons_of_mem _ hit)
    simp only [List.map_cons, List.sum_cons]
    omega

/-- Nine bits for each source byte and the control bits reserved ahead. -/
theorem Spells.size_le (h : Spells src n items) (hne : items ≠ []) :
    8 * (frameOf items).size ≤ 9 * min n src.length + 7 := by
  have hsize := Frame.ofItems_size Item.flag Item.bytes items
  have hpos := Frame.ofItems_flags_pos Item.flag Item.bytes hne
  have hlen := Edit.length_applyAll h.edits
  have hbits := tight_bits_le h.tight
  rw [List.length_take] at hlen
  simp only [List.length_nil, Nat.zero_add] at hlen
  rw [frameOf]
  omega

theorem Spells.tooSmall {e : Stop} (h : Spells src n items) (hne : items ≠ [])
    (ho : Overflows dstLen items e) : TooSmall dstLen src e := by
  have hle := h.size_le hne
  have hlt := ho.2
  exact ⟨ho.1, by omega⟩

/-- Writing an item that continues the source. -/
theorem Spells.put (it : Item) {x : Except Stop Writer} (h : Spells src n items)
    (he : it.edit.apply (src.take n) = some (src.take m)) (ht : it.Tight)
    (hx : Ends x (fun w' => w'.Written dstLen (items ++ [it])) (Overflows dstLen (items ++ [it]))) :
    Ends x (fun w' => w'.Packed dstLen src m) (TooSmall dstLen src) := by
  have hs := h.concat he ht
  exact hx.mono (fun w' hw' => ⟨_, hw', hs⟩) fun e ho => hs.tooSmall (by simp) ho

theorem Writer.Written.putLiteral (h : w.Written dstLen items) {w1 : Writer}
    (hw1 : w.reserve = .ok w1) {ofs : Nat} (hofs : ofs < src.length) :
    Ends (w1.putLiteral (.ofList src) ofs)
      (fun w' => w'.Written dstLen (items ++ [.literal src[ofs]]))
      (Overflows dstLen (items ++ [.literal src[ofs]])) := by
  have hsize := frameOf_size_push items (.literal src[ofs])
  have hbytes : (Item.literal src[ofs]).bytes.length = 1 := rfl
  obtain ⟨w1', hw1', hs1⟩ := h.reserve
  rw [hw1] at hw1'
  cases hw1'
  have hout := hs1.outOfs
  have hdst := hs1.size
  rw [Writer.putLiteral]
  by_cases hc : w1.outOfs < w1.dst.size
  · rw [if_pos hc, Buf.read_ofList hofs]
    obtain ⟨w2, hw2, hs2⟩ := hs1.store src[ofs] (by omega)
    simp only [bind, Except.bind, hw2]
    exact hs2.item (.literal src[ofs]) rfl (by omega)
  · have hover : dstLen < (frameOf (items ++ [.literal src[ofs]])).size := by omega
    rw [if_neg hc]
    exact ⟨rfl, hover⟩

theorem Writer.Written.putBlock (h : w.Written dstLen items) {w1 : Writer}
    (hw1 : w.reserve = .ok w1) {ofs gap : Nat} (hofs : ofs + gap ≤ src.length)
    (hl : 16 ≤ ((src.drop ofs).take gap).length ∧ ((src.drop ofs).take gap).length < 4096 + 16) :
    Ends (w1.putBlock (.ofList src) ofs gap)
      (fun w' => w'.Written dstLen (items ++ [.block ((src.drop ofs).take gap) hl]))
      (Overflows dstLen (items ++ [.block ((src.drop ofs).take gap) hl])) := by
  have hsize := frameOf_size_push items (.block ((src.drop ofs).take gap) hl)
  have hread : (Buf.ofList src).readMany ofs gap = .ok ((src.drop ofs).take gap) :=
    (Buf.holds_ofList src).readMany_sub hofs (Nat.le_refl _)
  have hlen : ((src.drop ofs).take gap).length = gap := by
    rw [List.length_take, List.length_drop]
    omega
  generalize (src.drop ofs).take gap = bs at *
  have hbytes : (Item.block bs hl).bytes = Item.command 0 (gap - 16) ++ bs := by rw [← hlen]; rfl
  rw [hbytes, List.length_append, Item.command_length] at hsize
  obtain ⟨w1', hw1', hs1⟩ := h.reserve
  rw [hw1] at hw1'
  cases hw1'
  have hout := hs1.outOfs
  have hdst := hs1.size
  rw [Writer.putBlock]
  by_cases hc : w1.outOfs + 2 + gap ≤ w1.dst.size
  · rw [if_pos hc, hread]
    obtain ⟨w2, hw2, hs2⟩ := hs1.store (UInt8.ofNat (0 * 16 + (gap - 16) / 256)) (by omega)
    obtain ⟨w3, hw3, hs3⟩ := hs2.store (UInt8.ofNat (gap - 16)) (by simp; omega)
    have hs4 := hs3.shift (ready_flags_lt items) true
    obtain ⟨w5, hw5, hs5⟩ := hs4.storeMany bs (by simp; omega)
    simp only [hw2, hw3, hw5, bind, Except.bind]
    refine ⟨?_, fun _ => by omega⟩
    rw [Frame.addFlag_addData, Frame.addData_addData, Frame.addData_addData] at hs5
    rw [frameOf, Frame.ofItems_append, Frame.push_eq, hbytes]
    exact hs5
  · have hover : dstLen < (frameOf (items ++ [.block bs hl])).size := by omega
    rw [if_neg hc]
    exact ⟨rfl, hover⟩

theorem flushStep_spec {curOfs : Nat} (s : Nat × Writer) (hp : s.2.Packed dstLen src s.1)
    (hlt : s.1 < curOfs) (hcur : curOfs ≤ src.length) :
    Ends (Writer.flushStep (.ofList src) curOfs s)
      (fun s' => s'.2.Packed dstLen src s'.1 ∧ s.1 < s'.1 ∧ s'.1 ≤ curOfs)
      (TooSmall dstLen src) := by
  obtain ⟨ofs, w⟩ := s
  simp only at hp hlt
  obtain ⟨items, hw, hspell⟩ := hp
  obtain ⟨w1, hw1, _⟩ := hw.reserve
  rw [Writer.flushStep]
  simp only [hw1, bind, Except.bind]
  by_cases hbig : curOfs - ofs > 16
  · rw [if_pos hbig]
    generalize hgap : min (curOfs - ofs) (4096 + 16 - 1) = gap
    have hlen : ((src.drop ofs).take gap).length = gap := by
      rw [List.length_take, List.length_drop]
      omega
    have hl : 16 ≤ ((src.drop ofs).take gap).length ∧
        ((src.drop ofs).take gap).length < 4096 + 16 := by omega
    have hput := hspell.put (.block ((src.drop ofs).take gap) hl) (Edit.emit_take src ofs gap)
      (by rw [Item.Tight]; omega) (hw.putBlock hw1 (by omega) hl)
    exact hput.bind fun w' hw' => ⟨hw', by simp only; omega, by simp only; omega⟩
  · rw [if_neg hbig]
    have hone : (src.drop ofs).take 1 = [src[ofs]] := by
      rw [List.drop_eq_getElem_cons (by omega)]
      rfl
    have hedit := Edit.emit_take src ofs 1
    rw [hone] at hedit
    have hput := hspell.put (.literal src[ofs]) hedit trivial (hw.putLiteral hw1 (by omega))
    exact hput.bind fun w' hw' => ⟨hw', by simp only; omega, by simp only; omega⟩

/-- A flush writes the open block and leaves everything up to `curOfs` written. -/
theorem flush_spec {curOfs : Nat} {uncOfs : Option Nat}
    (hp : w.Packed dstLen src (uncOfs.getD curOfs)) (hle : ∀ u, uncOfs = some u → u ≤ curOfs)
    (hcur : curOfs ≤ src.length) :
    Ends (w.flush (.ofList src) curOfs uncOfs) (fun w' => w'.Packed dstLen src curOfs)
      (TooSmall dstLen src) := by
  cases uncOfs with
  | none => exact hp
  | some u =>
    have hloop := Ends.whileDo (fun s : Nat × Writer => decide (s.1 < curOfs))
      (Writer.flushStep (.ofList src) curOfs) Stop.outOfFuel
      (fun s => s.2.Packed dstLen src s.1 ∧ s.1 ≤ curOfs) (fun s => curOfs - s.1)
      (TooSmall dstLen src)
      (fun s hs hc => (flushStep_spec s hs.1 (by simpa using hc) hcur).mono
        (fun s' hs' => ⟨⟨hs'.1, hs'.2.2⟩, by have := hs'.2; omega⟩) fun _ he => he)
      (curOfs + 1) (u, w) ⟨hp, hle u rfl⟩ (by simp only; omega)
    apply hloop.bind
    intro s hboth
    obtain ⟨⟨hps, hles⟩, hc⟩ := hboth
    have hge : curOfs ≤ s.1 := by simpa using hc
    rw [Nat.le_antisymm hles hge] at hps
    exact hps

end NdsDevkit.Ndsc
