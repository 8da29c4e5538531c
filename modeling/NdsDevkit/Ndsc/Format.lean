import NdsDevkit.Framework.FlaggedStream
import NdsDevkit.Framework.BackReference

namespace NdsDevkit.Ndsc

open Framework

/-- One item of an NDSC stream. Each constructor carries the range of its length fields, so
that every item has an encoding. -/
inductive Item where
  | literal (b : UInt8)
  | block (bs : List UInt8) (hl : 16 ≤ bs.length ∧ bs.length < 4096 + 16)
  | run (cnt : Nat) (hl : 3 ≤ cnt ∧ cnt < 4096 + 3)
  | pattern (gap cnt : Nat) (hg : gap < 4096) (hl : 3 ≤ cnt ∧ cnt < 256 + 16)

namespace Item

/-- The control bit an item answers to. -/
def flag : Item → Bool
  | literal _ => false
  | _ => true

/-- A 2-byte command: four bits of opcode and twelve bits of field. -/
def command (cmd field : Nat) : List UInt8 :=
  [UInt8.ofNat (cmd * 16 + field / 256), UInt8.ofNat field]

def bytes : Item → List UInt8
  | literal b => [b]
  | block bs _ => command 0 (bs.length - 16) ++ bs
  | run cnt _ => command 1 (cnt - 3)
  | pattern gap cnt _ _ =>
    if cnt < 16 then command cnt gap else command 2 gap ++ [UInt8.ofNat (cnt - 16)]

def edit : Item → Edit UInt8
  | literal b => .emit [b]
  | block bs _ => .emit bs
  | run cnt _ => .fill cnt
  | pattern gap cnt _ _ => .copy gap cnt

@[simp] theorem command_length (cmd field : Nat) : (command cmd field).length = 2 := rfl

theorem bytes_ne_nil (it : Item) : it.bytes ≠ [] := by
  cases it <;> simp only [bytes, command] <;> try split
  all_goals simp

theorem produced_pos (it : Item) : 0 < it.edit.produced := by
  cases it <;> simp only [edit, Edit.produced, List.length_singleton] <;> omega

/-- An encoder uses a block only where single literals would cost more. -/
def Tight : Item → Prop
  | block bs _ => 16 < bs.length
  | _ => True

/-- A tight item takes at most nine bits, its control bit included, for each byte it
stands for. -/
theorem Tight.bits_le {it : Item} (h : it.Tight) :
    8 * it.bytes.length + 1 ≤ 9 * it.edit.produced := by
  cases it with
  | literal b => simp [bytes, edit, Edit.produced]
  | block bs hl =>
    simp only [Tight] at h
    simp only [bytes, edit, Edit.produced, List.length_append, command_length]
    omega
  | run cnt hl =>
    simp only [bytes, edit, Edit.produced, command_length]
    omega
  | pattern gap cnt hg hl =>
    simp only [bytes, edit, Edit.produced]
    split
    · simp only [command_length]
      omega
    · simp only [List.length_append, command_length, List.length_singleton]
      omega

end Item

/-- The NDSC format: control bytes and complete items, with the output the items produce. -/
def IsNDSC (src out : List UInt8) : Prop :=
  ∃ items bits, Reads Item.flag Item.bytes ([], src) items (bits, []) ∧
    Edit.applyAll (items.map Item.edit) [] = some out

/-- The opcode of a command. -/
def cmdOf (b0 : UInt8) : Nat := b0.toNat / 16

/-- The twelve-bit field of a command. -/
def fieldOf (b0 b1 : UInt8) : Nat := b0.toNat % 16 * 256 + b1.toNat

theorem cmdOf_lt (b0 : UInt8) : cmdOf b0 < 16 := by
  have := b0.toNat_lt
  rw [cmdOf]
  omega

theorem fieldOf_lt (b0 b1 : UInt8) : fieldOf b0 b1 < 4096 := by
  have := b1.toNat_lt
  rw [fieldOf]
  omega

theorem command_cmdOf_fieldOf (b0 b1 : UInt8) :
    Item.command (cmdOf b0) (fieldOf b0 b1) = [b0, b1] := by
  have h0 := b0.toNat_lt
  have h1 := b1.toNat_lt
  have e0 : cmdOf b0 * 16 + fieldOf b0 b1 / 256 = b0.toNat := by
    rw [cmdOf, fieldOf]
    omega
  have e1 : UInt8.ofNat (fieldOf b0 b1) = b1 := by
    apply UInt8.toNat_inj.mp
    rw [UInt8.toNat_ofNat']
    rw [fieldOf]
    omega
  simp [Item.command, e0, e1]

theorem cmdOf_command {cmd field : Nat} (hc : cmd < 16) (hf : field < 4096) :
    cmdOf (UInt8.ofNat (cmd * 16 + field / 256)) = cmd := by
  rw [cmdOf, UInt8.toNat_ofNat']
  omega

theorem fieldOf_command (cmd : Nat) {field : Nat} (hf : field < 4096) :
    fieldOf (UInt8.ofNat (cmd * 16 + field / 256)) (UInt8.ofNat field) = field := by
  rw [fieldOf, UInt8.toNat_ofNat', UInt8.toNat_ofNat']
  omega

/-- What the decoder makes of a control bit and the bytes after it. -/
inductive Parsed where
  /-- Too few bytes are left: the decoder passes over the control bit. -/
  | skip (rest : List UInt8)
  | fail
  | item (it : Item) (rest : List UInt8)

/-- A command with opcode `cmd` and field `cnt`, followed by `rest`. -/
def parseCommand (cmd cnt : Nat) (hc : cmd < 16) (hf : cnt < 4096) (rest : List UInt8) : Parsed :=
  if cmd = 0 then
    if h : cnt + 16 ≤ rest.length then
      .item (.block (rest.take (cnt + 16)) (by simp; omega)) (rest.drop (cnt + 16))
    else .fail
  else if cmd = 1 then .item (.run (cnt + 3) (by omega)) rest
  else if cmd = 2 then
    match rest with
    | [] => .skip []
    | b2 :: rest =>
      .item (.pattern cnt (b2.toNat + 16) hf (by have := b2.toNat_lt; omega)) rest
  else if h : 3 ≤ cmd then .item (.pattern cnt cmd hf (by omega)) rest
  else .fail

def parse : Bool → List UInt8 → Parsed
  | false, b :: rest => .item (.literal b) rest
  | true, b0 :: b1 :: rest =>
    parseCommand (cmdOf b0) (fieldOf b0 b1) (cmdOf_lt b0) (fieldOf_lt b0 b1) rest
  | _, rest => .skip rest

theorem parseCommand_item {cmd cnt : Nat} (hc : cmd < 16) (hf : cnt < 4096)
    {rest rest' : List UInt8} {it : Item} (h : parseCommand cmd cnt hc hf rest = .item it rest') :
    it.flag = true ∧ Item.command cmd cnt ++ rest = it.bytes ++ rest' := by
  unfold parseCommand at h
  split_ifs at h with h0 hl h1 h2 h3
  · cases h
    refine ⟨rfl, ?_⟩
    simp [Item.bytes, h0, Nat.min_eq_left hl, List.take_append_drop]
  · cases h
    exact ⟨rfl, by simp [Item.bytes, h1]⟩
  · match rest, h with
    | b2 :: rest, h =>
      cases h
      have hn : ¬ b2.toNat + 16 < 16 := by omega
      exact ⟨rfl, by simp [Item.bytes, h2, hn]⟩
  · cases h
    exact ⟨rfl, by simp [Item.bytes, hc]⟩

/-- A parsed item is the one whose encoding stands at the head of the source. -/
theorem parse_item {bit : Bool} {src rest : List UInt8} {it : Item}
    (h : parse bit src = .item it rest) : it.flag = bit ∧ src = it.bytes ++ rest := by
  match bit, src, h with
  | false, b :: _, h =>
    cases h
    exact ⟨rfl, rfl⟩
  | true, b0 :: b1 :: src, h =>
    have hp := parseCommand_item (cmdOf_lt b0) (fieldOf_lt b0 b1) h
    rw [command_cmdOf_fieldOf] at hp
    exact hp
  | true, [], h => cases h
  | true, [_], h => cases h
  | false, [], h => cases h

theorem parse_command {cmd cnt : Nat} (hc : cmd < 16) (hf : cnt < 4096) (rest : List UInt8) :
    parse true (Item.command cmd cnt ++ rest) = parseCommand cmd cnt hc hf rest := by
  have hcongr : ∀ c f hc' hf', c = cmd → f = cnt →
      parseCommand c f hc' hf' rest = parseCommand cmd cnt hc hf rest := by
    intro _ _ _ _ heq hsame
    obtain rfl := heq
    obtain rfl := hsame
    rfl
  exact hcongr _ _ (cmdOf_lt _) (fieldOf_lt _ _) (cmdOf_command hc hf) (fieldOf_command cmd hf)

/-- The encoding of an item parses as this item. -/
theorem parse_bytes (it : Item) (rest : List UInt8) :
    parse it.flag (it.bytes ++ rest) = .item it rest := by
  cases it with
  | literal b => rfl
  | block bs hl =>
    have hle : bs.length - 16 + 16 ≤ (bs ++ rest).length := by
      rw [List.length_append]
      omega
    have hn : bs.length - 16 + 16 = bs.length := by omega
    simp only [Item.flag, Item.bytes, List.append_assoc]
    rw [parse_command (by decide) (by omega)]
    simp only [parseCommand, if_true, dif_pos hle]
    simp [hn]
  | run cnt hl =>
    have hn : cnt - 3 + 3 = cnt := by omega
    simp only [Item.flag, Item.bytes]
    rw [parse_command (by decide) (by omega)]
    simp [parseCommand, hn]
  | pattern gap cnt hg hl =>
    simp only [Item.flag, Item.bytes]
    split
    · next hs =>
      rw [parse_command hs hg]
      unfold parseCommand
      rw [if_neg (by omega), if_neg (by omega), if_neg (by omega), dif_pos hl.1]
    · next hs =>
      have hb : (UInt8.ofNat (cnt - 16)).toNat + 16 = cnt := by
        rw [UInt8.toNat_ofNat']
        omega
      rw [List.append_assoc, parse_command (by decide) hg]
      simp only [parseCommand, List.cons_append, List.nil_append, hb]
      rfl

end NdsDevkit.Ndsc
