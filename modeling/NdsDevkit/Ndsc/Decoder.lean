import NdsDevkit.Ndsc.Format

namespace NdsDevkit.Ndsc

open Framework

/-- The decoder on lists: pending control bits, unread source, output, and whether a control
bit was passed over because its item was incomplete. -/
structure Decoder where
  bits : List Bool
  rest : List UInt8
  out : List UInt8
  skipped : Bool

/-- Takes a new control byte when no control bit is pending. -/
def load : List Bool → List UInt8 → List Bool × List UInt8
  | [], c :: rest => (controlBits c, rest)
  | bits, rest => (bits, rest)

/-- The decoder after a parsed item; a complete item must fit into the target. -/
def settle (dstLen : Nat) (bits : List Bool) (out : List UInt8) (skipped : Bool) :
    Parsed → Option Decoder
  | .skip rest => some ⟨bits, rest, out, true⟩
  | .fail => none
  | .item it rest => (it.edit.apply out).bind fun out' =>
      if out'.length ≤ dstLen then some ⟨bits, rest, out', skipped⟩ else none

def decodeStep (dstLen : Nat) (d : Decoder) : Option Decoder :=
  if dstLen ≤ d.out.length then none
  else
    match load d.bits d.rest with
    | ([], rest) => some ⟨[], rest, d.out, d.skipped⟩
    | (bit :: bits, rest) => settle dstLen bits d.out d.skipped (parse bit rest)

/-- The decoder uses up its source, and then the output has exactly `dstLen` bytes. -/
inductive Accepts (dstLen : Nat) : Decoder → List UInt8 → Bool → Prop where
  | done {d} (hr : d.rest = []) (hl : d.out.length = dstLen) : Accepts dstLen d d.out d.skipped
  | step {d d' out sk} (hr : d.rest ≠ []) (hs : decodeStep dstLen d = some d')
      (h : Accepts dstLen d' out sk) : Accepts dstLen d out sk

theorem Accepts.unique {dstLen : Nat} {d : Decoder} {out out' : List UInt8} {sk sk' : Bool}
    (h : Accepts dstLen d out sk) (h' : Accepts dstLen d out' sk') : out = out' ∧ sk = sk' := by
  induction h with
  | done hr hl =>
    cases h' with
    | done => exact ⟨rfl, rfl⟩
    | step hr' => exact absurd hr hr'
  | step hr hs _ ih =>
    cases h' with
    | done hr' => exact absurd hr' hr
    | step _ hs' h' =>
      rw [hs] at hs'
      cases hs'
      exact ih h'

theorem Accepts.out_of_nil {dstLen : Nat} {d : Decoder} {out : List UInt8} {sk : Bool}
    (h : Accepts dstLen d out sk) (hr : d.rest = []) :
    out = d.out ∧ sk = d.skipped ∧ d.out.length = dstLen := by
  cases h with
  | done _ hl => exact ⟨rfl, rfl, hl⟩
  | step hr' => exact absurd hr hr'

theorem Accepts.of_step {dstLen : Nat} {d : Decoder} {out : List UInt8} {sk : Bool}
    (h : Accepts dstLen d out sk) (hr : d.rest ≠ []) :
    ∃ d', decodeStep dstLen d = some d' ∧ Accepts dstLen d' out sk := by
  cases h with
  | done hr' => exact absurd hr' hr
  | step _ hs h => exact ⟨_, hs, h⟩

/-- Passes neither add nor remove acceptable outputs. -/
theorem Accepts.step_iff {dstLen : Nat} {d d' : Decoder} (hr : d.rest ≠ [])
    (hs : decodeStep dstLen d = some d') (out : List UInt8) (sk : Bool) :
    Accepts dstLen d out sk ↔ Accepts dstLen d' out sk := by
  constructor
  · intro h
    obtain ⟨d1, h1, h2⟩ := h.of_step hr
    rw [hs] at h1
    cases h1
    exact h2
  · exact .step hr hs

theorem controlBits_ne_nil (c : UInt8) : controlBits c ≠ [] := by
  have h := controlBits_length c
  intro he
  rw [he] at h
  cases h

theorem load_of_ne_nil {bits : List Bool} (h : bits ≠ []) (rest : List UInt8) :
    load bits rest = (bits, rest) := by
  cases bits with
  | nil => exact absurd rfl h
  | cons b bits => rfl

theorem decodeStep_item {dstLen : Nat} {bits : List Bool} {rest out out' : List UInt8}
    {sk : Bool} (it : Item) (he : it.edit.apply out = some out') (hl : out'.length ≤ dstLen) :
    decodeStep dstLen ⟨it.flag :: bits, it.bytes ++ rest, out, sk⟩ =
      some ⟨bits, rest, out', sk⟩ := by
  have hp := it.produced_pos
  have hlen := Edit.length_apply he
  simp only [decodeStep]
  rw [if_neg (by omega), load_of_ne_nil (by simp)]
  simp [parse_bytes, settle, he, hl]

theorem decodeStep_control {dstLen : Nat} {c : UInt8} {rest out : List UInt8} {sk : Bool} :
    decodeStep dstLen ⟨[], c :: rest, out, sk⟩ =
      decodeStep dstLen ⟨controlBits c, rest, out, sk⟩ := by
  simp only [decodeStep, load_of_ne_nil (controlBits_ne_nil c)]
  rfl

/-- What a successful pass did: it passed over a control bit or read a complete item. -/
theorem decodeStep_cases {dstLen : Nat} {d d' : Decoder} (hr : d.rest ≠ [])
    (h : decodeStep dstLen d = some d') : d.out.length < dstLen ∧
      ∃ bit bits rest, load d.bits d.rest = (bit :: bits, rest) ∧
        ((∃ rest', parse bit rest = .skip rest' ∧ d' = ⟨bits, rest', d.out, true⟩) ∨
          ∃ it rest' out', parse bit rest = .item it rest' ∧ it.edit.apply d.out = some out' ∧
            out'.length ≤ dstLen ∧ d' = ⟨bits, rest', out', d.skipped⟩) := by
  unfold decodeStep at h
  split at h
  · cases h
  · next hlt =>
    refine ⟨by omega, ?_⟩
    split at h
    · next rest hload =>
      rcases d with ⟨bits, src, out, sk⟩
      cases bits with
      | nil =>
        cases src with
        | nil => exact absurd rfl hr
        | cons c src => exact absurd (congrArg Prod.fst hload) (controlBits_ne_nil c)
      | cons b bits => cases hload
    · next bit bits rest hload =>
      refine ⟨bit, bits, rest, hload, ?_⟩
      unfold settle at h
      split at h
      · next rest' hp =>
        cases h
        exact .inl ⟨rest', hp, rfl⟩
      · cases h
      · next it rest' hp =>
        obtain ⟨out', he, hif⟩ := Option.bind_eq_some_iff.mp h
        split at hif
        · next hl =>
          cases hif
          exact .inr ⟨it, rest', out', hp, he, hl, rfl⟩
        · cases hif

/-- Reading complete items leads from one decoder state to the next. -/
theorem Accepts.of_reads {dstLen : Nat} {bits bits' : List Bool}
    {rest rest' out out' fin : List UInt8} {sk sk' : Bool} {items : List Item}
    (h : Reads Item.flag Item.bytes (bits, rest) items (bits', rest'))
    (he : Edit.applyAll (items.map Item.edit) out = some out') (hl : out'.length ≤ dstLen)
    (ha : Accepts dstLen ⟨bits', rest', out', sk⟩ fin sk') :
    Accepts dstLen ⟨bits, rest, out, sk⟩ fin sk' := by
  generalize hp : (bits, rest) = p at h
  generalize hq : (bits', rest') = q at h
  induction h generalizing bits rest out with
  | nil p =>
    subst hp
    cases hq
    cases he
    exact ha
  | @control c src items q hs _ ih =>
    cases hp
    obtain ⟨d', hd, hd'⟩ := (ih he rfl hq).of_step hs
    exact .step (by simp) (decodeStep_control.trans hd) hd'
  | @item bits src items q it _ ih =>
    cases hp
    obtain ⟨mid, hm, ht⟩ := Option.bind_eq_some_iff.mp he
    have hlen := Edit.length_applyAll ht
    refine .step ?_ (decodeStep_item it hm (by omega)) (ih ht rfl hq)
    simp [it.bytes_ne_nil]

theorem Accepts.skipped_of {dstLen : Nat} {d : Decoder} {out : List UInt8} {sk : Bool}
    (h : Accepts dstLen d out sk) (hd : d.skipped = true) : sk = true := by
  induction h with
  | done => exact hd
  | step hr hs _ ih =>
    apply ih
    obtain ⟨_, bit, bits, rest, _, ⟨_, _, rfl⟩ | ⟨it, rest', out', _, _, _, rfl⟩⟩ :=
      decodeStep_cases hr hs
    · rfl
    · exact hd

/-- Undoing the load of a control byte. -/
theorem reads_of_load {bits lbits : List Bool} {rest lrest : List UInt8} {items : List Item}
    {q : List Bool × List UInt8} (hl : load bits rest = (lbits, lrest)) (hne : lrest ≠ [])
    (h : Reads Item.flag Item.bytes (lbits, lrest) items q) :
    Reads Item.flag Item.bytes (bits, rest) items q := by
  cases bits with
  | cons b bits =>
    cases hl
    exact h
  | nil =>
    cases rest with
    | nil =>
      cases hl
      exact h
    | cons c rest =>
      cases hl
      exact .control hne h

/-- Acceptance without a skipped control bit reads the source as complete items. -/
theorem Accepts.reads {dstLen : Nat} {d : Decoder} {fin : List UInt8} {sk : Bool}
    (h : Accepts dstLen d fin sk) (hsk : sk = false) :
    ∃ items bits, Reads Item.flag Item.bytes (d.bits, d.rest) items (bits, []) ∧
      Edit.applyAll (items.map Item.edit) d.out = some fin := by
  induction h with
  | @done d hr _ =>
    refine ⟨[], d.bits, ?_, rfl⟩
    rw [hr]
    exact .nil _
  | @step d d' out sk hr hs h ih =>
    obtain ⟨_, bit, bits, rest, hload, ⟨_, _, rfl⟩ | ⟨it, rest', out', hp, he, _, rfl⟩⟩ :=
      decodeStep_cases hr hs
    · rw [h.skipped_of rfl] at hsk
      cases hsk
    · obtain ⟨items, bits', hreads, happ⟩ := ih hsk
      obtain ⟨hflag, hsrc⟩ := parse_item hp
      refine ⟨it :: items, bits', reads_of_load hload (by simp [hsrc, it.bytes_ne_nil]) ?_, ?_⟩
      · rw [← hflag, hsrc]
        exact .item it hreads
      · simp [Edit.applyAll, he, happ]

/-- With one byte left and a command bit passed over, the byte is taken as a literal by the
next 0 among the remaining control bits. -/
theorem Accepts.leftover_byte {dstLen : Nat} {bits : List Bool} {x : UInt8}
    {out fin : List UInt8} {sk sk' : Bool} (hlt : out.length < dstLen)
    (h : Accepts dstLen ⟨bits, [x], out, sk⟩ fin sk') :
    false ∈ bits ∧ out.length + 1 = dstLen := by
  induction bits generalizing sk with
  | nil =>
    obtain ⟨d', hs, hd⟩ := h.of_step (by simp)
    obtain ⟨_, bit, bits, rest, hload, hcases⟩ := decodeStep_cases (by simp) hs
    have hrest : rest = [] := (congrArg Prod.snd hload).symm
    have hskip : parse bit rest = .skip [] := by
      rw [hrest]
      cases bit <;> rfl
    rw [hskip] at hcases
    rcases hcases with ⟨_, hp, rfl⟩ | ⟨_, _, _, hp, _⟩
    · cases hp
      have hl := (hd.out_of_nil rfl).2.2
      simp only at hl
      omega
    · cases hp
  | cons b bits ih =>
    obtain ⟨d', hs, hd⟩ := h.of_step (by simp)
    obtain ⟨_, bit, bits', rest, hload, hcases⟩ := decodeStep_cases (by simp) hs
    rw [load_of_ne_nil (by simp)] at hload
    cases hload
    cases b with
    | true =>
      rcases hcases with ⟨_, hp, rfl⟩ | ⟨_, _, _, hp, _⟩
      · cases hp
        obtain ⟨hmem, hl⟩ := ih hd
        exact ⟨List.mem_cons_of_mem _ hmem, hl⟩
      · cases hp
    | false =>
      rcases hcases with ⟨_, hp, _⟩ | ⟨_, _, out', hp, he, _, rfl⟩
      · cases hp
      · cases hp
        have hl := (hd.out_of_nil rfl).2.2
        cases he
        exact ⟨by simp, by simpa using hl⟩

/-- Acceptance after a skipped control bit: complete items, then a command bit with a single
byte left, which a later control bit turns into a literal. -/
theorem Accepts.leftover {dstLen : Nat} {d : Decoder} {fin : List UInt8} {sk : Bool}
    (h : Accepts dstLen d fin sk) (hd : d.skipped = false) (hsk : sk = true) :
    ∃ items bits x out, Reads Item.flag Item.bytes (d.bits, d.rest) items (true :: bits, [x]) ∧
      false ∈ bits ∧ Edit.applyAll (items.map Item.edit) d.out = some out ∧
      out.length + 1 = dstLen := by
  induction h with
  | done =>
    rw [hd] at hsk
    cases hsk
  | @step d d' out sk hr hs h ih =>
    obtain ⟨hlt, bit, bits, rest, hload, ⟨rest', hp, rfl⟩ | ⟨it, rest', out', hp, he, _, rfl⟩⟩ :=
      decodeStep_cases hr hs
    · -- once the source is used up the output stays too short
      have hnil (hn : rest' = []) : False := by
        have hl := (h.out_of_nil hn).2.2
        simp only at hl
        omega
      cases bit with
      | false =>
        cases rest with
        | nil =>
          cases hp
          exact (hnil rfl).elim
        | cons b rest => cases hp
      | true =>
        rcases rest with _ | ⟨b0, _ | ⟨b1, rest⟩⟩
        · cases hp
          exact (hnil rfl).elim
        · cases hp
          obtain ⟨hmem, hl⟩ := h.leftover_byte hlt
          exact ⟨[], bits, b0, d.out, reads_of_load hload (by simp) (.nil _), hmem, rfl, hl⟩
        · simp only [parse, parseCommand] at hp
          split_ifs at hp
          cases rest with
          | nil =>
            cases hp
            exact (hnil rfl).elim
          | cons b2 rest => cases hp
    · obtain ⟨items, bits', x, out, hreads, hmem, happ, hl⟩ := ih hd hsk
      obtain ⟨hflag, hsrc⟩ := parse_item hp
      refine ⟨it :: items, bits', x, out,
        reads_of_load hload (by simp [hsrc, it.bytes_ne_nil]) ?_, hmem, ?_, hl⟩
      · rw [← hflag, hsrc]
        exact .item it hreads
      · simp [Edit.applyAll, he, happ]

/-- The leftover byte is accepted as a literal. -/
theorem accepts_leftover_byte {dstLen : Nat} {bits : List Bool} {x : UInt8} {out : List UInt8}
    (sk : Bool) (hmem : false ∈ bits) (hl : out.length + 1 = dstLen) :
    ∃ sk', Accepts dstLen ⟨bits, [x], out, sk⟩ (out ++ [x]) sk' ∧ (sk = true → sk' = true) := by
  induction bits generalizing sk with
  | nil => cases hmem
  | cons b bits ih =>
    cases b with
    | false =>
      have hs : decodeStep dstLen ⟨false :: bits, [x], out, sk⟩ =
          some ⟨bits, [], out ++ [x], sk⟩ :=
        decodeStep_item (.literal x) rfl (by simp; omega)
      exact ⟨sk, .step (by simp) hs (.done rfl (by simp [hl])), id⟩
    | true =>
      have hmem' : false ∈ bits := by simpa using hmem
      obtain ⟨sk', ha, hsk⟩ := ih true hmem'
      have hs : decodeStep dstLen ⟨true :: bits, [x], out, sk⟩ = some ⟨bits, [x], out, true⟩ := by
        simp only [decodeStep]
        rw [if_neg (by omega)]
        rfl
      exact ⟨sk', .step (by simp) hs ha, fun _ => hsk rfl⟩

end NdsDevkit.Ndsc
