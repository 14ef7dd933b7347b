import ExecutionNode.Proofs.Assembling
import ExecutionNode.Proofs.Encoding

/-!
# What an instruction means

The meaning of an instruction is told from its tokens and the label table. The words of a program
hold just the meanings of its instructions: no operand reaches into another field.
-/

namespace ExecutionNode

/-! ## Immediates in range -/

namespace Immediate

theorem natAbs_clamp_lt (v : Int) : (clamp v).natAbs < 1024 := by
  have := natAbs_clamp_le v
  omega

@[simp] theorem clamp_clamp (v : Int) : clamp (clamp v) = clamp v := by
  simp only [clamp, limit]
  omega

@[simp] theorem clamp_neg_clamp (v : Int) : clamp (-clamp v) = -clamp v := by
  simp only [clamp, limit]
  omega

theorem signMagnitude_eq_signed (v : Int) :
    signMagnitude v = signed (clamp v).natAbs (clamp v < 0) := field_eq_signed (clamp v)

theorem moveField_eq_signed (v : Int) :
    moveField v = signed (clamp v).natAbs (clamp v < 0) := by
  apply BitVec.eq_of_toNat_eq
  rw [moveField, signMagnitude_eq_signed, BitVec.toNat_and]
  exact (Nat.and_two_pow_sub_one_eq_mod _ 11).trans
    (Nat.mod_eq_of_lt (toNat_signed_lt (natAbs_clamp_lt v) _))

theorem arithmeticField_eq_signed (v : Int) (subtract : Bool) :
    arithmeticField v subtract = signed (clamp v).natAbs (subtract ^^ (clamp v < 0)) := by
  cases subtract with
  | false => rw [arithmeticField, if_neg Bool.false_ne_true, signMagnitude_eq_signed, Bool.false_xor]
  | true =>
    rw [arithmeticField, if_pos rfl, signMagnitude_eq_signed, signed_xor_sign (natAbs_clamp_lt v),
      Bool.true_xor]

theorem arithmeticField_eq_base (v : Int) (subtract : Bool) :
    arithmeticField v subtract =
      (if subtract ^^ (clamp v < 0) then Opcode.sub else .add).base |||
        BitVec.ofNat 16 (clamp v).natAbs := by
  rw [arithmeticField_eq_signed, signed, BitVec.or_comm]
  generalize (subtract ^^ (clamp v < 0)) = negative
  cases negative <;> rfl

end Immediate

namespace Assembly

/-! ## The instruction that a command gives -/

/-- The instruction of an addition or a subtraction of a number in range. What is not positive is
added by subtracting, and nothing is added by doing nothing. -/
def sum (subtract : Bool) (v : Int) : Instruction :=
  if subtract then
    if 0 ≤ v then .unary .sub (.immediate v) else .unary .add (.immediate (-v))
  else if v = 0 then { opcode := .nop }
  else if 0 < v then .unary .add (.immediate v)
  else .unary .sub (.immediate (-v))

def Source.operand : Source → Operand
  | register r => .register r
  | literal v => .immediate (Immediate.clamp v)

namespace Command

def instruction (labels : LabelTable) : Command → Instruction
  | plain op => { opcode := op }
  | arithmetic subtract (.register r) => .unary (arithmeticOpcode subtract) (.register r)
  | arithmetic subtract (.literal v) => sum subtract (Immediate.clamp v)
  | move src dst => { opcode := .mov, source := some src.operand, destination := some dst }
  | jump op label => .unary op (.slot (slotOf labels label))
  | jumpBy r => .unary .jro (.register r)

theorem word_sum (subtract : Bool) (v : Int) :
    (sum subtract (Immediate.clamp v)).word = Immediate.arithmeticField v subtract := by
  rw [Immediate.arithmeticField_eq_base]
  cases subtract with
  | true =>
    rw [sum, if_pos rfl, Bool.true_xor]
    split
    · next hpos =>
      rw [Instruction.word_number _ hpos, decide_eq_false (Int.not_lt.mpr hpos)]
      rfl
    · next hneg =>
      rw [Instruction.word_number _ (by omega), Int.natAbs_neg,
        decide_eq_true (Int.not_le.mp hneg)]
      rfl
  | false =>
    rw [sum, if_neg Bool.false_ne_true, Bool.false_xor]
    split
    · next hzero =>
      rw [hzero]
      rfl
    · split
      · next hpos =>
        rw [Instruction.word_number _ (Int.le_of_lt hpos), decide_eq_false (by omega)]
        rfl
      · next hneg =>
        rw [Instruction.word_number _ (by omega), Int.natAbs_neg, decide_eq_true (by omega)]
        rfl

theorem linked_eq_word (labels : LabelTable) (c : Command) :
    c.linked labels = (c.instruction labels).word := by
  cases c with
  | plain op => simp [linked, label?, word, instruction, Instruction.word]
  | arithmetic subtract src =>
    cases src with
    | register r =>
      cases subtract <;>
        simp [linked, label?, word, instruction, Instruction.word, Instruction.unary, Operand.field,
          arithmeticOpcode, BitVec.or_assoc]
    | literal v => exact (word_sum subtract v).symm
  | move src dst =>
    cases src with
    | register r => rfl
    | literal v =>
      simp only [linked, label?, word, Source.moveField, Immediate.moveField_eq_signed,
        ← Immediate.field_eq_signed]
      rfl
  | jump op label => simp [linked, label?, word, instruction, Instruction.word_jump]
  | jumpBy r =>
    simp [linked, label?, word, instruction, Instruction.word, Instruction.unary, Operand.field]

theorem instruction_ne_add_zero (labels : LabelTable) (c : Command) :
    c.instruction labels ≠ .unary .add (.immediate 0) := by
  intro h
  cases c with
  | arithmetic subtract src =>
    cases src with
    | register r => simp [instruction, Instruction.unary] at h
    | literal v =>
      simp only [instruction, sum] at h
      (repeat' split at h) <;> simp [Instruction.unary] at h <;> omega
  | plain _ | move _ _ | jump _ _ | jumpBy _ => cases h

theorem holdable_instruction {labels : LabelTable} (hslots : ∀ n ∈ labels.slots, n < 64)
    {c : Command} {body : List Text} (h : c.WrittenAs body) : (c.instruction labels).Holdable := by
  cases h with
  | plain harity rest => exact .plain harity
  | @arithmetic subtract src t hsrc rest =>
    cases src with
    | register r => exact .arithmeticRegister (by cases subtract <;> simp [arithmeticOpcode]) r
    | literal v =>
      have hlt := Immediate.natAbs_clamp_lt v
      simp only [instruction, sum]
      split
      · split
        · exact Instruction.holdable_number (.inr rfl) (by omega) hlt
        · exact Instruction.holdable_number (.inl rfl) (by omega) (by omega)
      · split
        · exact .plain rfl
        · split
          · exact Instruction.holdable_number (.inl rfl) (by omega) hlt
          · exact Instruction.holdable_number (.inr rfl) (by omega) (by omega)
  | @move src t hsrc dst rest =>
    cases src with
    | register r => exact .moveRegister r dst
    | literal v => exact .moveNumber (Immediate.natAbs_clamp_lt v) dst
  | jump hop label rest => exact .jump hop (slotOf_lt (by omega) hslots label)
  | jumpBy r rest => exact .jumpBy r

theorem decode_linked {labels : LabelTable} (hslots : ∀ n ∈ labels.slots, n < 64)
    {c : Command} {body : List Text} (h : c.WrittenAs body) :
    (c.linked labels).decode = .ok (c.instruction labels) := by
  rw [linked_eq_word]
  exact Instruction.decode_word (holdable_instruction hslots h) (instruction_ne_add_zero labels c)

theorem isLabelJump_instruction (labels : LabelTable) {c : Command} {body : List Text}
    (h : c.WrittenAs body) :
    (c.instruction labels).opcode.isLabelJump = c.label?.isSome := by
  cases h with
  | @plain op harity rest => cases op <;> cases harity <;> rfl
  | @arithmetic subtract src _ _ _ =>
    cases src with
    | register r => cases subtract <;> rfl
    | literal v =>
      simp only [instruction, sum]
      (repeat' split) <;> rfl
  | move _ _ _ => rfl
  | jump hop label rest => exact List.contains_iff_mem.mpr hop
  | jumpBy _ _ => rfl

theorem isSlotJump_linked {labels : LabelTable} (hslots : ∀ n ∈ labels.slots, n < 64) {c : Command}
    {body : List Text} (h : c.WrittenAs body) :
    (c.linked labels).isSlotJump = c.label?.isSome := by
  rw [Word.isSlotJump_of_decode (decode_linked hslots h), isLabelJump_instruction labels h]

end Command

/-! ## The meaning of tokens -/

open Immediate (clamp)

/-- What the tokens of an instruction mean, the labels of the source being known. -/
inductive Meaning (labels : LabelTable) : List Text → Instruction → Prop
  | plain {op : Opcode} (h : op.arity = 0) (rest : List Text) :
    Meaning labels (op.mnemonic :: rest) { opcode := op }
  | moveNumber {t : Text} {n : Int} (h : Numeral.readInteger? t = some n) (d : Register)
    (rest : List Text) :
    Meaning labels (Opcode.mov.mnemonic :: t :: d.name :: rest)
      { opcode := .mov, source := some (.immediate (clamp n)), destination := some d }
  | moveRegister (r d : Register) (rest : List Text) :
    Meaning labels (Opcode.mov.mnemonic :: r.name :: d.name :: rest)
      { opcode := .mov, source := some (.register r), destination := some d }
  | addPositive {t : Text} {n : Int} (h : Numeral.readInteger? t = some n) (hn : 0 < clamp n)
    (rest : List Text) :
    Meaning labels (Opcode.add.mnemonic :: t :: rest) (.unary .add (.immediate (clamp n)))
  | addZero {t : Text} {n : Int} (h : Numeral.readInteger? t = some n) (hn : clamp n = 0)
    (rest : List Text) :
    Meaning labels (Opcode.add.mnemonic :: t :: rest) { opcode := .nop }
  | addNegative {t : Text} {n : Int} (h : Numeral.readInteger? t = some n) (hn : clamp n < 0)
    (rest : List Text) :
    Meaning labels (Opcode.add.mnemonic :: t :: rest) (.unary .sub (.immediate (-clamp n)))
  | subNonnegative {t : Text} {n : Int} (h : Numeral.readInteger? t = some n) (hn : 0 ≤ clamp n)
    (rest : List Text) :
    Meaning labels (Opcode.sub.mnemonic :: t :: rest) (.unary .sub (.immediate (clamp n)))
  | subNegative {t : Text} {n : Int} (h : Numeral.readInteger? t = some n) (hn : clamp n < 0)
    (rest : List Text) :
    Meaning labels (Opcode.sub.mnemonic :: t :: rest) (.unary .add (.immediate (-clamp n)))
  | addRegister (r : Register) (rest : List Text) :
    Meaning labels (Opcode.add.mnemonic :: r.name :: rest) (.unary .add (.register r))
  | subRegister (r : Register) (rest : List Text) :
    Meaning labels (Opcode.sub.mnemonic :: r.name :: rest) (.unary .sub (.register r))
  | jumpBy (r : Register) (rest : List Text) :
    Meaning labels (Opcode.jro.mnemonic :: r.name :: rest) (.unary .jro (.register r))
  | jump {op : Opcode} (hop : op ∈ Opcode.labelJumps) {label : Text} {slot : Nat}
    (h : labels.lookup label = some slot) (rest : List Text) :
    Meaning labels (op.mnemonic :: label :: rest) (.unary op (.slot slot))

theorem meaning_of_writtenAs {labels : LabelTable} {c : Command} {body : List Text}
    (h : c.WrittenAs body) (hlabel : ∀ label, c.label? = some label → label ∈ labels.names) :
    Meaning labels body (c.instruction labels) := by
  cases h with
  | plain harity rest => exact .plain harity rest
  | @arithmetic subtract src t hsrc rest =>
    cases subtract <;> cases hsrc
    case false.register r => exact .addRegister r rest
    case true.register r => exact .subRegister r rest
    case false.literal v hv =>
      simp only [Command.instruction, sum, Bool.false_eq_true, if_false]
      split
      · next hzero => exact .addZero hv hzero rest
      · split
        · next hpos => exact .addPositive hv hpos rest
        · exact .addNegative hv (by omega) rest
    case true.literal v hv =>
      simp only [Command.instruction, sum, if_true]
      split
      · next hpos => exact .subNonnegative hv hpos rest
      · exact .subNegative hv (by omega) rest
  | @move src t hsrc dst rest =>
    cases hsrc with
    | register r => exact .moveRegister r dst rest
    | literal hv => exact .moveNumber hv dst rest
  | @jump op hop label rest =>
    exact .jump hop (lookup_slotOf (hlabel label rfl)) rest
  | jumpBy r rest => exact .jumpBy r rest

theorem exists_writtenAs_of_meaning {labels : LabelTable} {body : List Text} {i : Instruction}
    (h : Meaning labels body i) :
    ∃ c : Command, c.WrittenAs body ∧ c.instruction labels = i := by
  cases h with
  | plain harity rest => exact ⟨_, .plain harity rest, rfl⟩
  | moveNumber hv d rest => exact ⟨_, .move (.literal hv) d rest, rfl⟩
  | moveRegister r d rest => exact ⟨_, .move (.register r) d rest, rfl⟩
  | addPositive hv hn rest =>
    refine ⟨_, .arithmetic false (.literal hv) rest, ?_⟩
    simp [Command.instruction, sum, hn, Int.ne_of_gt hn]
  | addZero hv hn rest =>
    refine ⟨_, .arithmetic false (.literal hv) rest, ?_⟩
    simp [Command.instruction, sum, hn]
  | addNegative hv hn rest =>
    refine ⟨_, .arithmetic false (.literal hv) rest, ?_⟩
    simp [Command.instruction, sum, Int.ne_of_lt hn, Int.not_lt.mpr (Int.le_of_lt hn)]
  | subNonnegative hv hn rest =>
    refine ⟨_, .arithmetic true (.literal hv) rest, ?_⟩
    simp [Command.instruction, sum, hn]
  | subNegative hv hn rest =>
    refine ⟨_, .arithmetic true (.literal hv) rest, ?_⟩
    simp [Command.instruction, sum, Int.not_le.mpr hn]
  | addRegister r rest => exact ⟨_, .arithmetic false (.register r) rest, rfl⟩
  | subRegister r rest => exact ⟨_, .arithmetic true (.register r) rest, rfl⟩
  | jumpBy r rest => exact ⟨_, .jumpBy r rest, rfl⟩
  | jump hop hslot rest =>
    refine ⟨_, .jump hop _ rest, ?_⟩
    rw [Command.instruction, slotOf_of_lookup hslot]

theorem meaning_unique {labels : LabelTable} {body : List Text} {i j : Instruction}
    (hi : Meaning labels body i) (hj : Meaning labels body j) : i = j := by
  obtain ⟨c, hc, rfl⟩ := exists_writtenAs_of_meaning hi
  obtain ⟨d, hd, rfl⟩ := exists_writtenAs_of_meaning hj
  have := (ofTokens?_of_writtenAs hc).symm.trans (ofTokens?_of_writtenAs hd)
  cases this
  rfl

/-! ## The words of a program -/

theorem word_of_instruction {config : Config} {source : Text} {p : Program}
    (h : assemble config source = .ok p) {k : Nat} {body : List Text}
    (hbody : (instructions (statements source))[k]? = some body) :
    ∃ c : Command, c.WrittenAs body ∧ p.words[k]? = some (c.linked p.labels) ∧
      (∀ n ∈ p.labels.slots, n < 64) ∧
      ∀ label, c.label? = some label → label ∈ p.labels.names := by
  obtain ⟨hs, rfl⟩ := assembles_of_assemble h
  obtain ⟨c, hc, hlabels⟩ := exists_command_of_assembles hs (List.mem_of_getElem? hbody)
  refine ⟨c, hc, ?_, hs.labels_valid.slots_lt_field, hlabels⟩
  rw [program, List.getElem?_map, hbody, Option.map_some, wordOf_of_writtenAs hc]

theorem length_words {config : Config} {source : Text} {p : Program}
    (h : assemble config source = .ok p) :
    p.words.length = (instructions (statements source)).length := by
  rw [(assembles_of_assemble h).2, program, List.length_map]

/-- **Every word decodes to the instruction that is written.** -/
theorem decode_word_of_assemble {config : Config} {source : Text} {p : Program}
    (h : assemble config source = .ok p) :
    p.words.length = (instructions (statements source)).length ∧
    ∀ (k : Nat) (body : List Text), (instructions (statements source))[k]? = some body →
      ∃ (w : Word) (i : Instruction), p.words[k]? = some w ∧ w.decode = .ok i ∧
        ∀ j, Meaning p.labels body j ↔ j = i := by
  refine ⟨length_words h, ?_⟩
  intro k body hbody
  obtain ⟨c, hc, hword, hslots, hnames⟩ := word_of_instruction h hbody
  have hmeaning := meaning_of_writtenAs hc hnames
  refine ⟨_, c.instruction p.labels, hword, Command.decode_linked hslots hc, ?_⟩
  intro j
  constructor
  · intro hj
    exact meaning_unique hj hmeaning
  · rintro rfl
    exact hmeaning

theorem decode_word_of_assemble_sums :
    let source := "L: MOV -5000, ACC\nSUB -7\nADD 0 x\nJGZ L".toList
    let p : Program := ⟨[0x8FE7#16, 0x0007#16, 0x0000#16, 0x7100#16], [("L".toList, 0)]⟩
    assemble {} source = .ok p ∧
    p.words.length = (instructions (statements source)).length ∧
    ∀ (k : Nat) (body : List Text), (instructions (statements source))[k]? = some body →
      ∃ (w : Word) (i : Instruction), p.words[k]? = some w ∧ w.decode = .ok i ∧
        ∀ j, Meaning p.labels body j ↔ j = i :=
  ⟨by rfl, @decode_word_of_assemble {} _ _ (by rfl)⟩

end Assembly

end ExecutionNode
