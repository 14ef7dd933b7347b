import ExecutionNode.Instruction.Decode

/-!
# Canonical words

Every instruction that a word can hold has one canonical word, with all bits outside its fields
clear. Decoding gives the instruction back.
-/

namespace ExecutionNode

/-! ## Fields of combined words -/

namespace Word

theorem destinationField_or (v w : Word) :
    destinationField (v ||| w) = destinationField v ||| destinationField w := BitVec.extractLsb'_or

theorem magnitudeField_or (v w : Word) :
    magnitudeField (v ||| w) = magnitudeField v ||| magnitudeField w := BitVec.extractLsb'_or

theorem slotField_or (v w : Word) :
    slotField (v ||| w) = slotField v ||| slotField w := BitVec.extractLsb'_or

theorem has_ofDestination (c : BitVec 3) {b : FormatBit} (hb : b ∈ [.mov, .high, .sign]) :
    has (ofDestination c) b = false := by
  simp only [List.mem_cons, List.not_mem_nil, or_false] at hb
  revert c
  rcases hb with rfl | rfl | rfl <;> decide

@[simp] theorem magnitudeField_ofDestination (c : BitVec 3) :
    magnitudeField (ofDestination c) = 0#10 := by
  revert c; decide

theorem testBit_eq_false {n j : Nat} (h : n < 1024) (hj : 10 ≤ j) : n.testBit j = false := by
  have hpow : 2 ^ 10 ≤ 2 ^ j := Nat.pow_le_pow_right (by decide) hj
  exact Nat.testBit_lt_two_pow (Nat.lt_of_lt_of_le h hpow)

theorem has_ofNat {n : Nat} (h : n < 1024) (b : FormatBit) : has (BitVec.ofNat 16 n) b = false := by
  have hb : 10 ≤ b.position := by cases b <;> decide
  rw [has, BitVec.getLsbD_ofNat, testBit_eq_false h hb, Bool.and_false]

theorem has_or_ofNat (w : Word) {n : Nat} (h : n < 1024) (b : FormatBit) :
    has (w ||| BitVec.ofNat 16 n) b = has w b := by
  rw [has_or, has_ofNat h, Bool.or_false]

theorem magnitudeField_ofNat {n : Nat} (h : n < 1024) :
    (magnitudeField (BitVec.ofNat 16 n)).toNat = n := by
  rw [magnitudeField, BitVec.extractLsb'_toNat, BitVec.toNat_ofNat]
  omega

theorem destinationField_ofNat {n : Nat} (h : n < 1024) :
    destinationField (BitVec.ofNat 16 n) = 0#3 := by
  apply BitVec.eq_of_toNat_eq
  rw [destinationField, BitVec.extractLsb'_toNat, BitVec.toNat_ofNat, Nat.shiftRight_eq_div_pow,
    BitVec.toNat_ofNat]
  omega

theorem slotField_ofNat {n : Nat} (h : n < 64) : (slotField (BitVec.ofNat 16 n)).toNat = n := by
  rw [slotField, BitVec.extractLsb'_toNat, BitVec.toNat_ofNat]
  omega

theorem clearSlot_or (v w : Word) : clearSlot (v ||| w) = clearSlot v ||| clearSlot w := by
  unfold clearSlot
  ext i hi
  simp [Bool.and_or_distrib_right]

theorem clearSlot_ofNat {n : Nat} (h : n < 64) : clearSlot (BitVec.ofNat 16 n) = 0#16 := by
  have hwide : BitVec.ofNat 16 n = (BitVec.ofNat 6 n).setWidth 16 := by
    apply BitVec.eq_of_toNat_eq
    rw [BitVec.toNat_setWidth, BitVec.toNat_ofNat, BitVec.toNat_ofNat]
    omega
  rw [hwide]
  generalize BitVec.ofNat 6 n = slot
  revert slot
  decide

end Word

/-! ## Slots in words -/

namespace Word

/-- Whether the word is a jump to a slot. -/
def isSlotJump (w : Word) : Bool :=
  match w.decode with
  | .ok i => i.opcode.isLabelJump
  | .error _ => false

theorem isSlotJump_of_decode {w : Word} {i : Instruction} (h : w.decode = .ok i) :
    w.isSlotJump = i.opcode.isLabelJump := by
  rw [isSlotJump, h]

/-- The word with another slot in its slot field. -/
def setSlot (slot : Nat) (w : Word) : Word := w.clearSlot ||| BitVec.ofNat 16 slot

theorem clearSlot_clearSlot (w : Word) : w.clearSlot.clearSlot = w.clearSlot := by
  rw [clearSlot, clearSlot, BitVec.and_assoc, BitVec.and_self]

theorem slotField_clearSlot (w : Word) : w.clearSlot.slotField = 0#6 := by
  unfold slotField clearSlot
  rw [BitVec.extractLsb'_and]
  exact BitVec.and_zero

theorem clearSlot_of_slotField {w : Word} (h : w.slotField = 0#6) : w.clearSlot = w := by
  apply BitVec.eq_of_getLsbD_eq
  intro i hi
  have hbit : i < 6 → w.getLsbD i = false := by
    intro hlt
    have := congrArg (BitVec.getLsbD · i) h
    simpa [slotField, hlt] using this
  rw [clearSlot, BitVec.getLsbD_and]
  by_cases hlt : i < 6
  · rw [hbit hlt, Bool.false_and]
  · have hmask : ∀ i < 16, ¬ i < 6 → (~~~slotMask).getLsbD i = true := by decide
    rw [hmask i hi hlt, Bool.and_true]

theorem slotField_setSlot {slot : Nat} (h : slot < 64) (w : Word) :
    (w.setSlot slot).slotField.toNat = slot := by
  rw [setSlot, slotField_or, slotField_clearSlot, BitVec.zero_or, slotField_ofNat h]

theorem clearSlot_setSlot {slot : Nat} (h : slot < 64) (w : Word) :
    (w.setSlot slot).clearSlot = w.clearSlot := by
  rw [setSlot, clearSlot_or, clearSlot_clearSlot, clearSlot_ofNat h, BitVec.or_zero]

theorem slotField_base : ∀ op ∈ Opcode.labelJumps, op.base.slotField = 0#6 := by decide

theorem setSlot_base {op : Opcode} (hop : op ∈ Opcode.labelJumps) (slot : Nat) :
    op.base.setSlot slot = op.base ||| BitVec.ofNat 16 slot := by
  rw [setSlot, clearSlot_of_slotField (slotField_base op hop)]

theorem slotField_jump {op : Opcode} (hop : op ∈ Opcode.labelJumps) {slot : Nat} (h : slot < 64) :
    (op.base ||| BitVec.ofNat 16 slot).slotField.toNat = slot := by
  rw [← setSlot_base hop, slotField_setSlot h]

theorem clearSlot_jump {op : Opcode} (hop : op ∈ Opcode.labelJumps) {slot : Nat} (h : slot < 64) :
    (op.base ||| BitVec.ofNat 16 slot).clearSlot = op.base := by
  rw [← setSlot_base hop, clearSlot_setSlot h, clearSlot_of_slotField (slotField_base op hop)]

end Word

namespace Immediate

/-! ## Sign and magnitude -/

/-- The field with a magnitude and a sign bit. The magnitude 0 may have the sign too. -/
def signed (n : Nat) (negative : Bool) : Word :=
  BitVec.ofNat 16 n ||| if negative then FormatBit.sign.mask else 0#16

section Signed

variable {n : Nat} (hn : n < 1024) (negative : Bool)

include hn

theorem has_signed (b : FormatBit) :
    (signed n negative).has b = (decide (b = .sign) && negative) := by
  rw [signed, Word.has_or, Word.has_ofNat hn, Bool.false_or]
  cases negative <;> cases b <;> rfl

theorem magnitude_signed : magnitude (signed n negative) = n := by
  have hsign : Word.magnitudeField (if negative then FormatBit.sign.mask else 0#16) = 0#10 := by
    cases negative <;> rfl
  rw [magnitude, signed, Word.magnitudeField_or, hsign, BitVec.or_zero, Word.magnitudeField_ofNat hn]

theorem destinationField_signed : Word.destinationField (signed n negative) = 0#3 := by
  have hsign : Word.destinationField (if negative then FormatBit.sign.mask else 0#16) = 0#3 := by
    cases negative <;> rfl
  rw [signed, Word.destinationField_or, hsign, BitVec.or_zero, Word.destinationField_ofNat hn]

theorem toNat_signed_lt : (signed n negative).toNat < 2048 := by
  have hmagnitude : (BitVec.ofNat 16 n).toNat < 2 ^ 11 := by
    rw [BitVec.toNat_ofNat]
    omega
  rw [signed, BitVec.toNat_or]
  apply Nat.or_lt_two_pow hmagnitude
  cases negative <;> decide

theorem xor_sign : BitVec.ofNat 16 n ^^^ FormatBit.sign.mask = signed n true := by
  rw [signed, if_pos rfl]
  apply BitVec.eq_of_getLsbD_eq
  intro i hi
  rw [BitVec.getLsbD_xor, BitVec.getLsbD_or, FormatBit.mask, BitVec.getLsbD_twoPow]
  by_cases hsign : FormatBit.sign.position = i
  · have hclear : (BitVec.ofNat 16 n).getLsbD i = false := by
      rw [← hsign]
      exact Word.has_ofNat hn .sign
    rw [hclear, Bool.false_xor, Bool.false_or]
  · simp [hsign]

theorem signed_xor_sign : signed n negative ^^^ FormatBit.sign.mask = signed n (!negative) := by
  have hpositive : signed n false = BitVec.ofNat 16 n := BitVec.or_zero
  cases negative with
  | false => rw [hpositive, xor_sign hn, Bool.not_false]
  | true =>
    rw [← xor_sign hn, BitVec.xor_assoc, BitVec.xor_self, BitVec.xor_zero, Bool.not_true, hpositive]

end Signed

/-- An immediate that is not brought into range first. -/
def field (v : Int) : Word :=
  BitVec.ofNat 16 v.natAbs ||| if v < 0 then FormatBit.sign.mask else 0#16

theorem field_eq_signed (v : Int) : field v = signed v.natAbs (v < 0) := by
  simp only [field, signed, decide_eq_true_eq]

theorem field_natCast (n : Nat) : field n = BitVec.ofNat 16 n := by
  have hn : ¬ (n : Int) < 0 := by omega
  rw [field, if_neg hn, Int.natAbs_natCast, BitVec.or_zero]

end Immediate

/-! ## The canonical word of an instruction -/

/-- The bits of an operand, which depend on the format of the opcode. -/
def Operand.field (op : Opcode) : Operand → Word
  | register r =>
    match op with
    | .mov => FormatBit.high.mask ||| Word.ofSource r.code
    | .jro => Word.ofSource r.code
    | _ => FormatBit.reg.mask ||| Word.ofSource r.code
  | immediate v => Immediate.field v
  | slot n => BitVec.ofNat 16 n

namespace Instruction

def word (i : Instruction) : Word :=
  i.opcode.base ||| i.source.elim 0#16 (Operand.field i.opcode) |||
    i.destination.elim 0#16 fun d => Word.ofDestination d.code

/-- The instructions that a word can hold. -/
inductive Holdable : Instruction → Prop
  | plain {op : Opcode} (h : op.arity = 0) : Holdable { opcode := op }
  | arithmeticRegister {op : Opcode} (h : op = .add ∨ op = .sub) (r : Register) :
    Holdable (.unary op (.register r))
  | arithmeticNumber {op : Opcode} (h : op = .add ∨ op = .sub) {n : Nat} (hn : n < 1024) :
    Holdable (.unary op (.immediate n))
  | moveRegister (r d : Register) :
    Holdable { opcode := .mov, source := some (.register r), destination := some d }
  | moveNumber {v : Int} (h : v.natAbs < 1024) (d : Register) :
    Holdable { opcode := .mov, source := some (.immediate v), destination := some d }
  | jump {op : Opcode} (h : op ∈ Opcode.labelJumps) {n : Nat} (hn : n < 64) :
    Holdable (.unary op (.slot n))
  | jumpBy (r : Register) : Holdable (.unary .jro (.register r))

theorem holdable_number {op : Opcode} (hop : op = .add ∨ op = .sub) {v : Int} (hpos : 0 ≤ v)
    (hv : v.natAbs < 1024) : (unary op (.immediate v)).Holdable := by
  obtain ⟨n, rfl⟩ := Int.eq_ofNat_of_zero_le hpos
  exact .arithmeticNumber hop (by simpa using hv)

theorem holdable_decodeMove (w : Word) : w.decodeMove.Holdable := by
  unfold Word.decodeMove
  split
  · exact .moveRegister _ _
  · apply Holdable.moveNumber
    have := Immediate.magnitude_lt w
    unfold Immediate.ofMoveField
    split <;> omega

theorem holdable_of_decodeJump? {w : Word} {i : Instruction} (h : w.decodeJump? = some i) :
    i.Holdable := by
  unfold Word.decodeJump? at h
  split at h
  · obtain ⟨op, hop, rfl⟩ := Option.map_eq_some_iff.mp h
    exact .jump (List.mem_of_find?_eq_some hop) (BitVec.isLt _)
  · cases h
    exact .jumpBy _

theorem holdable_of_decodeFixed? {w : Word} {i : Instruction} (h : w.decodeFixed? = some i) :
    i.Holdable := by
  obtain ⟨op, hop, rfl⟩ := Option.map_eq_some_iff.mp h
  have hmem := List.mem_of_find?_eq_some hop
  simp only [List.mem_cons, List.not_mem_nil, or_false] at hmem
  rcases hmem with rfl | rfl | rfl <;> exact .plain rfl

theorem holdable_decodeArithmetic (w : Word) : w.decodeArithmetic.Holdable := by
  have hop : (if w.has .sign then Opcode.sub else .add) = .add ∨
      (if w.has .sign then Opcode.sub else .add) = .sub := by
    split <;> simp
  unfold Word.decodeArithmetic
  generalize (if w.has .sign then Opcode.sub else .add) = op at hop ⊢
  split
  · exact .arithmeticRegister hop _
  · exact .arithmeticNumber hop (Immediate.magnitude_lt w)

theorem decode_eq_ok_iff {w : Word} {i : Instruction} : w.decode = .ok i ↔ w.decode? = some i := by
  unfold Word.decode
  cases w.decode? <;> simp

theorem holdable_of_decode {w : Word} {i : Instruction} (h : w.decode = .ok i) : i.Holdable := by
  rw [decode_eq_ok_iff] at h
  unfold Word.decode? at h
  split at h
  · cases h
    exact holdable_decodeMove w
  · split at h
    · split at h
      · exact holdable_of_decodeJump? h
      · exact holdable_of_decodeFixed? h
    · split at h
      · cases h
        exact .plain rfl
      · cases h
        exact holdable_decodeArithmetic w

/-! ## Decoding canonical words -/

theorem word_arithmeticNumber (op : Opcode) (n : Nat) :
    word (.unary op (.immediate n)) = op.base ||| BitVec.ofNat 16 n := by
  simp [word, unary, Operand.field, Immediate.field_natCast]

theorem word_number (op : Opcode) {v : Int} (hv : 0 ≤ v) :
    word (.unary op (.immediate v)) = op.base ||| BitVec.ofNat 16 v.natAbs := by
  obtain ⟨n, rfl⟩ := Int.eq_ofNat_of_zero_le hv
  rw [word_arithmeticNumber, Int.natAbs_natCast]

theorem word_jump (op : Opcode) (n : Nat) :
    word (.unary op (.slot n)) = op.base ||| BitVec.ofNat 16 n := by
  simp [word, unary, Operand.field]

theorem decode?_arithmeticNumber {op : Opcode} (hop : op = .add ∨ op = .sub) {n : Nat}
    (hn : n < 1024) (hzero : op = .add → n ≠ 0) :
    (op.base ||| BitVec.ofNat 16 n).decode? = some (.unary op (.immediate n)) := by
  have hhas := Word.has_or_ofNat op.base hn
  have hfield : Immediate.magnitude (op.base ||| BitVec.ofNat 16 n) = n := by
    have hbase : op.base.magnitudeField = 0#10 := by rcases hop with rfl | rfl <;> rfl
    rw [Immediate.magnitude, Word.magnitudeField_or, hbase, BitVec.zero_or,
      Word.magnitudeField_ofNat hn]
  have hne : op.base ||| BitVec.ofNat 16 n ≠ 0#16 := by
    intro h
    rcases hop with rfl | rfl
    · rw [h] at hfield
      exact hzero rfl hfield.symm
    · have := hhas .sign
      rw [h] at this
      revert this
      decide
  rcases hop with rfl | rfl <;>
    simp only [Word.decode?, Word.decodeArithmetic, hhas, hfield, hne, if_false] <;> rfl

theorem decode?_jump {op : Opcode} (hop : op ∈ Opcode.labelJumps) {n : Nat} (hn : n < 64) :
    (op.base ||| BitVec.ofNat 16 n).decode? = some (.unary op (.slot n)) := by
  have hhas := Word.has_or_ofNat op.base (by omega : n < 1024)
  have hformat : ∀ op ∈ Opcode.labelJumps, op.base.has .mov = false ∧ op.base.has .high = true ∧
      op.base.has .branch = true ∧ op.base.has .absolute = true := by decide
  obtain ⟨hmov, hhigh, hbranch, habsolute⟩ := hformat op hop
  simp [Word.decode?, Word.decodeJump?, hhas, hmov, hhigh, hbranch, habsolute,
    Word.clearSlot_jump hop hn, Word.slotField_jump hop hn, Opcode.ofJumpBits?_base op hop]

section MoveNumber

/-- The word of a move of a number. -/
def moveWord (v : Int) (d : Register) : Word :=
  Opcode.mov.base ||| Immediate.field v ||| Word.ofDestination d.code

variable {v : Int} (hv : v.natAbs < 1024) (d : Register)

include hv

theorem has_moveWord {b : FormatBit} (hb : b ∈ [.mov, .high, .sign]) :
    (moveWord v d).has b = (decide (b = .mov) || (decide (b = .sign) && decide (v < 0))) := by
  have hbase : Opcode.mov.base.has b = decide (b = .mov) := by cases b <;> rfl
  rw [moveWord, Word.has_or, Word.has_or, Word.has_ofDestination _ hb, Immediate.field_eq_signed,
    Immediate.has_signed hv, Bool.or_false, hbase]

theorem magnitude_moveWord : Immediate.magnitude (moveWord v d) = v.natAbs := by
  have hbase : Word.magnitudeField Opcode.mov.base = 0#10 := rfl
  rw [Immediate.magnitude, moveWord, Word.magnitudeField_or, Word.magnitudeField_or, hbase,
    BitVec.zero_or, Word.magnitudeField_ofDestination, BitVec.or_zero, Immediate.field_eq_signed]
  exact Immediate.magnitude_signed hv _

theorem destinationRegister_moveWord : (moveWord v d).destinationRegister = d := by
  have hbase : Word.destinationField Opcode.mov.base = 0#3 := rfl
  rw [Word.destinationRegister, moveWord, Word.destinationField_or, Word.destinationField_or, hbase,
    Immediate.field_eq_signed, Immediate.destinationField_signed hv, BitVec.zero_or, BitVec.zero_or,
    Word.destinationField_ofDestination, Register.ofCode_code]

theorem decode?_moveWord : (moveWord v d).decode? =
    some { opcode := .mov, source := some (.immediate v), destination := some d } := by
  have hvalue : (if v < 0 then -(v.natAbs : Int) else v.natAbs) = v := by
    split <;> omega
  simp only [Word.decode?, Word.decodeMove, Immediate.ofMoveField, has_moveWord hv d,
    magnitude_moveWord hv, destinationRegister_moveWord hv, List.mem_cons, true_or, or_true]
  simpa using hvalue

end MoveNumber

/-- **Decoding gives the instruction back.** Only to add 0 is no instruction of its own. -/
theorem decode_word {i : Instruction} (h : i.Holdable) (hzero : i ≠ .unary .add (.immediate 0)) :
    i.word.decode = .ok i := by
  rw [decode_eq_ok_iff]
  cases h with
  | @plain op harity => cases op <;> cases harity <;> rfl
  | @arithmeticRegister op hop r =>
    rcases hop with rfl | rfl <;> cases r <;> rfl
  | moveRegister r d => cases r <;> cases d <;> rfl
  | jumpBy r => cases r <;> rfl
  | @arithmeticNumber op hop n hn =>
    rw [word_arithmeticNumber]
    apply decode?_arithmeticNumber hop hn
    rintro rfl rfl
    exact hzero rfl
  | moveNumber hv d => exact decode?_moveWord hv d
  | jump hop hn =>
    rw [word_jump]
    exact decode?_jump hop hn

end Instruction

end ExecutionNode
