import ExecutionNode.Instruction.Basic
import ExecutionNode.Word.Immediate

/-!
# Decoding words

The format bits are looked at from the highest: moves, jumps to a slot, jumps by a register, the
three words without operands, the empty word, and last additions and subtractions, which take all
that is left. Bits outside the fields of a format are ignored there.
-/

namespace ExecutionNode

/-- Why a word is no instruction. -/
inductive DecodeError
  | invalidOpcodeBits (word : Word)
deriving DecidableEq, Repr

def DecodeError.message : DecodeError → Text
  | invalidOpcodeBits w => "invalid opcode bits in word ".toList ++ w.hex

namespace Word

/-- The register in the source field. -/
def sourceRegister (w : Word) : Register := .ofCode w.sourceField

/-- The register in the destination field. -/
def destinationRegister (w : Word) : Register := .ofCode w.destinationField

def decodeMove (w : Word) : Instruction :=
  { opcode := .mov
    source := some (if w.has .high then .register w.sourceRegister
      else .immediate (Immediate.ofMoveField w))
    destination := some w.destinationRegister }

def decodeJump? (w : Word) : Option Instruction :=
  if w.has .absolute then
    (Opcode.ofJumpBits? w.clearSlot).map fun op => .unary op (.slot w.slotField.toNat)
  else some (.unary .jro (.register w.sourceRegister))

/-- The words without operands are whole words: no other bit may be set. -/
def decodeFixed? (w : Word) : Option Instruction :=
  ([.neg, .swp, .sav].find? fun op : Opcode => op.base == w).map fun op => { opcode := op }

def decodeArithmetic (w : Word) : Instruction :=
  .unary (if w.has .sign then .sub else .add)
    (if w.has .reg then .register w.sourceRegister else .immediate (Immediate.magnitude w))

def decode? (w : Word) : Option Instruction :=
  if w.has .mov then some w.decodeMove
  else if w.has .high then
    if w.has .branch then w.decodeJump? else w.decodeFixed?
  else if w = 0#16 then some { opcode := .nop }
  else some w.decodeArithmetic

def decode (w : Word) : Except DecodeError Instruction :=
  match w.decode? with
  | some i => .ok i
  | none => .error (.invalidOpcodeBits w)

/-- The canonical text of a word. -/
def disassemble (w : Word) : Except DecodeError Text := w.decode.map Instruction.render

end Word

end ExecutionNode
