import ExecutionNode.Opcode
import ExecutionNode.Register

/-!
# Instructions and their text

An instruction is what a word says: an opcode, perhaps a source, perhaps a destination. Its
canonical text has the mnemonic, one blank, and the operands with a comma and a blank between.
-/

namespace ExecutionNode

/-- What an instruction takes its value from. -/
inductive Operand
  | register (r : Register)
  | immediate (v : Int)
  /-- The slot that a jump goes to. The name of its label is not in the word. -/
  | slot (n : Nat)
deriving DecidableEq, Repr

def Operand.render : Operand → Text
  | register r => r.name
  | immediate v => Numeral.signedDecimal v
  | slot n => Numeral.decimal n

structure Instruction where
  opcode : Opcode
  source : Option Operand := none
  destination : Option Register := none
deriving DecidableEq, Repr

namespace Instruction

/-- An instruction with a source and no destination. -/
def unary (op : Opcode) (source : Operand) : Instruction := { opcode := op, source := some source }

/-- The canonical text. Without a source the destination is not written. -/
def render (i : Instruction) : Text :=
  match i.source, i.destination with
  | none, _ => i.opcode.mnemonic
  | some src, none => i.opcode.mnemonic ++ ' ' :: src.render
  | some src, some dst => i.opcode.mnemonic ++ ' ' :: src.render ++ ", ".toList ++ dst.name

end Instruction

end ExecutionNode
