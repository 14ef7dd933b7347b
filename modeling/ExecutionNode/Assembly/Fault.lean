import ExecutionNode.Memory
import ExecutionNode.Opcode

/-!
# What can be wrong with a source

A fault is a cause and the line it lies on. Lines are counted from 1.
-/

namespace ExecutionNode.Assembly

inductive Cause
  | lineTooLong (length limit : Nat)
  | unknownOpcode (token : Text)
  /-- A number stands where only a register can. -/
  | unknownRegister (token : Text)
  | unparsableOperand (token : Text)
  | missingOperand (op : Opcode) (expected : Nat)
  /-- A label that is defined twice, or that is the second one of its slot. -/
  | duplicateLabel (label : Text)
  | tooManyInstructions (max : Nat)
  | undefinedLabel (label : Text)
deriving DecidableEq, Repr

structure Fault where
  line : Nat
  cause : Cause
deriving DecidableEq, Repr

def Cause.message : Cause → Text
  | lineTooLong length limit =>
    Numeral.decimal length ++ " characters exceeds the limit of ".toList ++ Numeral.decimal limit
  | unknownOpcode token => "unknown opcode ".toList ++ Text.quoted token
  | unknownRegister token => Text.quoted token ++ " is not a register".toList
  | unparsableOperand token => "cannot parse operand ".toList ++ Text.quoted token
  | missingOperand op expected =>
    op.mnemonic ++ " expects ".toList ++ Numeral.decimal expected ++ " operand(s)".toList
  | duplicateLabel label => "duplicate label ".toList ++ Text.quoted label
  | tooManyInstructions max =>
    "program exceeds ".toList ++ Numeral.decimal max ++ " instructions".toList
  | undefinedLabel label => "jump to undefined label ".toList ++ Text.quoted label

def Fault.message (f : Fault) : Text :=
  "line ".toList ++ Numeral.decimal f.line ++ ": ".toList ++ f.cause.message

end ExecutionNode.Assembly
