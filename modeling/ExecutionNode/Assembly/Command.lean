import ExecutionNode.Assembly.Fault
import ExecutionNode.Numeral.Reader
import ExecutionNode.Register
import ExecutionNode.Word.Immediate

/-!
# Commands

A command is an instruction as it is written: its operands are registers, numbers of any size,
and names of labels. Its word is complete but for the slot of a label.
-/

namespace ExecutionNode.Assembly

/-- What a move, an addition or a subtraction takes its value from. -/
inductive Source
  | register (r : Register)
  | literal (v : Int)
deriving DecidableEq, Repr

/-- A token that names a register is that register, else it has to be an integer. -/
def Source.read (token : Text) : Except Cause Source :=
  match Register.ofName? token with
  | some r => .ok (.register r)
  | none =>
    match Numeral.readInteger? token with
    | some v => .ok (.literal v)
    | none => .error (.unparsableOperand token)

/-- The source of a move: a register or a number of eleven bits. -/
def Source.moveField : Source → Word
  | register r => FormatBit.high.mask ||| Word.ofSource r.code
  | literal v => Immediate.moveField v

/-! ## Commands -/

inductive Command
  | plain (op : Opcode)
  | arithmetic (subtract : Bool) (source : Source)
  | move (source : Source) (destination : Register)
  | jump (op : Opcode) (label : Text)
  /-- A jump by the distance in a register. -/
  | jumpBy (source : Register)
deriving DecidableEq, Repr

namespace Command

/-- The distance of a jump. There is no room for a number in the word, so a readable number is
a register that does not exist. -/
def readDistance (token : Text) : Except Cause Register :=
  match Register.ofName? token with
  | some r => .ok r
  | none =>
    match Numeral.readInteger? token with
    | some _ => .error (.unknownRegister token)
    | none => .error (.unparsableOperand token)

def readDestination (token : Text) : Except Cause Register :=
  match Register.ofName? token with
  | some r => .ok r
  | none => .error (.unparsableOperand token)

/-- Reads the operands of an opcode. All must be there before any is read, and tokens after them
are ignored. -/
def read (op : Opcode) (operands : List Text) : Except Cause Command :=
  match op, operands with
  | .nop, _ | .swp, _ | .sav, _ | .neg, _ => .ok (.plain op)
  | .add, token :: _ => (Source.read token).map (.arithmetic false)
  | .sub, token :: _ => (Source.read token).map (.arithmetic true)
  | .mov, first :: second :: _ => do
    let source ← Source.read first
    let destination ← readDestination second
    return .move source destination
  | .jmp, label :: _ | .jez, label :: _ | .jnz, label :: _ | .jgz, label :: _
  | .jlz, label :: _ => .ok (.jump op label)
  | .jro, token :: _ => (readDistance token).map .jumpBy
  | _, _ => .error (.missingOperand op op.arity)

/-! ## Words -/

def arithmeticOpcode (subtract : Bool) : Opcode := if subtract then .sub else .add

def opcode : Command → Opcode
  | plain op | jump op _ => op
  | arithmetic subtract _ => arithmeticOpcode subtract
  | move .. => .mov
  | jumpBy _ => .jro

/-- The word, with the slot of a label still 0. -/
def word : Command → Word
  | plain op | jump op _ => op.base
  | arithmetic subtract (.register r) =>
    (arithmeticOpcode subtract).base ||| FormatBit.reg.mask ||| Word.ofSource r.code
  | arithmetic subtract (.literal v) => Immediate.arithmeticField v subtract
  | move source destination =>
    Opcode.mov.base ||| source.moveField ||| Word.ofDestination destination.code
  | jumpBy source => Opcode.jro.base ||| Word.ofSource source.code

/-- The label that the slot depends on. -/
def label? : Command → Option Text
  | jump _ label => some label
  | _ => none

end Command

end ExecutionNode.Assembly
