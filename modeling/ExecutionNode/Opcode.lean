import ExecutionNode.Word.Basic

/-!
# Opcodes

The thirteen operations of a node: mnemonic, number of operands, and the bits of an instruction
word that has all its operand fields zero.
-/

namespace ExecutionNode

inductive Opcode
  | nop
  | mov
  | add
  | sub
  | swp
  | sav
  | neg
  | jmp
  | jez
  | jnz
  | jgz
  | jlz
  | jro
deriving DecidableEq, Repr

namespace Opcode

/-- The opcodes in the order of their numbers. -/
def all : List Opcode := [nop, mov, add, sub, swp, sav, neg, jmp, jez, jnz, jgz, jlz, jro]

/-- The position in `all`. -/
def number (op : Opcode) : Nat := all.idxOf op

/-! ## Mnemonics and operands -/

def mnemonic : Opcode → Text
  | nop => "NOP".toList
  | mov => "MOV".toList
  | add => "ADD".toList
  | sub => "SUB".toList
  | swp => "SWP".toList
  | sav => "SAV".toList
  | neg => "NEG".toList
  | jmp => "JMP".toList
  | jez => "JEZ".toList
  | jnz => "JNZ".toList
  | jgz => "JGZ".toList
  | jlz => "JLZ".toList
  | jro => "JRO".toList

theorem length_mnemonic (op : Opcode) : op.mnemonic.length = 3 := by cases op <;> rfl

/-- The opcode of exactly this mnemonic, in capitals. -/
def ofMnemonic? (t : Text) : Option Opcode := all.find? (·.mnemonic == t)

@[simp] theorem ofMnemonic?_mnemonic (op : Opcode) : ofMnemonic? op.mnemonic = some op := by
  cases op <;> rfl

theorem mnemonic_of_ofMnemonic? {t : Text} {op : Opcode} (h : ofMnemonic? t = some op) :
    op.mnemonic = t := by
  simpa using List.find?_some h

theorem mnemonic_injective : Function.Injective mnemonic := by
  intro op op' h
  have hop := congrArg ofMnemonic? h
  rwa [ofMnemonic?_mnemonic, ofMnemonic?_mnemonic, Option.some_inj] at hop

/-- The number of operands that an instruction is written with. -/
def arity : Opcode → Nat
  | nop | swp | sav | neg => 0
  | add | sub | jmp | jez | jnz | jgz | jlz | jro => 1
  | mov => 2

/-! ## Bits -/

/-- The word of the opcode with all operand fields zero. `NOP` and `ADD` share one. -/
def base : Opcode → Word
  | nop => 0x0000#16
  | mov => 0x8000#16
  | add => 0x0000#16
  | sub => 0x0400#16
  | swp => 0x5000#16
  | sav => 0x4000#16
  | neg => 0x4800#16
  | jmp => 0x7000#16
  | jez => 0x7040#16
  | jnz => 0x70C0#16
  | jgz => 0x7100#16
  | jlz => 0x7080#16
  | jro => 0x6000#16

/-- The jumps whose operand is a label. `JRO` takes its distance from a register. -/
def labelJumps : List Opcode := [jmp, jez, jnz, jgz, jlz]

def isLabelJump (op : Opcode) : Bool := labelJumps.contains op

/-- The label jump with this word, the slot field being clear. -/
def ofJumpBits? (bits : Word) : Option Opcode := labelJumps.find? (·.base == bits)

theorem ofJumpBits?_base : ∀ op ∈ labelJumps, ofJumpBits? op.base = some op := by decide

end Opcode

end ExecutionNode
