import ExecutionNode.Numeral.Printer

/-!
# Instruction words

A word has sixteen bits. The six highest may select its format; the fields below overlap them,
each format having its own.
-/

namespace ExecutionNode

abbrev Word := BitVec 16

/-! ## Format bits -/

/-- The bits that select a format, from the highest. -/
inductive FormatBit
  /-- A move. -/
  | mov
  /-- In a move, that the source is a register; elsewhere, no addition or subtraction. -/
  | high
  /-- A jump. -/
  | branch
  /-- A jump to a slot. -/
  | absolute
  /-- In additions and subtractions, that the operand is a register. -/
  | reg
  /-- The sign of an immediate, and at once what tells a subtraction from an addition. -/
  | sign
deriving DecidableEq, Repr

namespace FormatBit

def all : List FormatBit := [mov, high, branch, absolute, reg, sign]

def position : FormatBit → Nat
  | mov => 15
  | high => 14
  | branch => 13
  | absolute => 12
  | reg => 11
  | sign => 10

def mask (b : FormatBit) : Word := BitVec.twoPow 16 b.position

def name : FormatBit → Text
  | mov => "MOV".toList
  | high => "HIGH".toList
  | branch => "BRANCH".toList
  | absolute => "ABSOLUTE".toList
  | reg => "REG".toList
  | sign => "SIGN".toList

end FormatBit

namespace Word

def has (w : Word) (b : FormatBit) : Bool := w.getLsbD b.position

/-- The format bits of a word, from the highest. -/
def formatBits (w : Word) : List FormatBit := FormatBit.all.filter w.has

def format (w : Word) : Word := w &&& 0xFC00#16

theorem has_or (v w : Word) (b : FormatBit) : has (v ||| w) b = (has v b || has w b) :=
  BitVec.getLsbD_or

/-! ## Fields -/

/-- The code of the source register, bits 2 to 0. -/
def sourceField (w : Word) : BitVec 3 := w.extractLsb' 0 3

/-- The code of the destination register, bits 13 to 11. -/
def destinationField (w : Word) : BitVec 3 := w.extractLsb' 11 3

/-- The target of a jump, bits 5 to 0. -/
def slotField (w : Word) : BitVec 6 := w.extractLsb' 0 6

/-- The size of an immediate, bits 9 to 0. -/
def magnitudeField (w : Word) : BitVec 10 := w.extractLsb' 0 10

def slotMask : Word := 0x003F#16

def clearSlot (w : Word) : Word := w &&& ~~~slotMask

def ofSource (code : BitVec 3) : Word := code.setWidth 16

def ofDestination (code : BitVec 3) : Word := code.setWidth 16 <<< 11

@[simp] theorem destinationField_ofDestination (c : BitVec 3) :
    destinationField (ofDestination c) = c := by
  revert c; decide

/-- `0x` and four digits. -/
def hex (w : Word) : Text := "0x".toList ++ Numeral.hexadecimal 4 w.toNat

theorem length_hex (w : Word) : (hex w).length = 6 := by simp [hex]

end Word

end ExecutionNode
