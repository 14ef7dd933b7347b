import ExecutionNode.Word.Basic

/-!
# Immediates

An immediate is stored as a sign and a magnitude. Values beyond the node's range are brought to
its nearest end, so every value can be stored.
-/

namespace ExecutionNode.Immediate

/-- The largest magnitude that a node accepts. -/
def limit : Int := 999

/-- The value that is nearest to `v` in the node's range. -/
def clamp (v : Int) : Int := max (-limit) (min v limit)

theorem natAbs_clamp_le (v : Int) : (clamp v).natAbs ≤ 999 := by
  simp only [clamp, limit]; omega

/-- The magnitude in bits 9 to 0 and the sign in bit 10. -/
def signMagnitude (v : Int) : Word :=
  BitVec.ofNat 16 (clamp v).natAbs ||| if clamp v < 0 then FormatBit.sign.mask else 0#16

/-- The field of a move: bits 10 to 0. -/
def moveField (v : Int) : Word := signMagnitude v &&& 0x07FF#16

/-- The field of an addition or a subtraction. The sign bit is also what selects a subtraction,
so a subtraction flips the sign of its value: to subtract 5 is to add -5. To subtract 0 leaves the
bit set. -/
def arithmeticField (v : Int) (subtract : Bool) : Word :=
  if subtract then signMagnitude v ^^^ FormatBit.sign.mask else signMagnitude v

/-- The size alone; in additions and subtractions the sign bit is part of the opcode. -/
def magnitude (w : Word) : Nat := w.magnitudeField.toNat

/-- The value in the field of a move. -/
def ofMoveField (w : Word) : Int := if w.has .sign then -(magnitude w : Int) else magnitude w

theorem magnitude_lt (w : Word) : magnitude w < 1024 := w.magnitudeField.isLt

end ExecutionNode.Immediate
