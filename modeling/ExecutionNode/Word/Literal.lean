import ExecutionNode.Failure
import ExecutionNode.Numeral.Reader
import ExecutionNode.Text.Blank
import ExecutionNode.Word.Basic

/-!
# Word literals

A word may be typed in decimal, or in hexadecimal after `0x` or `0X`. Blanks around it are
ignored, and a plus may stand before the digits.
-/

namespace ExecutionNode.Word

def hexDigits? : Text → Option Text
  | '0' :: 'x' :: digits | '0' :: 'X' :: digits => some digits
  | _ => none

structure LiteralError where
  /-- The literal without the blanks around it. -/
  text : Text
  trouble : Numeral.Trouble
deriving DecidableEq, Repr

def LiteralError.failure (e : LiteralError) : Failure :=
  { message := (if (hexDigits? e.text).isSome then "bad hex word ".toList
      else "bad word ".toList) ++ Text.quoted e.text
    cause := some e.trouble.message }

/-- The largest number that a word holds. -/
def greatest : Nat := 0xFFFF

/-- The number of a literal without blanks around it. -/
def readLiteral (t : Text) : Except Numeral.Trouble Nat :=
  match hexDigits? t with
  | some digits => Numeral.readUnsigned 16 greatest digits
  | none => Numeral.readUnsigned 10 greatest t

def ofLiteral (t : Text) : Except LiteralError Word :=
  match readLiteral (Text.trim t) with
  | .ok n => .ok (BitVec.ofNat 16 n)
  | .error trouble => .error ⟨Text.trim t, trouble⟩

end ExecutionNode.Word
