import ExecutionNode.Text.Basic

/-!
# Reading numerals

A numeral is read from left to right and reading stops at the first trouble. Each character is
tested for being a digit before the value is tested against its bound, so the numeral that passes
its bound is too large whatever follows.
-/

namespace ExecutionNode.Numeral

inductive Trouble
  | empty
  | invalidDigit
  | tooLarge
deriving DecidableEq, Repr

def Trouble.message : Trouble → Text
  | empty => "cannot parse integer from empty string".toList
  | invalidDigit => "invalid digit found in string".toList
  | tooLarge => "number too large to fit in target type".toList

/-- The value of an ASCII digit of the base, letters in either case. -/
def digitValue? (base : Nat) (c : Char) : Option Nat :=
  let value :=
    if '0' ≤ c ∧ c ≤ '9' then some (c.toNat - '0'.toNat)
    else if 'a' ≤ c ∧ c ≤ 'z' then some (c.toNat - 'a'.toNat + 10)
    else if 'A' ≤ c ∧ c ≤ 'Z' then some (c.toNat - 'A'.toNat + 10)
    else none
  value.filter (· < base)

theorem digitValue?_lt {base : Nat} {c : Char} {d : Nat} (h : digitValue? base c = some d) :
    d < base := by
  simpa using (Option.filter_eq_some_iff.mp h).2

/-- Continues the number `acc` with the digits of a text, up to `bound`. -/
def readDigits (base bound acc : Nat) : Text → Except Trouble Nat
  | [] => .ok acc
  | c :: rest =>
    match digitValue? base c with
    | none => .error .invalidDigit
    | some d =>
      if acc * base + d ≤ bound then readDigits base bound (acc * base + d) rest
      else .error .tooLarge

/-- At least one digit. -/
def readMagnitude (base bound : Nat) : Text → Except Trouble Nat
  | [] => .error .invalidDigit
  | digits => readDigits base bound 0 digits

/-- A number without a minus: an optional plus and at least one digit. -/
def readUnsigned (base bound : Nat) : Text → Except Trouble Nat
  | [] => .error .empty
  | '+' :: digits => readMagnitude base bound digits
  | digits => readMagnitude base bound digits

/-- The largest integer of 64 bits with a sign. -/
def greatest : Nat := 0x7FFFFFFFFFFFFFFF

/-- Decimal digits whose value stays at the bound instead of passing it. -/
def readSaturated? (bound : Nat) (digits : Text) : Option Nat :=
  match readMagnitude 10 bound digits with
  | .ok n => some n
  | .error .tooLarge => some bound
  | .error _ => none

/-- A decimal integer with an optional sign, held within 64 bits. -/
def readInteger? : Text → Option Int
  | '-' :: digits => (readSaturated? (greatest + 1) digits).map fun n => -(n : Int)
  | '+' :: digits => (readSaturated? greatest digits).map Int.ofNat
  | digits => (readSaturated? greatest digits).map Int.ofNat

end ExecutionNode.Numeral
