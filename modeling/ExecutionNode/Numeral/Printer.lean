import ExecutionNode.Text.Basic

/-!
# Writing numerals

Decimal without leading zeros, and hexadecimal in lower case with a fixed number of digits.
-/

namespace ExecutionNode.Numeral

def decimal (n : Nat) : Text := Nat.toDigits 10 n

/-- A minus stands before a negative number only. -/
def signedDecimal : Int → Text
  | .ofNat n => decimal n
  | .negSucc n => '-' :: decimal (n + 1)

theorem isDigit_of_mem_decimal {n : Nat} {c : Char} (h : c ∈ decimal n) : c.isDigit = true :=
  Nat.isDigit_of_mem_toDigits (by decide) (by decide) h

theorem decimal_ne_nil (n : Nat) : decimal n ≠ [] := Nat.toDigits_ne_nil

/-- The lowest `width` hexadecimal digits of `n`, highest first. -/
def hexadecimal : (width n : Nat) → Text
  | 0, _ => []
  | width + 1, n => hexadecimal width (n / 16) ++ [Nat.digitChar (n % 16)]

@[simp] theorem length_hexadecimal (width n : Nat) : (hexadecimal width n).length = width := by
  induction width generalizing n with
  | zero => rfl
  | succ width ih => simp [hexadecimal, ih]

end ExecutionNode.Numeral
