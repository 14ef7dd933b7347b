import ExecutionNode.Numeral.Printer
import ExecutionNode.Numeral.Reader
import Mathlib.Algebra.Group.Nat.Defs

/-!
# Reading what was printed

A printed numeral is read back as the number that it was printed from.
-/

namespace ExecutionNode.Numeral

theorem digitValue?_of_isDigit {c : Char} (h : c.isDigit = true) :
    digitValue? 10 c = some (c.toNat - '0'.toNat) := by
  have hrange : '0' ≤ c ∧ c ≤ '9' := by
    rw [Char.isDigit, Bool.and_eq_true, decide_eq_true_eq, decide_eq_true_eq] at h
    exact h
  have hhigh : c.toNat ≤ '9'.toNat := hrange.2
  have hten : c.toNat - '0'.toNat < 10 := Nat.lt_succ_of_le (Nat.sub_le_sub_right hhigh '0'.toNat)
  rw [digitValue?, if_pos hrange]
  exact Option.filter_some_pos (decide_eq_true hten)

theorem le_ofDigitChars (t : Text) (acc : Nat) : acc ≤ Nat.ofDigitChars 10 t acc := by
  have hpow : 1 * acc ≤ 10 ^ t.length * acc := Nat.mul_le_mul_right acc (Nat.pow_pos (by decide))
  rw [Nat.ofDigitChars_eq_ofDigitChars_zero]
  omega

theorem readDigits_of_digits {bound acc : Nat} {t : Text} (ht : ∀ c ∈ t, c.isDigit = true)
    (hbound : Nat.ofDigitChars 10 t acc ≤ bound) :
    readDigits 10 bound acc t = .ok (Nat.ofDigitChars 10 t acc) := by
  induction t generalizing acc with
  | nil => simp [readDigits]
  | cons c rest ih =>
    rw [Nat.ofDigitChars_cons, Nat.mul_comm] at hbound ⊢
    have hle : acc * 10 + (c.toNat - '0'.toNat) ≤ bound :=
      Nat.le_trans (le_ofDigitChars rest _) hbound
    rw [readDigits, digitValue?_of_isDigit (ht c List.mem_cons_self)]
    dsimp only
    rw [if_pos hle]
    exact ih (fun d hd => ht d (List.mem_cons_of_mem _ hd)) hbound

theorem decimal_injective {m n : Nat} (h : decimal m = decimal n) : m = n := by
  have hvalue := congrArg (fun digits => Nat.ofDigitChars 10 digits 0) h
  simpa [decimal] using hvalue

theorem length_decimal_le {m n : Nat} (h : m ≤ n) : (decimal m).length ≤ (decimal n).length := by
  have hpos : 0 < (decimal n).length := List.length_pos_iff.mpr (decimal_ne_nil n)
  have hn := (Nat.length_toDigits_le_iff (by decide) hpos).mp (Nat.le_refl _)
  exact (Nat.length_toDigits_le_iff (by decide) hpos).mpr (Nat.lt_of_le_of_lt h hn)

theorem readMagnitude_decimal {bound n : Nat} (h : n ≤ bound) :
    readMagnitude 10 bound (decimal n) = .ok n := by
  have hvalue : Nat.ofDigitChars 10 (decimal n) 0 = n := Nat.ofDigitChars_ten_toDigits
  have hread := readDigits_of_digits (fun _ hc => isDigit_of_mem_decimal hc) (hvalue.symm ▸ h)
  rw [hvalue] at hread
  unfold readMagnitude
  split
  · next hnil => exact absurd hnil (decimal_ne_nil n)
  · exact hread

theorem readSaturated?_decimal {bound n : Nat} (h : n ≤ bound) :
    readSaturated? bound (decimal n) = some n := by
  rw [readSaturated?, readMagnitude_decimal h]

theorem readInteger?_decimal {n : Nat} (h : n ≤ greatest) :
    readInteger? (decimal n) = some (n : Int) := by
  have hsign : ∀ rest, decimal n ≠ '-' :: rest ∧ decimal n ≠ '+' :: rest := by
    intro rest
    constructor <;> intro heq <;>
      exact absurd (isDigit_of_mem_decimal (heq ▸ List.mem_cons_self)) (by decide)
  unfold readInteger?
  split
  · next rest heq => exact absurd heq (hsign rest).1
  · next rest heq => exact absurd heq (hsign rest).2
  · rw [readSaturated?_decimal h]
    rfl

theorem readInteger?_signedDecimal {v : Int} (h : v.natAbs ≤ greatest) :
    readInteger? (signedDecimal v) = some v := by
  cases v with
  | ofNat n => exact readInteger?_decimal h
  | negSucc n =>
    have hn : n + 1 ≤ greatest + 1 := Nat.le_succ_of_le h
    rw [signedDecimal, readInteger?, readSaturated?_decimal hn]
    rfl

/-! ## Hexadecimal -/

theorem mem_hexadecimal {width n : Nat} {c : Char} (h : c ∈ hexadecimal width n) :
    ∃ d < 16, c = d.digitChar := by
  induction width generalizing n with
  | zero => cases h
  | succ width ih =>
    rcases List.mem_append.mp h with h | h
    · exact ih h
    · exact ⟨n % 16, Nat.mod_lt n (by decide), List.mem_singleton.mp h⟩

theorem digitValue?_digitChar : ∀ d < 16, digitValue? 16 d.digitChar = some d := by decide

theorem readDigits_append (base bound acc : Nat) (s t : Text) :
    readDigits base bound acc (s ++ t) =
      (readDigits base bound acc s).bind fun n => readDigits base bound n t := by
  induction s generalizing acc with
  | nil => rfl
  | cons c rest ih =>
    rw [List.cons_append, readDigits, readDigits]
    split
    · rfl
    · split
      · exact ih _
      · rfl

theorem readDigits_hexadecimal {bound width n : Nat} (hwidth : n < 16 ^ width) (hbound : n ≤ bound) :
    readDigits 16 bound 0 (hexadecimal width n) = .ok n := by
  induction width generalizing n with
  | zero =>
    cases Nat.lt_one_iff.mp hwidth
    rfl
  | succ width ih =>
    -- The last digit comes off the end, so a bound that holds of the number holds all the way.
    have hrest : readDigits 16 bound 0 (hexadecimal width (n / 16)) = .ok (n / 16) :=
      ih (by rw [Nat.pow_succ] at hwidth; omega) (by omega)
    have hvalue : n / 16 * 16 + n % 16 = n := by omega
    rw [hexadecimal, readDigits_append, hrest, Except.bind, readDigits,
      digitValue?_digitChar (n % 16) (Nat.mod_lt n (by decide))]
    dsimp only
    rw [hvalue, if_pos hbound, readDigits]

theorem readUnsigned_hexadecimal {bound width n : Nat} (hpos : 0 < width) (hwidth : n < 16 ^ width)
    (hbound : n ≤ bound) : readUnsigned 16 bound (hexadecimal width n) = .ok n := by
  have hread := readDigits_hexadecimal hwidth hbound
  have hsign : ∀ d < 16, d.digitChar ≠ '+' := by decide
  rw [← length_hexadecimal width n] at hpos
  obtain ⟨c, rest, heq⟩ := List.exists_cons_of_length_pos hpos
  obtain ⟨d, hd, rfl⟩ := mem_hexadecimal (heq ▸ List.mem_cons_self : c ∈ hexadecimal width n)
  rw [heq] at hread ⊢
  simpa [readUnsigned, readMagnitude, hsign d hd] using hread

end ExecutionNode.Numeral
