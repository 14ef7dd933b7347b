import ExecutionNode.Proofs.Meaning

/-!
# Immediates as sign and magnitude

A field is a magnitude of ten bits below a sign bit. What is read back, and which values share a
field, is told from these two. Arithmetic in 64 bits makes the same fields: a value is brought into
range before its sign and its size are taken, so even the least one is stored right, although it has
no opposite in 64 bits.
-/

namespace ExecutionNode.Immediate

/-! ## Storing and reading -/

/-- A word of eleven bits, the ten lowest of which hold the magnitude of `v`. -/
structure FieldOf (w : Word) (v : Int) : Prop where
  high_clear : ∀ i, 10 < i → w.getLsbD i = false
  magnitude : w.magnitudeField.toNat = v.natAbs

theorem fieldOf_signed {v : Int} (hv : v.natAbs < 1024) (negative : Bool) :
    FieldOf (signed v.natAbs negative) v where
  high_clear i hi := by
    have hpow : 2 ^ 11 ≤ 2 ^ i := Nat.pow_le_pow_right (by decide) hi
    rw [← BitVec.testBit_toNat]
    exact Nat.testBit_lt_two_pow (Nat.lt_of_lt_of_le (toNat_signed_lt hv negative) hpow)
  magnitude := magnitude_signed hv negative

section Beside

variable {rest : Word} (hclear : ∀ i < 11, rest.getLsbD i = false)

include hclear

theorem magnitude_or (w : Word) : magnitude (rest ||| w) = magnitude w := by
  have hfield : rest.magnitudeField = 0#10 := by
    apply BitVec.eq_of_getLsbD_eq
    intro i hi
    simp [Word.magnitudeField, hi, hclear i (by omega)]
  rw [magnitude, Word.magnitudeField_or, hfield, BitVec.zero_or, magnitude]

theorem has_sign_or (w : Word) : (rest ||| w).has .sign = w.has .sign := by
  have hsign : rest.has .sign = false := hclear 10 (by decide)
  rw [Word.has_or, hsign, Bool.false_or]

theorem ofMoveField_or (v : Int) : ofMoveField (rest ||| moveField v) = clamp v := by
  have hlt := natAbs_clamp_lt v
  rw [ofMoveField, has_sign_or hclear, magnitude_or hclear, moveField_eq_signed,
    has_signed hlt, magnitude_signed hlt, decide_eq_true rfl, Bool.true_and]
  simp only [decide_eq_true_eq]
  split <;> omega

theorem magnitude_or_arithmeticField (v : Int) (subtract : Bool) :
    magnitude (rest ||| arithmeticField v subtract) = (clamp v).natAbs := by
  rw [magnitude_or hclear, arithmeticField_eq_signed, magnitude_signed (natAbs_clamp_lt v)]

end Beside

/-! ## Values with one field -/

theorem signed_inj {m n : Nat} (hm : m < 1024) (hn : n < 1024) {a b : Bool} :
    signed m a = signed n b ↔ m = n ∧ a = b := by
  constructor
  · intro h
    constructor
    · rw [← magnitude_signed hm a, h, magnitude_signed hn]
    · simpa [has_signed hm, has_signed hn] using congrArg (Word.has · .sign) h
  · rintro ⟨rfl, rfl⟩
    rfl

theorem arithmeticField_xor (v : Int) :
    arithmeticField v true ^^^ arithmeticField v false = FormatBit.sign.mask := by
  rw [arithmeticField, arithmeticField, if_pos rfl, if_neg Bool.false_ne_true, BitVec.xor_comm,
    ← BitVec.xor_assoc, BitVec.xor_self, BitVec.zero_xor]

theorem arithmeticField_eq_iff (v w : Int) :
    arithmeticField v true = arithmeticField w false ↔ clamp w = -clamp v ∧ clamp v ≠ 0 := by
  rw [arithmeticField_eq_signed, arithmeticField_eq_signed,
    signed_inj (natAbs_clamp_lt v) (natAbs_clamp_lt w), Bool.true_xor, Bool.false_xor,
    ← decide_not, decide_eq_decide]
  -- One magnitude and two signs: the values are opposite, and not both 0.
  omega

theorem moveField_eq_iff (v w : Int) : moveField v = moveField w ↔ clamp v = clamp w := by
  rw [moveField_eq_signed, moveField_eq_signed,
    signed_inj (natAbs_clamp_lt v) (natAbs_clamp_lt w), decide_eq_decide]
  omega

theorem arithmeticField_of_clamp_eq_zero {v : Int} (h : clamp v = 0) (subtract : Bool) :
    arithmeticField v subtract = if subtract then FormatBit.sign.mask else 0#16 := by
  rw [arithmeticField_eq_signed, h]
  cases subtract <;> rfl

/-! ## In 64 bits -/

theorem toInt_max (a b : Int64) : (max a b).toInt = max a.toInt b.toInt := by
  simp only [max, Int64.le_iff_toInt_le]
  split <;> omega

theorem toInt_min (a b : Int64) : (min a b).toInt = min a.toInt b.toInt := by
  simp only [min, Int64.le_iff_toInt_le]
  split <;> omega

def clampInt64 (v : Int64) : Int64 := max (-999) (min v 999)

theorem toInt_clampInt64 (v : Int64) : (clampInt64 v).toInt = clamp v.toInt := by
  rw [clampInt64, toInt_max, toInt_min]
  rfl

/-- The magnitude, without a sign in 64 bits, cut to the width of a word. -/
def lowMagnitude (v : Int64) : Word := v.toBitVec.abs.setWidth 16

theorem toNat_abs (v : Int64) : v.toBitVec.abs.toNat = v.toInt.natAbs := by
  rw [BitVec.toNat_abs, Int64.toInt, BitVec.toInt_eq_msb_cond]
  split <;> omega

theorem toNat_lowMagnitude {v : Int64} (hv : v.toInt.natAbs < 1024) :
    (lowMagnitude v).toNat = v.toInt.natAbs := by
  rw [lowMagnitude, BitVec.toNat_setWidth, toNat_abs, Nat.mod_eq_of_lt (by omega)]

/-- What `signMagnitude` stores, worked out in 64 bits. -/
def signMagnitudeInt64 (v : Int64) : Word :=
  lowMagnitude (clampInt64 v) ||| if clampInt64 v < 0 then FormatBit.sign.mask else 0#16

theorem toNat_lowMagnitude_clampInt64 (v : Int64) :
    (lowMagnitude (clampInt64 v)).toNat = (clamp v.toInt).natAbs := by
  have hlt : (clampInt64 v).toInt.natAbs < 1024 := by
    rw [toInt_clampInt64]
    exact natAbs_clamp_lt v.toInt
  rw [toNat_lowMagnitude hlt, toInt_clampInt64]

theorem signMagnitudeInt64_eq (v : Int64) : signMagnitudeInt64 v = signMagnitude v.toInt := by
  have hmagnitude : lowMagnitude (clampInt64 v) = BitVec.ofNat 16 (clamp v.toInt).natAbs := by
    rw [← toNat_lowMagnitude_clampInt64, BitVec.ofNat_toNat, BitVec.setWidth_eq]
  have hnegative : clampInt64 v < 0 ↔ clamp v.toInt < 0 := by
    rw [Int64.lt_iff_toInt_lt, toInt_clampInt64, Int64.toInt_zero]
  simp only [signMagnitudeInt64, signMagnitude, hmagnitude, hnegative]

/-- **An immediate is stored as sign and magnitude.** Nothing is cut off on the way from 64 bits. A
move gives the value in range back, an addition or a subtraction its magnitude, whatever stands in
the rest of the word. A subtraction has the sign bit flipped, so it shares its field with adding the
opposite; only for 0 there are two fields. -/
theorem stored_as_signMagnitude (v : Int) :
    (∀ x : Int64, x.toInt = v → (clampInt64 x).toInt = clamp v ∧
      (lowMagnitude (clampInt64 x)).toNat = (clamp v).natAbs ∧
      signMagnitudeInt64 x = signMagnitude v) ∧
    (FieldOf (moveField v) (clamp v) ∧ FieldOf (signMagnitude v) (clamp v) ∧
      ∀ subtract, FieldOf (arithmeticField v subtract) (clamp v)) ∧
    (∀ rest : Word, (∀ i < 11, rest.getLsbD i = false) →
      ofMoveField (rest ||| moveField v) = clamp v ∧
      ∀ subtract, magnitude (rest ||| arithmeticField v subtract) = (clamp v).natAbs) ∧
    arithmeticField v true ^^^ arithmeticField v false = 0x0400#16 ∧
    (∀ w, arithmeticField v true = arithmeticField w false ↔ clamp w = -clamp v ∧ clamp v ≠ 0) ∧
    (clamp v = 0 → arithmeticField v true = 0x0400#16 ∧ arithmeticField v false = 0#16) ∧
    ∀ w, moveField v = moveField w ↔ clamp v = clamp w := by
  have hfield := fieldOf_signed (natAbs_clamp_lt v)
  refine ⟨?_, ⟨?_, ?_, ?_⟩, ?_, arithmeticField_xor v, arithmeticField_eq_iff v, ?_,
    moveField_eq_iff v⟩
  · rintro x rfl
    exact ⟨toInt_clampInt64 x, toNat_lowMagnitude_clampInt64 x, signMagnitudeInt64_eq x⟩
  · rw [moveField_eq_signed]
    exact hfield _
  · rw [signMagnitude_eq_signed]
    exact hfield _
  · intro subtract
    rw [arithmeticField_eq_signed]
    exact hfield _
  · intro rest hclear
    exact ⟨ofMoveField_or hclear v, magnitude_or_arithmeticField hclear v⟩
  · intro hzero
    exact ⟨arithmeticField_of_clamp_eq_zero hzero true, arithmeticField_of_clamp_eq_zero hzero false⟩

theorem stored_as_signMagnitude_least :
    let least : Int := -9223372036854775808
    let greatest : Int := 9223372036854775807
    let rest : Word := 0x8800#16
    (Int64.minValue.toInt = least ∧ -Int64.minValue = Int64.minValue ∧
      signMagnitudeInt64 Int64.minValue = signMagnitude least) ∧
    ((∀ i < 11, rest.getLsbD i = false) ∧ ofMoveField (rest ||| moveField least) = -999 ∧
      magnitude (rest ||| arithmeticField least true) = 999) ∧
    (clamp greatest = -clamp least ∧ clamp least ≠ 0 ∧
      arithmeticField least true = arithmeticField greatest false) ∧
    clamp 0 = 0 ∧ arithmeticField 0 true = 0x0400#16 ∧ arithmeticField 0 false = 0#16 := by
  intro least greatest rest
  obtain ⟨hwide, -, hread, -, hopposite, -, -⟩ := stored_as_signMagnitude least
  have hleast : Int64.minValue.toInt = least := rfl
  have hclear : ∀ i < 11, rest.getLsbD i = false := by decide
  have hrange : clamp greatest = -clamp least ∧ clamp least ≠ 0 := by decide
  obtain ⟨-, -, -, -, -, hzero, -⟩ := stored_as_signMagnitude 0
  exact ⟨⟨hleast, rfl, (hwide _ hleast).2.2⟩, ⟨hclear, (hread rest hclear).1,
    (hread rest hclear).2 true⟩, ⟨hrange.1, hrange.2, (hopposite greatest).mpr hrange⟩, rfl,
    hzero rfl⟩

end ExecutionNode.Immediate
