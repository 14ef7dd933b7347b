import ExecutionNode.Proofs.Numerals
import Mathlib.Algebra.Group.Int.Defs
import Mathlib.Data.List.TakeWhile

/-!
# How far a numeral is read

Reading stops at the first trouble, so the longest run of digits decides first: if its value passes
the bound, what follows the run is not looked at. Only a run within the bound has to be all.
-/

namespace ExecutionNode.Numeral

/-! ## Digits of a base -/

def isDigitOf (base : Nat) (c : Char) : Bool := (digitValue? base c).isSome

/-- The number that digits make of `acc`. -/
def number (base acc : Nat) (digits : Text) : Nat :=
  digits.foldl (fun n c => n * base + (digitValue? base c).getD 0) acc

theorem le_number {base : Nat} (hbase : 0 < base) (acc : Nat) (digits : Text) :
    acc ≤ number base acc digits := by
  induction digits generalizing acc with
  | nil => exact Nat.le_refl acc
  | cons c rest ih =>
    calc acc ≤ acc * base := Nat.le_mul_of_pos_right acc hbase
      _ ≤ acc * base + (digitValue? base c).getD 0 := Nat.le_add_right _ _
      _ ≤ number base acc (c :: rest) := ih _

theorem number_lt {base : Nat} (hbase : 0 < base) (acc : Nat) (digits : Text) :
    number base acc digits < (acc + 1) * base ^ digits.length := by
  induction digits generalizing acc with
  | nil => simp [number]
  | cons c rest ih =>
    have hdigit : (digitValue? base c).getD 0 < base := by
      cases h : digitValue? base c with
      | none => exact hbase
      | some d => exact digitValue?_lt h
    calc number base acc (c :: rest)
        < (acc * base + (digitValue? base c).getD 0 + 1) * base ^ rest.length := ih _
      _ ≤ ((acc + 1) * base) * base ^ rest.length := by
        apply Nat.mul_le_mul_right
        rw [Nat.add_mul]
        omega
      _ = (acc + 1) * base ^ (c :: rest).length := by
        rw [List.length_cons, Nat.pow_succ, Nat.mul_assoc, Nat.mul_comm base]

/-- **Reading digits.** The accumulator never passes the bound, and it does not get smaller. -/
theorem readDigits_eq {base bound acc : Nat} (hbase : 0 < base) (hacc : acc ≤ bound) (t : Text) :
    readDigits base bound acc t =
      if bound < number base acc (t.takeWhile (isDigitOf base)) then .error .tooLarge
      else if t.dropWhile (isDigitOf base) = [] then
        .ok (number base acc (t.takeWhile (isDigitOf base)))
      else .error .invalidDigit := by
  induction t generalizing acc with
  | nil => simp [readDigits, number, Nat.not_lt.mpr hacc]
  | cons c rest ih =>
    rw [readDigits]
    cases hd : digitValue? base c with
    | none =>
      have hdigit : isDigitOf base c = false := by rw [isDigitOf, hd]; rfl
      simp [hdigit, number, Nat.not_lt.mpr hacc]
    | some d =>
      have hdigit : isDigitOf base c = true := by rw [isDigitOf, hd]; rfl
      have hnumber : number base acc (c :: rest.takeWhile (isDigitOf base)) =
          number base (acc * base + d) (rest.takeWhile (isDigitOf base)) := by
        rw [number, List.foldl_cons, hd]
        rfl
      rw [List.takeWhile_cons_of_pos hdigit, List.dropWhile_cons_of_pos hdigit, hnumber]
      dsimp only
      by_cases hle : acc * base + d ≤ bound
      · rw [if_pos hle, ih hle]
      · have hover := le_number hbase (acc * base + d) (rest.takeWhile (isDigitOf base))
        rw [if_neg hle, if_pos (by omega)]

theorem readMagnitude_eq {base : Nat} (hbase : 0 < base) (bound : Nat) (t : Text) :
    readMagnitude base bound t =
      if bound < number base 0 (t.takeWhile (isDigitOf base)) then .error .tooLarge
      else if t.takeWhile (isDigitOf base) ≠ [] ∧ t.dropWhile (isDigitOf base) = [] then
        .ok (number base 0 (t.takeWhile (isDigitOf base)))
      else .error .invalidDigit := by
  cases t with
  | nil => simp [readMagnitude, number]
  | cons c rest =>
    have hread : readMagnitude base bound (c :: rest) = readDigits base bound 0 (c :: rest) := rfl
    rw [hread, readDigits_eq hbase (Nat.zero_le bound)]
    generalize hrun : (c :: rest).takeWhile (isDigitOf base) = run
    generalize hafter : (c :: rest).dropWhile (isDigitOf base) = after
    by_cases hlarge : bound < number base 0 run
    · rw [if_pos hlarge, if_pos hlarge]
    · rw [if_neg hlarge, if_neg hlarge]
      by_cases hall : after = []
      · -- Without a rest the run is the whole text, which has a first character.
        have hne : run ≠ [] := by
          rintro rfl
          have happend := List.takeWhile_append_dropWhile (p := isDigitOf base) (l := c :: rest)
          rw [hrun, hafter, hall] at happend
          cases happend
        rw [if_pos hall, if_pos ⟨hne, hall⟩]
      · rw [if_neg hall, if_neg fun h => hall h.2]

/-! ## Decimal digits -/

theorem isDigitOf_ten : isDigitOf 10 = Char.isDigit := by
  funext c
  cases hc : c.isDigit with
  | true => rw [isDigitOf, digitValue?_of_isDigit hc]; rfl
  | false =>
    have hrange : ¬ ('0' ≤ c ∧ c ≤ '9') := by
      rintro ⟨hlow, hhigh⟩
      rw [Char.isDigit, Bool.and_eq_false_iff, decide_eq_false_iff_not,
        decide_eq_false_iff_not] at hc
      rcases hc with hc | hc
      · exact hc hlow
      · exact hc hhigh
    have hnone : digitValue? 10 c = none := by
      rw [digitValue?, if_neg hrange]
      -- Letters stand for ten and more.
      split
      · simp
      · split <;> simp
    rw [isDigitOf, hnone]
    rfl

theorem number_ten (acc : Nat) {digits : Text} (h : ∀ c ∈ digits, c.isDigit = true) :
    number 10 acc digits = Nat.ofDigitChars 10 digits acc := by
  induction digits generalizing acc with
  | nil => rfl
  | cons c rest ih =>
    obtain ⟨hc, hrest⟩ := List.forall_mem_cons.mp h
    rw [number, List.foldl_cons, digitValue?_of_isDigit hc, Nat.ofDigitChars_cons, Nat.mul_comm 10]
    exact ih _ hrest

theorem ofDigitChars_lt {digits : Text} (h : ∀ c ∈ digits, c.isDigit = true) :
    Nat.ofDigitChars 10 digits 0 < 10 ^ digits.length := by
  rw [← number_ten 0 h]
  simpa using number_lt (by decide : 0 < 10) 0 digits

theorem isDigit_of_mem_takeWhile {t : Text} : ∀ c ∈ t.takeWhile Char.isDigit, c.isDigit = true :=
  List.all_eq_true.mp List.all_takeWhile

theorem readSaturated?_eq (bound : Nat) (t : Text) :
    readSaturated? bound t =
      if bound < Nat.ofDigitChars 10 (t.takeWhile Char.isDigit) 0 then some bound
      else if t.takeWhile Char.isDigit ≠ [] ∧ t.dropWhile Char.isDigit = [] then
        some (Nat.ofDigitChars 10 (t.takeWhile Char.isDigit) 0)
      else none := by
  rw [readSaturated?, readMagnitude_eq (by decide), isDigitOf_ten,
    number_ten 0 isDigit_of_mem_takeWhile]
  by_cases hlarge : bound < Nat.ofDigitChars 10 (t.takeWhile Char.isDigit) 0
  · rw [if_pos hlarge, if_pos hlarge]
  · rw [if_neg hlarge, if_neg hlarge]
    by_cases hall : t.takeWhile Char.isDigit ≠ [] ∧ t.dropWhile Char.isDigit = []
    · rw [if_pos hall, if_pos hall]
    · rw [if_neg hall, if_neg hall]

/-! ## Integers -/

/-- A text without the sign in front. Only one sign is taken. -/
def afterSign : Text → Text
  | '+' :: t | '-' :: t => t
  | t => t

/-- The longest run of digits behind the sign. -/
def digitRun (t : Text) : Text := (afterSign t).takeWhile Char.isDigit

/-- What follows the run. -/
def remainder (t : Text) : Text := (afterSign t).dropWhile Char.isDigit

/-- The value of the run, with the sign. Without digits it is 0. -/
def runValue (t : Text) : Int :=
  if t.head? = some '-' then -(Nat.ofDigitChars 10 (digitRun t) 0 : Int)
  else Nat.ofDigitChars 10 (digitRun t) 0

/-- An optional sign and at least one digit. -/
def IsInteger (t : Text) : Prop :=
  ∃ sign ∈ [[], ['+'], ['-']], ∃ digits : Text, t = sign ++ digits ∧ digits ≠ [] ∧
    ∀ c ∈ digits, c.isDigit = true

theorem readInteger?_cases (t : Text) :
    (∃ digits, t = '-' :: digits) ∨ t.head? ≠ some '-' ∧
      readInteger? t = (readSaturated? greatest (afterSign t)).map Int.ofNat := by
  match t with
  | [] => exact .inr ⟨by simp, rfl⟩
  | c :: rest =>
    by_cases hminus : c = '-'
    · exact .inl ⟨rest, by rw [hminus]⟩
    · refine .inr ⟨by simpa using hminus, ?_⟩
      by_cases hplus : c = '+'
      · rw [hplus]
        rfl
      · have hsign : afterSign (c :: rest) = c :: rest := by
          unfold afterSign
          split
          · next heq => exact absurd (List.cons.inj heq).1 hplus
          · next heq => exact absurd (List.cons.inj heq).1 hminus
          · rfl
        rw [hsign, readInteger?]
        · rintro digits heq
          exact hminus (List.cons.inj heq).1
        · rintro digits heq
          exact hplus (List.cons.inj heq).1

/-- **An integer is its run of digits, held within 64 bits.** -/
theorem readInteger?_eq (t : Text) :
    readInteger? t =
      if 2 ^ 63 - 1 < runValue t then some (2 ^ 63 - 1)
      else if runValue t < -2 ^ 63 then some (-2 ^ 63)
      else if digitRun t ≠ [] ∧ remainder t = [] then some (runValue t)
      else none := by
  rcases readInteger?_cases t with ⟨digits, rfl⟩ | ⟨hsign, hread⟩
  · have hread : readInteger? ('-' :: digits) =
        (readSaturated? (greatest + 1) digits).map fun n => -(n : Int) := rfl
    have hvalue : runValue ('-' :: digits) =
        -(Nat.ofDigitChars 10 (digits.takeWhile Char.isDigit) 0 : Int) := rfl
    rw [hread, readSaturated?_eq, hvalue, digitRun, remainder, afterSign]
    generalize Nat.ofDigitChars 10 (digits.takeWhile Char.isDigit) 0 = n
    have hpositive : ¬ (2 ^ 63 - 1 < -(n : Int)) := by omega
    rw [if_neg hpositive]
    by_cases hlarge : greatest + 1 < n
    · have hlow : -(n : Int) < -2 ^ 63 := by
        unfold greatest at hlarge
        omega
      rw [if_pos hlarge, if_pos hlow]
      rfl
    · have hlow : ¬ (-(n : Int) < -2 ^ 63) := by
        unfold greatest at hlarge
        omega
      rw [if_neg hlarge, if_neg hlow]
      split <;> rfl
  · have hvalue : runValue t = (Nat.ofDigitChars 10 (digitRun t) 0 : Int) := if_neg hsign
    rw [hread, readSaturated?_eq, hvalue, digitRun, remainder]
    generalize Nat.ofDigitChars 10 ((afterSign t).takeWhile Char.isDigit) 0 = n
    have hnegative : ¬ ((n : Int) < -2 ^ 63) := by omega
    rw [if_neg hnegative]
    by_cases hlarge : greatest < n
    · have hhigh : (2 ^ 63 - 1 : Int) < n := by
        unfold greatest at hlarge
        omega
      rw [if_pos hlarge, if_pos hhigh]
      rfl
    · have hhigh : ¬ ((2 ^ 63 - 1 : Int) < n) := by
        unfold greatest at hlarge
        omega
      rw [if_neg hlarge, if_neg hhigh]
      split <;> rfl

/-! ## The form of an integer -/

theorem exists_sign (t : Text) : ∃ sign ∈ [[], ['+'], ['-']], t = sign ++ afterSign t := by
  unfold afterSign
  split
  · exact ⟨['+'], by simp, rfl⟩
  · exact ⟨['-'], by simp, rfl⟩
  · exact ⟨[], by simp, rfl⟩

theorem afterSign_append {sign digits : Text} (hsign : sign ∈ [[], ['+'], ['-']])
    (hdigits : ∀ c ∈ digits, c.isDigit = true) : afterSign (sign ++ digits) = digits := by
  simp only [List.mem_cons, List.not_mem_nil, or_false] at hsign
  rcases hsign with rfl | rfl | rfl
  · -- A digit is no sign.
    rw [List.nil_append]
    unfold afterSign
    split
    · exact absurd (hdigits '+' List.mem_cons_self) (by decide)
    · exact absurd (hdigits '-' List.mem_cons_self) (by decide)
    · rfl
  · rfl
  · rfl

theorem isInteger_iff {t : Text} : IsInteger t ↔ digitRun t ≠ [] ∧ remainder t = [] := by
  constructor
  · rintro ⟨sign, hsign, digits, rfl, hne, hdigits⟩
    rw [digitRun, remainder, afterSign_append hsign hdigits, List.takeWhile_eq_self_iff.mpr hdigits]
    exact ⟨hne, List.dropWhile_eq_nil_iff.mpr hdigits⟩
  · rintro ⟨hne, hall⟩
    obtain ⟨sign, hsign, ht⟩ := exists_sign t
    have hdigits := List.dropWhile_eq_nil_iff.mp hall
    rw [digitRun, List.takeWhile_eq_self_iff.mpr hdigits] at hne
    exact ⟨sign, hsign, afterSign t, ht, hne, hdigits⟩

theorem natAbs_runValue_lt (t : Text) : (runValue t).natAbs < 10 ^ (digitRun t).length := by
  have hlt : Nat.ofDigitChars 10 (digitRun t) 0 < 10 ^ (digitRun t).length :=
    ofDigitChars_lt isDigit_of_mem_takeWhile
  unfold runValue
  split
  · rwa [Int.natAbs_neg, Int.natAbs_natCast]
  · rwa [Int.natAbs_natCast]

theorem length_digitRun_lt {t : Text} (h : remainder t ≠ []) : (digitRun t).length < t.length := by
  obtain ⟨sign, -, ht⟩ := exists_sign t
  have hsplit : digitRun t ++ remainder t = afterSign t := List.takeWhile_append_dropWhile
  have hlength : t.length = sign.length + ((digitRun t).length + (remainder t).length) := by
    rw [← List.length_append, hsplit, ← List.length_append, ← ht]
  have hpos := List.length_pos_iff.mpr h
  omega

theorem isInteger_of_large {t : Text} (ht : t.length ≤ 19)
    (hlarge : 2 ^ 63 ≤ (runValue t).natAbs) : IsInteger t := by
  have hlt := natAbs_runValue_lt t
  rw [isInteger_iff]
  constructor
  · intro hnil
    rw [hnil] at hlt
    simp at hlt
    omega
  · -- With something behind it the run has 18 digits at most, too few for the number.
    by_contra hrest
    have hshort : (digitRun t).length ≤ 18 := by
      have := length_digitRun_lt hrest
      omega
    have hpow : 10 ^ (digitRun t).length ≤ 10 ^ 18 := Nat.pow_le_pow_right (by decide) hshort
    omega

theorem exists_readInteger?_iff {t : Text} (ht : t.length ≤ 19) :
    (∃ v, readInteger? t = some v) ↔ IsInteger t := by
  rw [readInteger?_eq]
  split
  · next hhigh => exact iff_of_true ⟨_, rfl⟩ (isInteger_of_large ht (by omega))
  · split
    · next hlow => exact iff_of_true ⟨_, rfl⟩ (isInteger_of_large ht (by omega))
    · rw [isInteger_iff]
      split
      · next hall => exact iff_of_true ⟨_, rfl⟩ hall
      · next hall => exact iff_of_false (by simp) hall

end ExecutionNode.Numeral
