import ExecutionNode.Proofs.DigitRuns
import ExecutionNode.Proofs.Literals

/-!
# The grammar of word literals

Blanks around a literal do not count. What is left is a number in hexadecimal if it begins with
`0x` or `0X` and in decimal otherwise, and the literals that are read are just the numbers that a
word can hold. What is refused is refused for one of three reasons, and the digits decide which.
-/

namespace ExecutionNode

/-! ## Numbers without a minus -/

namespace Numeral

theorem digitValue?_sixteen_eq_some_iff {c : Char} {d : Nat} :
    digitValue? 16 c = some d ↔ d < 16 ∧ (c = d.digitChar ∨ c = d.digitChar.toUpper) := by
  constructor
  · intro h
    have hd := digitValue?_lt h
    have hdigit : ∀ d < 10, Char.ofNat ('0'.toNat + d) = d.digitChar := by decide
    have hlower : ∀ d < 16, 10 ≤ d → Char.ofNat ('a'.toNat + (d - 10)) = d.digitChar := by decide
    have hupper : ∀ d < 16, 10 ≤ d →
        Char.ofNat ('A'.toNat + (d - 10)) = d.digitChar.toUpper := by decide
    have hc := Char.ofNat_toNat c
    refine ⟨hd, ?_⟩
    rw [digitValue?, Option.filter_eq_some_iff] at h
    obtain ⟨hvalue, -⟩ := h
    split at hvalue
    · next hrange =>
      have hlow : '0'.toNat ≤ c.toNat := hrange.1
      have hhigh : c.toNat ≤ '9'.toNat := hrange.2
      have hten : '9'.toNat = '0'.toNat + 9 := rfl
      cases hvalue
      rw [← hdigit _ (by omega), Nat.add_sub_cancel' hlow, hc]
      exact .inl rfl
    · split at hvalue
      · next hrange =>
        have hlow : 'a'.toNat ≤ c.toNat := hrange.1
        cases hvalue
        rw [← hlower _ hd (Nat.le_add_left 10 _), Nat.add_sub_cancel,
          Nat.add_sub_cancel' hlow, hc]
        exact .inl rfl
      · split at hvalue
        · next hrange =>
          have hlow : 'A'.toNat ≤ c.toNat := hrange.1
          cases hvalue
          rw [← hupper _ hd (Nat.le_add_left 10 _), Nat.add_sub_cancel,
            Nat.add_sub_cancel' hlow, hc]
          exact .inr rfl
        · cases hvalue
  · have hupper : ∀ d < 16, digitValue? 16 d.digitChar.toUpper = some d := by decide
    rintro ⟨hd, rfl | rfl⟩
    · exact digitValue?_digitChar d hd
    · exact hupper d hd

theorem digitValue?_eq_some_iff {base : Nat} (hbase : base ≤ 16) {c : Char} {d : Nat} :
    digitValue? base c = some d ↔ d < base ∧ (c = d.digitChar ∨ c = d.digitChar.toUpper) := by
  have hsixteen : digitValue? base c = some d ↔ d < base ∧ digitValue? 16 c = some d := by
    simp only [digitValue?, Option.filter_eq_some_iff, decide_eq_true_eq]
    constructor
    · rintro ⟨hvalue, hd⟩
      exact ⟨hd, hvalue, Nat.lt_of_lt_of_le hd hbase⟩
    · rintro ⟨hd, hvalue, -⟩
      exact ⟨hvalue, hd⟩
  rw [hsixteen, digitValue?_sixteen_eq_some_iff]
  constructor
  · rintro ⟨hd, -, hc⟩
    exact ⟨hd, hc⟩
  · rintro ⟨hd, hc⟩
    exact ⟨hd, Nat.lt_of_lt_of_le hd hbase, hc⟩

/-- A text without the plus in front. Only one plus is taken. -/
def afterPlus : Text → Text
  | '+' :: t => t
  | t => t

/-- The longest run of digits behind the plus. -/
def unsignedRun (base : Nat) (t : Text) : Text := (afterPlus t).takeWhile (isDigitOf base)

/-- An optional plus and at least one digit, with their value. -/
def IsUnsigned (base : Nat) (t : Text) (n : Nat) : Prop :=
  ∃ sign ∈ [[], ['+']], ∃ digits : Text, t = sign ++ digits ∧ digits ≠ [] ∧
    (∀ c ∈ digits, isDigitOf base c = true) ∧ number base 0 digits = n

/-- Why a text is no number up to a bound. -/
inductive Refused (base bound : Nat) (t : Text) : Trouble → Prop
  | empty (h : t = []) : Refused base bound t .empty
  | tooLarge (h : bound < number base 0 (unsignedRun base t)) : Refused base bound t .tooLarge
  | invalidDigit (hne : t ≠ []) (hle : number base 0 (unsignedRun base t) ≤ bound)
    (h : ¬ ∃ n, IsUnsigned base t n) : Refused base bound t .invalidDigit

theorem isDigitOf_plus (base : Nat) : isDigitOf base '+' = false := by
  simp [isDigitOf, digitValue?]

theorem exists_plus (t : Text) : ∃ sign ∈ [[], ['+']], t = sign ++ afterPlus t := by
  unfold afterPlus
  split
  · exact ⟨['+'], by simp, rfl⟩
  · exact ⟨[], by simp, rfl⟩

theorem afterPlus_append {base : Nat} {sign digits : Text} (hsign : sign ∈ [[], ['+']])
    (hdigits : ∀ c ∈ digits, isDigitOf base c = true) : afterPlus (sign ++ digits) = digits := by
  simp only [List.mem_cons, List.not_mem_nil, or_false] at hsign
  rcases hsign with rfl | rfl
  · rw [List.nil_append]
    unfold afterPlus
    split
    · have hplus := hdigits '+' List.mem_cons_self
      rw [isDigitOf_plus] at hplus
      cases hplus
    · rfl
  · rfl

theorem isUnsigned_iff {base : Nat} {t : Text} {n : Nat} :
    IsUnsigned base t n ↔ unsignedRun base t ≠ [] ∧ (afterPlus t).dropWhile (isDigitOf base) = [] ∧
      number base 0 (unsignedRun base t) = n := by
  constructor
  · rintro ⟨sign, hsign, digits, rfl, hne, hdigits, hn⟩
    rw [unsignedRun, afterPlus_append hsign hdigits, List.takeWhile_eq_self_iff.mpr hdigits]
    exact ⟨hne, List.dropWhile_eq_nil_iff.mpr hdigits, hn⟩
  · rintro ⟨hne, hall, hn⟩
    obtain ⟨sign, hsign, ht⟩ := exists_plus t
    have hdigits := List.dropWhile_eq_nil_iff.mp hall
    rw [unsignedRun, List.takeWhile_eq_self_iff.mpr hdigits] at hne hn
    exact ⟨sign, hsign, afterPlus t, ht, hne, hdigits, hn⟩

theorem readUnsigned_of_ne_nil {t : Text} (h : t ≠ []) (base bound : Nat) :
    readUnsigned base bound t = readMagnitude base bound (afterPlus t) := by
  obtain ⟨c, rest, rfl⟩ := List.exists_cons_of_ne_nil h
  by_cases hplus : c = '+'
  · rw [hplus]
    rfl
  · have hsign : afterPlus (c :: rest) = c :: rest := by
      unfold afterPlus
      split
      · next heq => exact absurd (List.cons.inj heq).1 hplus
      · rfl
    rw [hsign, readUnsigned]
    · exact h
    · rintro digits heq
      exact hplus (List.cons.inj heq).1

theorem readUnsigned_eq {base : Nat} (hbase : 0 < base) (bound : Nat) {t : Text} (h : t ≠ []) :
    readUnsigned base bound t =
      if bound < number base 0 (unsignedRun base t) then .error .tooLarge
      else if unsignedRun base t ≠ [] ∧ (afterPlus t).dropWhile (isDigitOf base) = [] then
        .ok (number base 0 (unsignedRun base t))
      else .error .invalidDigit := by
  rw [readUnsigned_of_ne_nil h, readMagnitude_eq hbase, unsignedRun]

theorem readUnsigned_eq_ok_iff {base bound n : Nat} (hbase : 0 < base) {t : Text} :
    readUnsigned base bound t = .ok n ↔ n ≤ bound ∧ IsUnsigned base t n := by
  rw [isUnsigned_iff]
  by_cases hnil : t = []
  · rw [hnil]
    simp [readUnsigned, unsignedRun, afterPlus]
  · rw [readUnsigned_eq hbase bound hnil]
    by_cases hlarge : bound < number base 0 (unsignedRun base t)
    · rw [if_pos hlarge]
      refine iff_of_false (by simp) ?_
      rintro ⟨hle, -, -, rfl⟩
      exact Nat.not_lt.mpr hle hlarge
    · rw [if_neg hlarge]
      split
      · next hall =>
        constructor
        · rintro ⟨⟩
          exact ⟨Nat.le_of_not_lt hlarge, hall.1, hall.2, rfl⟩
        · rintro ⟨-, -, -, rfl⟩
          rfl
      · next hall => exact iff_of_false (by simp) fun h => hall ⟨h.2.1, h.2.2.1⟩

theorem readUnsigned_eq_error_iff {base bound : Nat} (hbase : 0 < base) {t : Text} {e : Trouble} :
    readUnsigned base bound t = .error e ↔ Refused base bound t e := by
  by_cases hnil : t = []
  · rw [hnil]
    constructor
    · rintro ⟨⟩
      exact .empty rfl
    · rintro (_ | hlarge | ⟨hne, -, -⟩)
      · rfl
      · -- Without a digit the value is zero.
        exact absurd hlarge (Nat.not_lt_zero bound)
      · exact absurd rfl hne
  · rw [readUnsigned_eq hbase bound hnil]
    by_cases hlarge : bound < number base 0 (unsignedRun base t)
    · rw [if_pos hlarge]
      constructor
      · rintro ⟨⟩
        exact .tooLarge hlarge
      · rintro (hempty | _ | ⟨-, hle, -⟩)
        · exact absurd hempty hnil
        · rfl
        · exact absurd hlarge (Nat.not_lt.mpr hle)
    · rw [if_neg hlarge]
      split
      · next hall =>
        refine iff_of_false (by simp) ?_
        rintro (hempty | hover | ⟨-, -, hnumber⟩)
        · exact hnil hempty
        · exact hlarge hover
        · exact hnumber ⟨_, isUnsigned_iff.mpr ⟨hall.1, hall.2, rfl⟩⟩
      · next hall =>
        constructor
        · rintro ⟨⟩
          refine .invalidDigit hnil (Nat.le_of_not_lt hlarge) ?_
          rintro ⟨n, hnumber⟩
          obtain ⟨hrun, hrest, -⟩ := isUnsigned_iff.mp hnumber
          exact hall ⟨hrun, hrest⟩
        · rintro (hempty | hover | _)
          · exact absurd hempty hnil
          · exact absurd hover hlarge
          · rfl

theorem isUnsigned_decimal (n : Nat) : IsUnsigned 10 (decimal n) n := by
  have hdigits : ∀ c ∈ decimal n, c.isDigit = true := fun _ hc => isDigit_of_mem_decimal hc
  refine ⟨[], by simp, decimal n, rfl, decimal_ne_nil n, ?_, ?_⟩
  · rw [isDigitOf_ten]
    exact hdigits
  · rw [number_ten 0 hdigits]
    exact Nat.ofDigitChars_ten_toDigits

end Numeral

/-! ## Words -/

namespace Word

/-- The base of a literal without blanks, and the part of it that is the number. -/
inductive Reads : Text → Nat → Text → Prop
  | lower (digits : Text) : Reads ('0' :: 'x' :: digits) 16 digits
  | upper (digits : Text) : Reads ('0' :: 'X' :: digits) 16 digits
  | decimal {t : Text} (hlower : ¬ "0x".toList <+: t) (hupper : ¬ "0X".toList <+: t) : Reads t 10 t

theorem hexDigits?_eq_none {t : Text} (hlower : ¬ "0x".toList <+: t)
    (hupper : ¬ "0X".toList <+: t) : hexDigits? t = none := by
  unfold hexDigits?
  split
  · next digits => exact absurd ⟨digits, rfl⟩ hlower
  · next digits => exact absurd ⟨digits, rfl⟩ hupper
  · rfl

theorem exists_reads (t : Text) : ∃ base part, Reads t base part := by
  by_cases hlower : "0x".toList <+: t
  · obtain ⟨digits, rfl⟩ := hlower
    exact ⟨16, digits, .lower digits⟩
  · by_cases hupper : "0X".toList <+: t
    · obtain ⟨digits, rfl⟩ := hupper
      exact ⟨16, digits, .upper digits⟩
    · exact ⟨10, t, .decimal hlower hupper⟩

theorem readLiteral_of_reads {t part : Text} {base : Nat} (h : Reads t base part) :
    readLiteral t = Numeral.readUnsigned base greatest part := by
  cases h with
  | lower => rfl
  | upper => rfl
  | decimal hlower hupper => rw [readLiteral, hexDigits?_eq_none hlower hupper]

theorem Reads.pos {t part : Text} {base : Nat} (h : Reads t base part) : 0 < base := by
  cases h <;> decide

theorem ofLiteral_eq_ok_iff {s : Text} {w : Word} :
    ofLiteral s = .ok w ↔ ∃ n, readLiteral (Text.trim s) = .ok n ∧ BitVec.ofNat 16 n = w := by
  unfold ofLiteral
  cases readLiteral (Text.trim s) <;> simp

theorem ofLiteral_eq_error_iff {s : Text} {e : LiteralError} :
    ofLiteral s = .error e ↔
      e.text = Text.trim s ∧ readLiteral (Text.trim s) = .error e.trouble := by
  obtain ⟨text, trouble⟩ := e
  unfold ofLiteral
  cases readLiteral (Text.trim s) <;> simp [eq_comm]

section Literal

variable {s t part : Text} {base : Nat} (ht : Text.Trims s t) (hreads : Reads t base part)

include ht hreads

theorem ofLiteral_iff_isUnsigned {w : Word} :
    ofLiteral s = .ok w ↔ Numeral.IsUnsigned base part w.toNat := by
  rw [ofLiteral_eq_ok_iff, Text.trim_of_trims ht, readLiteral_of_reads hreads]
  simp only [Numeral.readUnsigned_eq_ok_iff hreads.pos]
  constructor
  · rintro ⟨n, ⟨hle, hnumber⟩, rfl⟩
    have hlt : n < 2 ^ 16 := Nat.lt_succ_of_le hle
    rwa [BitVec.toNat_ofNat, Nat.mod_eq_of_lt hlt]
  · intro hnumber
    refine ⟨w.toNat, ⟨Nat.le_of_lt_succ w.isLt, hnumber⟩, ?_⟩
    rw [BitVec.ofNat_toNat, BitVec.setWidth_eq]

theorem ofLiteral_error_iff_refused {e : LiteralError} :
    ofLiteral s = .error e ↔ e.text = t ∧ Numeral.Refused base greatest part e.trouble := by
  rw [ofLiteral_eq_error_iff, Text.trim_of_trims ht, readLiteral_of_reads hreads,
    Numeral.readUnsigned_eq_error_iff hreads.pos]

end Literal

theorem reads_decimal (n : Nat) : Reads (Numeral.decimal n) 10 (Numeral.decimal n) := by
  have hbegins : ∀ p : Text, (∃ c ∈ p, c.isDigit = false) → ¬ p <+: Numeral.decimal n := by
    rintro p ⟨c, hc, hdigit⟩ hp
    rw [Numeral.isDigit_of_mem_decimal (hp.subset hc)] at hdigit
    cases hdigit
  exact .decimal (hbegins _ ⟨'x', by decide, rfl⟩) (hbegins _ ⟨'X', by decide, rfl⟩)

theorem ofLiteral_blanks_decimal {before after : Text}
    (hbefore : ∀ c ∈ before, Text.isBlank c = true) (hafter : ∀ c ∈ after, Text.isBlank c = true)
    (w : Word) : ofLiteral (before ++ Numeral.decimal w.toNat ++ after) = .ok w :=
  (ofLiteral_iff_isUnsigned (Text.trims_token hbefore (Numeral.token_decimal w.toNat) hafter)
    (reads_decimal w.toNat)).mpr (Numeral.isUnsigned_decimal w.toNat)

/-! ## Literals -/

theorem failure_of_reads {e : LiteralError} {base : Nat} {part : Text}
    (h : Reads e.text base part) : e.failure =
      { message := (if base = 16 then "bad hex word ".toList else "bad word ".toList) ++
          Text.quoted e.text
        cause := some e.trouble.message } := by
  obtain ⟨text, trouble⟩ := e
  cases h with
  | lower => rfl
  | upper => rfl
  | decimal hlower hupper => simp [LiteralError.failure, hexDigits?_eq_none hlower hupper]

/-- **The grammar of word literals.** Every text is blanks around a literal, which has a base and a
part to be read in it. A word is read from a number of that base, and otherwise the failure tells
that there is nothing to read, that the digits up to the first other character are too large
already, or that some character is no digit. Words that were printed are read back. -/
theorem ofLiteral_grammar :
    (∀ s, ∃ t base part, Text.Trims s t ∧ Reads t base part) ∧
    (∀ s t base part, Text.Trims s t → Reads t base part →
      (∀ w : Word, ofLiteral s = .ok w ↔ Numeral.IsUnsigned base part w.toNat) ∧
      (∀ e, ofLiteral s = .error e ↔ e.text = t ∧ Numeral.Refused base 65535 part e.trouble) ∧
      ∀ e, ofLiteral s = .error e → e.failure =
        { message := (if base = 16 then "bad hex word ".toList else "bad word ".toList) ++
            Text.quoted t
          cause := some e.trouble.message }) ∧
    (∀ base ≤ 16, ∀ c d, Numeral.digitValue? base c = some d ↔
      d < base ∧ (c = d.digitChar ∨ c = d.digitChar.toUpper)) ∧
    ∀ before after : Text, (∀ c ∈ before, Text.isBlank c = true) →
      (∀ c ∈ after, Text.isBlank c = true) → ∀ w : Word,
        ofLiteral (before ++ w.hex ++ after) = .ok w ∧
        ofLiteral (before ++ Numeral.decimal w.toNat ++ after) = .ok w := by
  refine ⟨?_, ?_, ?_, ?_⟩
  · intro s
    obtain ⟨base, part, hreads⟩ := exists_reads (Text.trim s)
    exact ⟨Text.trim s, base, part, Text.trims_trim s, hreads⟩
  · intro s t base part ht hreads
    refine ⟨fun w => ofLiteral_iff_isUnsigned ht hreads,
      fun e => ofLiteral_error_iff_refused ht hreads, ?_⟩
    intro e he
    obtain ⟨rfl, -⟩ := (ofLiteral_error_iff_refused ht hreads).mp he
    exact failure_of_reads hreads
  · exact fun base hbase c d => Numeral.digitValue?_eq_some_iff hbase
  · exact fun before after hbefore hafter w =>
      ⟨ofLiteral_blanks_hex hbefore hafter w, ofLiteral_blanks_decimal hbefore hafter w⟩

theorem ofLiteral_grammar_samples :
    let number := "+0042".toList
    let blanks := " \t".toList
    let large := "0x1FFFFz".toList
    (Text.Trims (blanks ++ number ++ blanks) number ∧ Reads number 10 number ∧
      (ofLiteral (blanks ++ number ++ blanks) = .ok 42#16 ↔ Numeral.IsUnsigned 10 number 42)) ∧
    (Text.Trims large large ∧ Reads large 16 "1FFFFz".toList ∧
      (ofLiteral large = .error ⟨large, .tooLarge⟩ ↔
        large = large ∧ Numeral.Refused 16 65535 "1FFFFz".toList .tooLarge)) ∧
    ofLiteral large = .error ⟨large, .tooLarge⟩ ∧
    (10 ≤ 16 ∧ (Numeral.digitValue? 10 '7' = some 7 ↔ 7 < 10 ∧ ('7' = '7' ∨ '7' = '7'))) ∧
    ((∀ c ∈ blanks, Text.isBlank c = true) ∧
      ofLiteral (blanks ++ hex 0xD802#16 ++ blanks) = .ok 0xD802#16) := by
  intro number blanks large
  obtain ⟨-, hgrammar, hdigits, hprinted⟩ := ofLiteral_grammar
  have hblanks : ∀ c ∈ blanks, Text.isBlank c = true := List.all_eq_true.mp rfl
  have hnumber : Text.Trims (blanks ++ number ++ blanks) number := Text.trims_trim _
  have hlarge : Text.Trims large large := Text.trims_trim _
  have hplus : ∀ rest, ¬ '0' :: rest <+: number := fun rest h =>
    absurd (List.cons_prefix_cons.mp h).1 (by decide)
  have hreads : Reads number 10 number := .decimal (hplus _) (hplus _)
  have hreadsLarge : Reads large 16 "1FFFFz".toList := .lower _
  exact ⟨⟨hnumber, hreads, (hgrammar _ _ _ _ hnumber hreads).1 42#16⟩,
    ⟨hlarge, hreadsLarge, (hgrammar _ _ _ _ hlarge hreadsLarge).2.1 ⟨large, .tooLarge⟩⟩,
    rfl, ⟨by decide, hdigits 10 (by decide) '7' 7⟩,
    hblanks, (hprinted blanks blanks hblanks hblanks 0xD802#16).1⟩

/-- A sign in front of the base is none of the number. -/
example : ofLiteral "+0x10".toList = .error ⟨"+0x10".toList, .invalidDigit⟩ := by rfl

end Word

end ExecutionNode
