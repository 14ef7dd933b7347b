import ExecutionNode.Instruction.Basic
import ExecutionNode.Proofs.Lines
import ExecutionNode.Proofs.Numerals

/-!
# The tokens of a printed instruction

Names, mnemonics and numerals are made of ink, which never separates, never starts a comment and
never ends a line. So the tokens of a printed instruction are the pieces that it was printed from.
-/

namespace ExecutionNode

/-! ## Ink and tokens -/

namespace Text

/-- A visible ASCII character that means nothing to the reader of lines and tokens. -/
def isInk (c : Char) : Bool := '!' ≤ c && c ≤ '~' && c != ',' && c != '#'

/-- The characters of printed lines. -/
def isPrinted (c : Char) : Bool := isInk c || c == ' ' || c == ','

structure Token (t : Text) : Prop where
  ne_nil : t ≠ []
  ink : ∀ c ∈ t, isInk c = true

theorem isSeparator_of_isInk {c : Char} (h : isInk c = true) : isSeparator c = false := by
  simp only [isInk, Bool.and_eq_true, decide_eq_true_eq, bne_iff_ne] at h
  obtain ⟨⟨⟨hlow, hhigh⟩, hcomma⟩, -⟩ := h
  have hlow : 33 ≤ c.toNat := hlow
  have hhigh : c.toNat ≤ 126 := hhigh
  have hblank : isBlank c = false := by
    simp only [isBlank, blankRanges, List.any_cons, List.any_nil, Bool.or_false,
      Bool.or_eq_false_iff, Bool.and_eq_false_iff, decide_eq_false_iff_not]
    omega
  simp [isSeparator, hblank, hcomma]

theorem isInk_of_isDigit {c : Char} (h : c.isDigit = true) : isInk c = true := by
  simp only [Char.isDigit, Bool.and_eq_true, decide_eq_true_eq] at h
  have hlow : 48 ≤ c.toNat := h.1
  have hhigh : c.toNat ≤ 57 := h.2
  have hne : ∀ d : Char, d.toNat < 48 → c ≠ d := by
    rintro d hd rfl
    omega
  have hrange : '!' ≤ c ∧ c ≤ '~' := ⟨Nat.le_trans (by decide) hlow, Nat.le_trans hhigh (by decide)⟩
  simp [isInk, hrange, hne ',' (by decide), hne '#' (by decide)]

theorem isPrinted_of_isInk {c : Char} (h : isInk c = true) : isPrinted c = true := by
  simp [isPrinted, h]

theorem tokens_token {t : Text} (h : t.Token) : tokens t = [t] :=
  tokens_eq_singleton h.ne_nil fun c hc => isSeparator_of_isInk (h.ink c hc)

theorem tokens_blank_cons (t : Text) : tokens (' ' :: t) = tokens t :=
  tokens_append_separator (by decide) [] t

theorem tokens_token_blank {t : Text} (h : t.Token) (rest : Text) :
    tokens (t ++ ' ' :: rest) = t :: tokens rest := by
  rw [tokens_append_separator (by decide), tokens_token h]
  rfl

theorem tokens_token_comma {t : Text} (h : t.Token) (rest : Text) :
    tokens (t ++ ", ".toList ++ rest) = t :: tokens rest := by
  have hcomma : t ++ ", ".toList ++ rest = t ++ ',' :: ' ' :: rest := by simp
  rw [hcomma, tokens_append_separator (by decide), tokens_token h, tokens_blank_cons]
  rfl

theorem tokens_replicate_blank (k : Nat) (t : Text) :
    tokens (List.replicate k ' ' ++ t) = tokens t := by
  induction k with
  | zero => rfl
  | succ k ih => rw [List.replicate_succ, List.cons_append, tokens_blank_cons, ih]

/-! ## Printed lines -/

theorem notMem_of_printed {t : Text} (h : ∀ c ∈ t, isPrinted c = true) {c : Char}
    (hc : isPrinted c = false) : c ∉ t := by
  intro hmem
  rw [h c hmem] at hc
  cases hc

theorem code_of_printed {t : Text} (h : ∀ c ∈ t, isPrinted c = true) : code t = t :=
  code_eq_self (notMem_of_printed h (by decide))

theorem dropReturn_of_printed {t : Text} (h : ∀ c ∈ t, isPrinted c = true) : dropReturn t = t := by
  have hlast : t.getLast? ≠ some '\r' := fun hr =>
    notMem_of_printed h (by decide) (List.mem_of_getLast? hr)
  rw [dropReturn, if_neg hlast]

theorem lines_flatMap {ls : List Text} (h : ∀ l ∈ ls, '\n' ∉ l) :
    lines (ls.flatMap (· ++ ['\n'])) = ls ++ [[]] := by
  induction ls with
  | nil => rfl
  | cons l rest ih =>
    have hl : lines l = [l] := List.splitOn_eq_singleton (h l List.mem_cons_self)
    have hrest := ih fun m hm => h m (List.mem_cons_of_mem l hm)
    rw [List.flatMap_cons, List.append_assoc, List.singleton_append, lines_append, hl, hrest,
      List.cons_append, List.nil_append, List.cons_append]

end Text

/-! ## The tokens of instructions -/

theorem Register.token_name (r : Register) : r.name.Token := by
  cases r <;> exact ⟨List.cons_ne_nil _ _, List.all_eq_true.mp rfl⟩

theorem Opcode.token_mnemonic (op : Opcode) : op.mnemonic.Token := by
  cases op <;> exact ⟨List.cons_ne_nil _ _, List.all_eq_true.mp rfl⟩

namespace Numeral

theorem token_decimal (n : Nat) : (decimal n).Token :=
  ⟨decimal_ne_nil n, fun _ hc => Text.isInk_of_isDigit (isDigit_of_mem_decimal hc)⟩

theorem token_signedDecimal (v : Int) : (signedDecimal v).Token := by
  cases v with
  | ofNat n => exact token_decimal n
  | negSucc n =>
    refine ⟨List.cons_ne_nil _ _, ?_⟩
    intro c hc
    rcases List.mem_cons.mp hc with rfl | hc
    · rfl
    · exact (token_decimal (n + 1)).ink c hc

theorem length_signedDecimal_le {v : Int} {n : Nat} (h : v.natAbs ≤ n) :
    (signedDecimal v).length ≤ (decimal n).length + 1 := by
  cases v with
  | ofNat m => exact Nat.le_succ_of_le (length_decimal_le h)
  | negSucc m => exact Nat.succ_le_succ (length_decimal_le h)

end Numeral

theorem Operand.token_render (x : Operand) : x.render.Token := by
  cases x with
  | register r => exact r.token_name
  | immediate v => exact Numeral.token_signedDecimal v
  | slot n => exact Numeral.token_decimal n

namespace Instruction

/-- The pieces of the canonical text. -/
def tokens (i : Instruction) : List Text :=
  match i.source, i.destination with
  | none, _ => [i.opcode.mnemonic]
  | some src, none => [i.opcode.mnemonic, src.render]
  | some src, some dst => [i.opcode.mnemonic, src.render, dst.name]

/-- **The canonical text has the tokens that it is printed from.** -/
theorem tokens_render (i : Instruction) : Text.tokens i.render = i.tokens := by
  match i with
  | ⟨op, none, _⟩ => exact Text.tokens_token op.token_mnemonic
  | ⟨op, some src, none⟩ =>
    apply (Text.tokens_token_blank op.token_mnemonic _).trans
    rw [Text.tokens_token src.token_render]
    rfl
  | ⟨op, some src, some dst⟩ =>
    have happend : (Instruction.mk op (some src) (some dst)).render =
        op.mnemonic ++ ' ' :: (src.render ++ ", ".toList ++ dst.name) := by simp [render]
    rw [happend, Text.tokens_token_blank op.token_mnemonic, Text.tokens_token_comma src.token_render,
      Text.tokens_token dst.token_name]
    rfl

theorem printed_render (i : Instruction) : ∀ c ∈ i.render, Text.isPrinted c = true := by
  have hop := fun c hc => Text.isPrinted_of_isInk (i.opcode.token_mnemonic.ink c hc)
  have hsrc := fun (x : Operand) c hc => Text.isPrinted_of_isInk (x.token_render.ink c hc)
  have hdst := fun (r : Register) c hc => Text.isPrinted_of_isInk (r.token_name.ink c hc)
  unfold render
  split
  · exact hop
  · next src _ _ =>
    rw [List.forall_mem_append, List.forall_mem_cons]
    exact ⟨hop, by decide, hsrc src⟩
  · next src dst _ _ =>
    rw [List.forall_mem_append, List.forall_mem_append, List.forall_mem_append,
      List.forall_mem_cons]
    exact ⟨⟨⟨hop, by decide, hsrc src⟩, List.all_eq_true.mp rfl⟩, hdst dst⟩

end Instruction

end ExecutionNode
