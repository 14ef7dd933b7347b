import ExecutionNode.Proofs.Printing
import ExecutionNode.Word.Literal
import Mathlib.Data.List.DropRight

/-!
# Reading words that were printed

The hexadecimal text of a word is a literal of that word. It is made of ink, so blanks around it are
trimmed and nothing else is.
-/

namespace ExecutionNode

namespace Text

/-- The first text is the other with blanks around it, which has none at its own ends. -/
structure Trims (s t : Text) : Prop where
  around : ∃ before after, s = before ++ t ++ after ∧ (∀ c ∈ before, isBlank c = true) ∧
    ∀ c ∈ after, isBlank c = true
  first : ∀ c ∈ t.head?, isBlank c = false
  last : ∀ c ∈ t.getLast?, isBlank c = false

theorem isBlank_head?_dropWhile {s : Text} {c : Char} (h : c ∈ (s.dropWhile isBlank).head?) :
    isBlank c = false := by
  have hfirst := List.head?_dropWhile_not isBlank s
  rw [Option.mem_def.mp h] at hfirst
  exact hfirst

theorem trims_trim (s : Text) : Trims s (trim s) := by
  have htrim : trim s = (s.dropWhile isBlank).rdropWhile isBlank := rfl
  refine ⟨⟨s.takeWhile isBlank, (s.dropWhile isBlank).rtakeWhile isBlank, ?_, ?_, ?_⟩, ?_, ?_⟩
  · rw [htrim, List.append_assoc, List.rdropWhile_append_rtakeWhile,
      List.takeWhile_append_dropWhile]
  · exact List.all_eq_true.mp List.all_takeWhile
  · exact fun c hc => List.mem_rtakeWhile_imp hc
  · intro c hc
    -- The end is cut off behind the first character.
    obtain ⟨rest, hrest⟩ := List.rdropWhile_prefix isBlank (l := s.dropWhile isBlank)
    apply isBlank_head?_dropWhile (s := s)
    rw [← hrest, ← htrim, List.head?_append, Option.mem_def.mp hc]
    rfl
  · intro c hc
    rw [trim, List.getLast?_reverse] at hc
    exact isBlank_head?_dropWhile hc

theorem dropWhile_isBlank_append {before t : Text} (hbefore : ∀ c ∈ before, isBlank c = true)
    (hfirst : ∀ c ∈ t.head?, isBlank c = false) : (before ++ t).dropWhile isBlank = t := by
  rw [List.dropWhile_append_of_pos hbefore]
  cases t with
  | nil => rfl
  | cons c rest => exact List.dropWhile_cons_of_neg (by simp [hfirst c rfl])

theorem trim_of_trims {s t : Text} (h : Trims s t) : trim s = t := by
  obtain ⟨⟨before, after, rfl, hbefore, hafter⟩, hfirst, hlast⟩ := h
  have hreverse : ∀ c ∈ after.reverse, isBlank c = true := fun c hc =>
    hafter c (List.mem_reverse.mp hc)
  cases t with
  | nil =>
    have hblank : ∀ c ∈ before ++ [] ++ after, isBlank c = true := by
      rw [List.append_nil, List.forall_mem_append]
      exact ⟨hbefore, hafter⟩
    rw [trim, List.dropWhile_eq_nil_iff.mpr hblank]
    rfl
  | cons c rest =>
    have hfront : (before ++ (c :: rest ++ after)).dropWhile isBlank = c :: rest ++ after :=
      dropWhile_isBlank_append hbefore hfirst
    rw [trim, List.append_assoc, hfront, List.reverse_append,
      dropWhile_isBlank_append hreverse, List.reverse_reverse]
    rwa [List.head?_reverse]

theorem isBlank_of_isInk {c : Char} (h : isInk c = true) : isBlank c = false :=
  (Bool.or_eq_false_iff.mp (isSeparator_of_isInk h)).1

theorem trims_token {before t after : Text} (hbefore : ∀ c ∈ before, isBlank c = true)
    (ht : t.Token) (hafter : ∀ c ∈ after, isBlank c = true) : Trims (before ++ t ++ after) t := by
  refine ⟨⟨before, after, rfl, hbefore, hafter⟩, ?_, ?_⟩
  · exact fun c hc => isBlank_of_isInk (ht.ink c (List.mem_of_head? hc))
  · exact fun c hc => isBlank_of_isInk (ht.ink c (List.mem_of_getLast? hc))

end Text

theorem Numeral.isInk_of_mem_hexadecimal {width n : Nat} {c : Char}
    (h : c ∈ hexadecimal width n) : Text.isInk c = true := by
  have hdigit : ∀ d < 16, Text.isInk d.digitChar = true := by decide
  obtain ⟨d, hd, rfl⟩ := mem_hexadecimal h
  exact hdigit d hd

namespace Word

theorem token_hex (w : Word) : w.hex.Token := by
  refine ⟨List.cons_ne_nil _ _, ?_⟩
  rw [hex, List.forall_mem_append]
  exact ⟨List.all_eq_true.mp rfl, fun c hc => Numeral.isInk_of_mem_hexadecimal hc⟩

theorem readLiteral_hex (w : Word) : readLiteral w.hex = .ok w.toNat := by
  have hdigits : hexDigits? w.hex = some (Numeral.hexadecimal 4 w.toNat) := rfl
  rw [readLiteral, hdigits]
  exact Numeral.readUnsigned_hexadecimal (by decide) w.isLt (Nat.le_of_lt_succ w.isLt)

theorem ofLiteral_blanks_hex {before after : Text} (hbefore : ∀ c ∈ before, Text.isBlank c = true)
    (hafter : ∀ c ∈ after, Text.isBlank c = true) (w : Word) :
    ofLiteral (before ++ w.hex ++ after) = .ok w := by
  rw [ofLiteral, Text.trim_of_trims (Text.trims_token hbefore w.token_hex hafter), readLiteral_hex]
  dsimp only
  rw [BitVec.ofNat_toNat, BitVec.setWidth_eq]

theorem ofLiteral_hex (w : Word) : ofLiteral w.hex = .ok w := by
  have hread := ofLiteral_blanks_hex (List.forall_mem_nil _) (List.forall_mem_nil _) w
  rwa [List.nil_append, List.append_nil] at hread

end Word

end ExecutionNode
