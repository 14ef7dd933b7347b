import ExecutionNode.Proofs.Diagnosis
import ExecutionNode.Proofs.DigitRuns
import ExecutionNode.Proofs.LineLimit
import ExecutionNode.Proofs.Meaning

/-!
# Numbers as operands

On a line of up to 23 characters there is no room for a number beyond 64 bits and for something
behind it. So there the operands that are taken are just the integers, and their words hold their
true values, brought into the node's range.
-/

namespace ExecutionNode

namespace Immediate

theorem clamp_of_readInteger? {t : Text} {v : Int} (h : Numeral.readInteger? t = some v) :
    clamp v = clamp (Numeral.runValue t) := by
  rw [Numeral.readInteger?_eq] at h
  unfold clamp limit
  split at h
  · cases h
    omega
  · split at h
    · cases h
      omega
    · split at h
      · cases h
        rfl
      · cases h

end Immediate

namespace Instruction

/-- The number that an instruction moves or adds. To subtract a number is to add its opposite, and
to do nothing is to add 0. -/
def number? (i : Instruction) : Option Int :=
  match i.opcode, i.source with
  | .mov, some (.immediate v) | .add, some (.immediate v) => some v
  | .sub, some (.immediate v) => some (-v)
  | .nop, none => some 0
  | _, _ => none

/-- The instruction does with the number what the opcode says. -/
structure Carries (i : Instruction) (op : Opcode) (v : Int) : Prop where
  moves : i.opcode = .mov ↔ op = .mov
  number : i.number? = some (if op = .sub then -v else v)

end Instruction

namespace Assembly

/-- The tokens of an instruction that takes its value from `token`, which names no register. -/
structure TakesNumber (op : Opcode) (token : Text) (body : List Text) : Prop where
  op_mem : op ∈ [Opcode.mov, .add, .sub]
  body_eq : ∃ rest, body = op.mnemonic :: token :: rest
  no_register : ∀ r : Register, token ≠ r.name

theorem TakesNumber.length_le {op : Opcode} {token raw : Text}
    (h : TakesNumber op token (Statement.ofSourceLine raw).body)
    (hshort : (Text.dropReturn raw).length ≤ 23) : token.length ≤ 19 := by
  obtain ⟨rest, hbody⟩ := h.body_eq
  have hspaced : Text.Spaced (lineTokens raw) (Text.code (Text.dropReturn raw)) :=
    Text.tokens_eq_iff.mp rfl
  have hspell := hspaced.length_spell_le
  have hcode : (Text.code (Text.dropReturn raw)).length ≤ (Text.dropReturn raw).length :=
    (List.takeWhile_sublist _).length_le
  have hwritten := ofSourceLine_eq_iff.mp (rfl : Statement.ofSourceLine raw = _)
  generalize Statement.ofSourceLine raw = s at hbody hwritten
  generalize lineTokens raw = ts at hspell hwritten
  -- The label, if there is one, takes some more characters.
  cases hwritten with
  | blank => cases hbody
  | labelled name body =>
    obtain rfl : body = op.mnemonic :: token :: rest := hbody
    simp [Text.spell, Opcode.length_mnemonic] at hspell
    omega
  | unlabelled _ _ =>
    obtain ⟨rfl, rfl⟩ := List.cons.inj hbody
    simp [Text.spell, Opcode.length_mnemonic] at hspell
    omega

/-! ## The command of such an instruction -/

theorem exists_literal_of_writtenAs {op : Opcode} {token : Text} {body : List Text} {c : Command}
    (h : TakesNumber op token body) (hc : c.WrittenAs body) :
    ∃ v, Numeral.readInteger? token = some v ∧
      ((op = .mov ∧ ∃ dst, c = .move (.literal v) dst) ∨
        ∃ subtract, op = Command.arithmeticOpcode subtract ∧
          c = .arithmetic subtract (.literal v)) := by
  obtain ⟨hop, ⟨rest, rfl⟩, hname⟩ := h
  have hkinds : ∀ op ∈ [Opcode.mov, .add, .sub],
      op.arity ≠ 0 ∧ op ∉ Opcode.labelJumps ∧ op ≠ .jro := by decide
  obtain ⟨hoperands, hnojump, hnojro⟩ := hkinds op hop
  have hliteral : ∀ src : Source, src.WrittenAs token →
      ∃ v, Numeral.readInteger? token = some v ∧ src = .literal v := by
    rintro src (r | hv)
    · exact absurd rfl (hname r)
    · exact ⟨_, hv, rfl⟩
  generalize hbody : op.mnemonic :: token :: rest = body at hc
  cases hc with
  | plain harity _ =>
    obtain rfl := Opcode.mnemonic_injective (List.cons.inj hbody).1
    exact absurd harity hoperands
  | arithmetic subtract hsrc _ =>
    obtain ⟨hmnemonic, hrest⟩ := List.cons.inj hbody
    obtain ⟨rfl, -⟩ := List.cons.inj hrest
    obtain ⟨v, hv, rfl⟩ := hliteral _ hsrc
    exact ⟨v, hv, .inr ⟨subtract, Opcode.mnemonic_injective hmnemonic, rfl⟩⟩
  | move hsrc dst _ =>
    obtain ⟨hmnemonic, hrest⟩ := List.cons.inj hbody
    obtain ⟨rfl, -⟩ := List.cons.inj hrest
    obtain ⟨v, hv, rfl⟩ := hliteral _ hsrc
    exact ⟨v, hv, .inl ⟨Opcode.mnemonic_injective hmnemonic, dst, rfl⟩⟩
  | jump hjump _ _ =>
    obtain rfl := Opcode.mnemonic_injective (List.cons.inj hbody).1
    exact absurd hjump hnojump
  | jumpBy _ _ => exact absurd (Opcode.mnemonic_injective (List.cons.inj hbody).1) hnojro

theorem opcode_sum_ne (subtract : Bool) (v : Int) : (sum subtract v).opcode ≠ .mov := by
  unfold sum
  (repeat' split) <;> simp [Instruction.unary]

theorem carries_sum (subtract : Bool) (v : Int) :
    (sum subtract v).Carries (Command.arithmeticOpcode subtract) v := by
  have hop : Command.arithmeticOpcode subtract ≠ .mov := by cases subtract <;> decide
  refine ⟨iff_of_false (opcode_sum_ne subtract v) hop, ?_⟩
  cases subtract with
  | true =>
    rw [sum, if_pos rfl]
    split <;> rfl
  | false =>
    rw [sum, if_neg Bool.false_ne_true]
    split
    · next hzero =>
      rw [hzero]
      rfl
    · split
      · rfl
      · exact congrArg some (Int.neg_neg v)

theorem carries_instruction {op : Opcode} {token : Text} {body : List Text} {c : Command}
    (h : TakesNumber op token body) (hc : c.WrittenAs body) (labels : LabelTable) :
    (c.instruction labels).Carries op (Immediate.clamp (Numeral.runValue token)) := by
  obtain ⟨v, hv, ⟨rfl, dst, rfl⟩ | ⟨subtract, rfl, rfl⟩⟩ := exists_literal_of_writtenAs h hc
  · rw [← Immediate.clamp_of_readInteger? hv]
    exact ⟨iff_of_true rfl rfl, rfl⟩
  · rw [← Immediate.clamp_of_readInteger? hv]
    exact carries_sum subtract (Immediate.clamp v)

/-! ## Integers and nothing else -/

section Line

variable {op : Opcode} {token raw : Text}

theorem exists_read_iff (h : TakesNumber op token (Statement.ofSourceLine raw).body)
    (hshort : (Text.dropReturn raw).length ≤ 23) :
    (∃ src, Source.read token = .ok src) ↔ Numeral.IsInteger token := by
  rw [← Numeral.exists_readInteger?_iff (h.length_le hshort)]
  constructor
  · rintro ⟨src, hsrc⟩
    cases source_read_eq_ok_iff.mp hsrc with
    | register r => exact absurd rfl (h.no_register r)
    | literal hv => exact ⟨_, hv⟩
  · rintro ⟨v, hv⟩
    exact ⟨.literal v, source_read_eq_ok_iff.mpr (.literal hv)⟩

theorem isInteger_of_writtenAs (h : TakesNumber op token (Statement.ofSourceLine raw).body)
    (hshort : (Text.dropReturn raw).length ≤ 23) {c : Command}
    (hc : c.WrittenAs (Statement.ofSourceLine raw).body) : Numeral.IsInteger token := by
  obtain ⟨v, hv, -⟩ := exists_literal_of_writtenAs h hc
  exact (Numeral.exists_readInteger?_iff (h.length_le hshort)).mp ⟨v, hv⟩

end Line

theorem mem_instructions_of_mem_lines {source raw : Text} (hraw : raw ∈ Text.lines source)
    (hbody : (Statement.ofSourceLine raw).body ≠ []) :
    (Statement.ofSourceLine raw).body ∈ instructions (statements source) := by
  rw [instructions, List.mem_filter, statements, List.map_map]
  exact ⟨List.mem_map.mpr ⟨raw, hraw, rfl⟩, by simpa using hbody⟩

/-- What becomes of the operands of a source that are no registers. -/
structure IntegerOperands (config : Config) (source : Text) : Prop where
  read : ∀ raw ∈ Text.lines source, (Text.dropReturn raw).length ≤ config.maxLineLength →
    ∀ op token, TakesNumber op token (Statement.ofSourceLine raw).body →
      ((∃ src, Source.read token = .ok src) ↔ Numeral.IsInteger token)
  taken : LinesTaken config source → ∀ raw ∈ Text.lines source,
    ∀ op token, TakesNumber op token (Statement.ofSourceLine raw).body → Numeral.IsInteger token
  /-- Where an integer is not the operand that cannot be read, it is the destination of a move. -/
  refused : ∀ line t, assemble config source = .error ⟨line, .unparsableOperand t⟩ →
    ∀ raw, (Text.lines source)[line - 1]? = some raw →
      ∀ op token, TakesNumber op token (Statement.ofSourceLine raw).body →
        t = token ∧ ¬ Numeral.IsInteger token ∨
        Numeral.IsInteger token ∧ (∀ r : Register, t ≠ r.name) ∧
          ∃ rest, (Statement.ofSourceLine raw).body = Opcode.mov.mnemonic :: token :: t :: rest
  word : ∀ p, assemble config source = .ok p → ∀ (k : Nat) (body : List Text),
    (instructions (statements source))[k]? = some body →
      ∀ op token, TakesNumber op token body →
        ∃ (w : Word) (i : Instruction), p.words[k]? = some w ∧ w.decode = .ok i ∧
          i.Carries op (Immediate.clamp (Numeral.runValue token))

theorem isInteger_of_linesTaken {config : Config} {source : Text}
    (hlimit : config.maxLineLength ≤ 23) (htaken : LinesTaken config source) {raw : Text}
    (hraw : raw ∈ Text.lines source) {op : Opcode} {token : Text}
    (h : TakesNumber op token (Statement.ofSourceLine raw).body) : Numeral.IsInteger token := by
  have haccepted := accepted_iff_firstFault?.mpr (linesTaken_iff.mp htaken)
  have hbody : (Statement.ofSourceLine raw).body ≠ [] := by
    obtain ⟨rest, hbody⟩ := h.body_eq
    simp [hbody]
  obtain ⟨c, hc⟩ := haccepted.encodable.written _ (mem_instructions_of_mem_lines hraw hbody)
  exact isInteger_of_writtenAs h (Nat.le_trans (haccepted.short raw hraw) hlimit) hc

theorem operand_of_unparsable {config : Config} {source : Text}
    (hlimit : config.maxLineLength ≤ 23) {line : Nat} {t : Text}
    (hfault : assemble config source = .error ⟨line, .unparsableOperand t⟩) {raw : Text}
    (hraw : (Text.lines source)[line - 1]? = some raw) {op : Opcode} {token : Text}
    (h : TakesNumber op token (Statement.ofSourceLine raw).body) :
    t = token ∧ ¬ Numeral.IsInteger token ∨
      Numeral.IsInteger token ∧ (∀ r : Register, t ≠ r.name) ∧
        ∃ rest, (Statement.ofSourceLine raw).body = Opcode.mov.mnemonic :: token :: t :: rest := by
  obtain ⟨earlier, bad, later, hlines, hnone, hcause, rfl⟩ :=
    firstFault?_eq_some_iff.mp (firstFault?_of_assemble hfault rfl)
  rw [hlines, Nat.add_sub_cancel, List.getElem?_append_right (Nat.le_refl _), Nat.sub_self,
    List.getElem?_cons_zero, Option.some_inj] at hraw
  obtain rfl := hraw
  have hshort : (Text.dropReturn bad).length ≤ config.maxLineLength := by
    by_contra hlong
    rw [lineFault?_of_long (Nat.lt_of_not_le hlong)] at hcause
    cases hcause
  have hshort := Nat.le_trans hshort hlimit
  have hfits := (accepted_iff_firstFault?.mpr hnone).encodable.fits
  obtain ⟨rest, hbody⟩ := h.body_eq
  have htrue : (Cause.unparsableOperand t).TrueOf config.maxLineLength (statements source)
      (earlier.map .ofSourceLine) bad (.ofSourceLine bad) := trueOf_of_lineFault? hfits hcause
  rcases htrue with
    ⟨other, -, rest', hbody', hunreadable⟩ | ⟨first, rest', hbody', ⟨src, hsrc⟩, hname⟩
  · obtain ⟨-, htoken⟩ := List.cons.inj (hbody'.symm.trans hbody)
    obtain ⟨rfl, -⟩ := List.cons.inj htoken
    refine .inl ⟨rfl, ?_⟩
    rw [← Numeral.exists_readInteger?_iff (h.length_le hshort),
      hunreadable.no_integer]
    simp
  · obtain ⟨-, htoken⟩ := List.cons.inj (hbody'.symm.trans hbody)
    obtain ⟨rfl, -⟩ := List.cons.inj htoken
    have hread := (exists_read_iff h hshort).mp ⟨src, source_read_eq_ok_iff.mpr hsrc⟩
    exact .inr ⟨hread, hname, rest', hbody'⟩

theorem carries_of_assemble {config : Config} {source : Text} {p : Program}
    (hp : assemble config source = .ok p) {k : Nat} {body : List Text}
    (hbody : (instructions (statements source))[k]? = some body) {op : Opcode} {token : Text}
    (h : TakesNumber op token body) :
    ∃ (w : Word) (i : Instruction), p.words[k]? = some w ∧ w.decode = .ok i ∧
      i.Carries op (Immediate.clamp (Numeral.runValue token)) := by
  obtain ⟨c, hc, hword, hslots, -⟩ := word_of_instruction hp hbody
  exact ⟨_, _, hword, Command.decode_linked hslots hc, carries_instruction h hc p.labels⟩

/-- **Integer operands.** An integer is its run of digits, held within 64 bits, and what follows a
run beyond them is not looked at. Nineteen characters have no room for that, and neither has the
operand of a line of 23. -/
theorem integerOperands_of_limit (config : Config) :
    (∀ t, Numeral.readInteger? t =
      if 2 ^ 63 - 1 < Numeral.runValue t then some (2 ^ 63 - 1)
      else if Numeral.runValue t < -2 ^ 63 then some (-2 ^ 63)
      else if Numeral.digitRun t ≠ [] ∧ Numeral.remainder t = [] then some (Numeral.runValue t)
      else none) ∧
    (∀ t : Text, t.length ≤ 19 →
      ((∃ v, Numeral.readInteger? t = some v) ↔ Numeral.IsInteger t)) ∧
    (config.maxLineLength ≤ 23 → ∀ source, IntegerOperands config source) := by
  refine ⟨Numeral.readInteger?_eq, fun t ht => Numeral.exists_readInteger?_iff ht, ?_⟩
  intro hlimit source
  refine ⟨?_, ?_, ?_, ?_⟩
  · intro raw _ hshort op token h
    exact exists_read_iff h (Nat.le_trans hshort hlimit)
  · intro htaken raw hraw op token h
    exact isInteger_of_linesTaken hlimit htaken hraw h
  · intro line t hfault raw hraw op token h
    exact operand_of_unparsable hlimit hfault hraw h
  · intro p hp k body hbody op token h
    exact carries_of_assemble hp hbody h

theorem integerOperands_of_limit_full :
    let longest := "9999999999999999999".toList
    let source := "MOV -5000, ACC\nSUB ".toList ++ longest
    let p : Program := ⟨[0x8FE7#16, 0x07E7#16], []⟩
    (longest.length = 19 ∧ ((∃ v, Numeral.readInteger? longest = some v) ↔
      Numeral.IsInteger longest)) ∧
    assemble ⟨23⟩ source = .ok p ∧
    TakesNumber .sub longest ["SUB".toList, longest] ∧
    ∃ (w : Word) (i : Instruction), p.words[1]? = some w ∧ w.decode = .ok i ∧
      i.Carries .sub 999 := by
  intro longest source p
  have hp : assemble ⟨23⟩ source = .ok p := by rfl
  have hall := integerOperands_of_limit ⟨23⟩
  have htakes : TakesNumber .sub longest ["SUB".toList, longest] :=
    ⟨by decide, ⟨[], rfl⟩, fun r => by cases r <;> decide⟩
  exact ⟨⟨rfl, hall.2.1 longest (by decide)⟩, hp, htakes,
    (hall.2.2 (by decide) source).word p hp 1 _ (by rfl) .sub longest htakes⟩

/-- One character more, and what follows the digits is not looked at. -/
example : assemble ⟨24⟩ "ADD 9999999999999999999x".toList = .ok ⟨[0x03E7#16], []⟩ := by rfl

end Assembly

end ExecutionNode
