import ExecutionNode.Proofs.Meaning
import ExecutionNode.Proofs.Printing

/-!
# Canonical text is source

The canonical text of an instruction is read as that instruction again, its number being brought
into range. Words that an assembly emits hold instructions in normal form, so for them nothing
changes on the way through the text and back.
-/

namespace ExecutionNode

theorem Word.disassemble_of_decode {w : Word} {i : Instruction} (h : w.decode = .ok i) :
    w.disassemble = .ok i.render := by
  rw [disassemble, h]
  rfl

theorem Word.disassemble_of_error {w : Word} {e : DecodeError} (h : w.decode = .error e) :
    w.disassemble = .error e := by
  rw [disassemble, h]
  rfl

theorem Register.length_name_le (r : Register) : r.name.length ≤ 5 := by cases r <;> decide

/-! ## Normal form -/

/-- The operand, a number being in the node's range. -/
def Operand.clamped : Operand → Operand
  | immediate v => immediate (Immediate.clamp v)
  | x => x

namespace Instruction

/-- The instruction with its number in range. To add 0 is to do nothing. -/
def normal (i : Instruction) : Instruction :=
  if i = .unary .add (.immediate 0) then { opcode := .nop }
  else { i with source := i.source.map Operand.clamped }

theorem normal_of_ne {i : Instruction} (h : i ≠ .unary .add (.immediate 0)) :
    i.normal = { i with source := i.source.map Operand.clamped } := if_neg h

/-- The slot that an instruction jumps to. -/
def target? (i : Instruction) : Option Nat :=
  match i.source with
  | some (.slot n) => some n
  | _ => none

theorem target?_eq_none {i : Instruction} (h : i.Holdable) (hop : i.opcode.isLabelJump = false) :
    i.target? = none := by
  cases h with
  | jump hmem hn => simp [unary, Opcode.isLabelJump, hmem] at hop
  | plain _ | arithmeticRegister _ _ | arithmeticNumber _ _ | moveRegister _ _ | moveNumber _ _
  | jumpBy _ => rfl

theorem eq_jump_of_isLabelJump {i : Instruction} (h : i.Holdable)
    (hop : i.opcode.isLabelJump = true) : ∃ n, i = .unary i.opcode (.slot n) := by
  cases h with
  | @jump op hmem n hn => exact ⟨n, rfl⟩
  | @plain op harity => cases op <;> cases harity <;> cases hop
  | arithmeticRegister h r | arithmeticNumber h hn => rcases h with rfl | rfl <;> cases hop
  | moveRegister _ _ | moveNumber _ _ | jumpBy _ => cases hop

theorem length_render_le {i : Instruction} (h : i.Holdable) : i.render.length ≤ 16 := by
  cases h with
  | plain _ => simp [render, Opcode.length_mnemonic]
  | arithmeticRegister _ r | jumpBy r =>
    have := r.length_name_le
    simp [render, unary, Operand.render, Opcode.length_mnemonic]
    omega
  | @arithmeticNumber _ _ n hn =>
    have : (Numeral.signedDecimal n).length ≤ 4 := Numeral.length_decimal_le (Nat.le_of_lt hn)
    simp [render, unary, Operand.render, Opcode.length_mnemonic]
    omega
  | moveRegister r d =>
    have := r.length_name_le
    have := d.length_name_le
    simp [render, Operand.render, Opcode.length_mnemonic]
    omega
  | @moveNumber v hv d =>
    have := d.length_name_le
    have : (Numeral.signedDecimal v).length ≤ 5 :=
      Numeral.length_signedDecimal_le (Nat.le_of_lt hv)
    simp [render, Operand.render, Opcode.length_mnemonic]
    omega
  | @jump _ _ n hn =>
    have : (Numeral.decimal n).length ≤ 2 := Numeral.length_decimal_le (Nat.le_of_lt hn)
    simp [render, unary, Operand.render, Opcode.length_mnemonic]
    omega

end Instruction

namespace Assembly

/-! ## Commands of printed instructions -/

namespace Command

/-- The command that the canonical text of an instruction writes. -/
def ofInstruction (i : Instruction) : Command :=
  match i.source, i.destination with
  | none, _ => .plain i.opcode
  | some (.slot n), _ => .jump i.opcode (Numeral.decimal n)
  | some (.register r), some d => .move (.register r) d
  | some (.immediate v), some d => .move (.literal v) d
  | some (.register r), none =>
    if i.opcode = .jro then .jumpBy r else .arithmetic (i.opcode = .sub) (.register r)
  | some (.immediate v), none => .arithmetic (i.opcode = .sub) (.literal v)

theorem literal_signedDecimal {v : Int} (h : v.natAbs < 1024) :
    (Source.literal v).WrittenAs (Numeral.signedDecimal v) := by
  apply Source.WrittenAs.literal
  apply Numeral.readInteger?_signedDecimal
  rw [Numeral.greatest]
  omega

theorem writtenAs_tokens {i : Instruction} (h : i.Holdable) :
    (ofInstruction i).WrittenAs i.tokens := by
  cases h with
  | plain harity => exact .plain harity []
  | arithmeticRegister hop r =>
    rcases hop with rfl | rfl
    · exact .arithmetic false (.register r) []
    · exact .arithmetic true (.register r) []
  | @arithmeticNumber op hop n hn =>
    have hwritten := literal_signedDecimal (v := n) (by simpa using hn)
    rcases hop with rfl | rfl
    · exact .arithmetic false hwritten []
    · exact .arithmetic true hwritten []
  | moveRegister r d => exact .move (.register r) d []
  | moveNumber hv d => exact .move (literal_signedDecimal hv) d []
  | jump hop hn => exact .jump hop _ []
  | jumpBy r => exact .jumpBy r []

theorem sum_clamp_natCast (subtract : Bool) (n : Nat) :
    sum subtract (Immediate.clamp n) =
      (Instruction.unary (arithmeticOpcode subtract) (.immediate n)).normal := by
  have hclamp : 0 ≤ Immediate.clamp n ∧ (Immediate.clamp n = 0 ↔ (n : Int) = 0) := by
    simp only [Immediate.clamp, Immediate.limit]
    omega
  obtain ⟨hnonneg, hzero⟩ := hclamp
  cases subtract with
  | true =>
    rw [sum, if_pos rfl, if_pos hnonneg]
    rfl
  | false =>
    rw [sum, if_neg (by simp)]
    by_cases hn : (n : Int) = 0
    · rw [if_pos (hzero.mpr hn), hn]
      rfl
    · have hne : Instruction.unary (arithmeticOpcode false) (.immediate n) ≠
          .unary .add (.immediate 0) := by
        simpa [Instruction.unary, arithmeticOpcode] using hn
      rw [if_neg (mt hzero.mp hn), if_pos (by omega), Instruction.normal_of_ne hne]
      rfl

theorem instruction_ofInstruction {labels : LabelTable} {i : Instruction} (h : i.Holdable)
    (htarget : ∀ n, i.target? = some n → slotOf labels (Numeral.decimal n) = n) :
    (ofInstruction i).instruction labels = i.normal := by
  cases h with
  | plain harity => exact (Instruction.normal_of_ne (by simp [Instruction.unary])).symm
  | arithmeticRegister hop r => rcases hop with rfl | rfl <;> rfl
  | @arithmeticNumber op hop n hn =>
    rcases hop with rfl | rfl
    · exact sum_clamp_natCast false n
    · exact sum_clamp_natCast true n
  | moveRegister r d => rfl
  | moveNumber hv d => rfl
  | @jump op hop n hn =>
    have hslot := htarget n rfl
    have hne : Instruction.unary op (.slot n) ≠ .unary .add (.immediate 0) := by
      simp [Instruction.unary]
    rw [Instruction.normal_of_ne hne]
    simp [ofInstruction, instruction, Instruction.unary, hslot, Operand.clamped]
  | jumpBy r => rfl

theorem label?_ofInstruction (i : Instruction) :
    (ofInstruction i).label? = i.target?.map Numeral.decimal := by
  match i with
  | ⟨op, none, _⟩ | ⟨op, some (.slot n), _⟩ => rfl
  | ⟨op, some (.register r), some d⟩ | ⟨op, some (.immediate v), some d⟩ => rfl
  | ⟨op, some (.immediate v), none⟩ => rfl
  | ⟨op, some (.register r), none⟩ => by_cases hop : op = .jro <;> simp [ofInstruction, hop] <;> rfl

theorem normal_eq_of_render_eq {i j : Instruction} (hi : i.Holdable) (hj : j.Holdable)
    (h : i.render = j.render) : i.normal = j.normal := by
  have htokens : i.tokens = j.tokens := by rw [← i.tokens_render, h, j.tokens_render]
  have hcommand : ofInstruction i = ofInstruction j := by
    have hread := ofTokens?_of_writtenAs (writtenAs_tokens hi)
    rw [htokens, ofTokens?_of_writtenAs (writtenAs_tokens hj)] at hread
    exact (Option.some.inj hread).symm
  have htarget : i.target? = j.target? := by
    have hlabel := congrArg label? hcommand
    rw [label?_ofInstruction, label?_ofInstruction] at hlabel
    exact Option.map_injective (fun _ _ => Numeral.decimal_injective) hlabel
  -- A table that gives the one label, if there is one, its own slot.
  let labels : LabelTable := (i.target?.map fun n => (Numeral.decimal n, n)).toList
  have hslot : ∀ n, i.target? = some n → slotOf labels (Numeral.decimal n) = n := by
    intro n hn
    simp [labels, hn, slotOf]
  rw [← instruction_ofInstruction hi hslot, ← instruction_ofInstruction hj (htarget ▸ hslot),
    hcommand]

theorem instruction_eq_jump {labels : LabelTable} {c : Command} {op : Opcode} {n : Nat}
    (h : c.instruction labels = .unary op (.slot n)) :
    ∃ label, c = .jump op label ∧ slotOf labels label = n := by
  cases c with
  | jump op label =>
    simp only [instruction, Instruction.unary, Instruction.mk.injEq, Option.some.injEq,
      Operand.slot.injEq] at h
    obtain ⟨rfl, hslot, -⟩ := h
    exact ⟨label, rfl, hslot⟩
  | arithmetic subtract src =>
    cases src with
    | register r => simp [instruction, Instruction.unary] at h
    | literal v =>
      simp only [instruction, sum] at h
      (repeat' split at h) <;> simp [Instruction.unary] at h
  | plain _ | move _ _ | jumpBy _ => simp [instruction, Instruction.unary] at h

theorem clamped_sum (subtract : Bool) (v : Int) :
    (sum subtract (Immediate.clamp v)).source.map Operand.clamped =
      (sum subtract (Immediate.clamp v)).source := by
  unfold sum
  (repeat' split) <;> simp [Instruction.unary, Operand.clamped]

theorem normal_instruction (labels : LabelTable) (c : Command) :
    (c.instruction labels).normal = c.instruction labels := by
  rw [Instruction.normal_of_ne (instruction_ne_add_zero labels c)]
  suffices h : (c.instruction labels).source.map Operand.clamped = (c.instruction labels).source by
    rw [h]
  cases c with
  | arithmetic subtract src =>
    cases src with
    | register r => rfl
    | literal v => exact clamped_sum subtract v
  | move src dst => cases src <;> simp [instruction, Source.operand, Operand.clamped]
  | plain _ | jump _ _ | jumpBy _ => rfl

end Command

theorem exists_command_of_word {config : Config} {source : Text} {p : Program}
    (h : assemble config source = .ok p) {k : Nat} {w : Word} (hw : p.words[k]? = some w) :
    ∃ (body : List Text) (c : Command), (instructions (statements source))[k]? = some body ∧
      c.WrittenAs body ∧ w = c.linked p.labels ∧ (∀ n ∈ p.labels.slots, n < 64) ∧
      ∀ label, c.label? = some label → label ∈ p.labels.names := by
  obtain ⟨hk, -⟩ := List.getElem?_eq_some_iff.mp hw
  rw [length_words h] at hk
  obtain ⟨c, hc, hword, hslots, hnames⟩ := word_of_instruction h (List.getElem?_eq_getElem hk)
  rw [hword] at hw
  exact ⟨_, c, List.getElem?_eq_getElem hk, hc, (Option.some.inj hw).symm, hslots, hnames⟩

/-- Every word of a program is the canonical word of an instruction in normal form. -/
theorem exists_instruction_of_mem_words {config : Config} {source : Text} {p : Program}
    (h : assemble config source = .ok p) {w : Word} (hw : w ∈ p.words) :
    ∃ i : Instruction, i.Holdable ∧ i.normal = i ∧ w = i.word ∧ w.decode = .ok i := by
  obtain ⟨k, hk⟩ := List.mem_iff_getElem?.mp hw
  obtain ⟨body, c, -, hc, rfl, hslots, -⟩ := exists_command_of_word h hk
  exact ⟨c.instruction p.labels, Command.holdable_instruction hslots hc,
    Command.normal_instruction p.labels c, Command.linked_eq_word p.labels c,
    Command.decode_linked hslots hc⟩

/-! ## A source of one printed line -/

theorem labelName?_mnemonic (op : Opcode) : labelName? op.mnemonic = none := by
  cases op <;> rfl

theorem ofSourceLine_of_printed {t : Text} (h : ∀ c ∈ t, Text.isPrinted c = true) :
    Statement.ofSourceLine t = .ofTokens (Text.tokens t) := by
  rw [Statement.ofSourceLine, Text.dropReturn_of_printed h, Statement.ofLine,
    Text.code_of_printed h]

theorem ofSourceLine_render (i : Instruction) :
    Statement.ofSourceLine i.render = ⟨none, i.tokens⟩ := by
  rw [ofSourceLine_of_printed i.printed_render, i.tokens_render]
  match i with
  | ⟨op, none, _⟩ | ⟨op, some src, none⟩ | ⟨op, some src, some dst⟩ =>
    simp [Instruction.tokens, Statement.ofTokens, labelName?_mnemonic]

theorem lines_of_printed {t : Text} (h : ∀ c ∈ t, Text.isPrinted c = true) : Text.lines t = [t] :=
  List.splitOn_eq_singleton (Text.notMem_of_printed h (by decide))

theorem instructions_tokens {i : Instruction} (h : i.Holdable) :
    instructions [⟨none, i.tokens⟩] = [i.tokens] :=
  instructions_of_ofTokens? (ofTokens?_of_writtenAs (Command.writtenAs_tokens h))

theorem accepted_render {i : Instruction} (h : i.Holdable) : Accepted 18 [i.render] := by
  have hstatements : [i.render].map Statement.ofSourceLine = [⟨none, i.tokens⟩] := by
    rw [List.map_singleton, ofSourceLine_render]
  refine ⟨?_, ?_, ?_⟩
  · have := Instruction.length_render_le h
    rw [List.forall_mem_singleton, Text.dropReturn_of_printed i.printed_render]
    omega
  · rw [hstatements, instructions_tokens h]
    exact ⟨by simpa using ⟨_, Command.writtenAs_tokens h⟩, by simp [slotCount]⟩
  · rw [hstatements]
    exact ⟨by simp [definitions, located, LabelTable.slots, Located.definition?], List.nodup_nil,
      List.nodup_nil⟩

/-- Without its source a label jump goes nowhere; all else assembles to one word. -/
theorem assemble_render {i : Instruction} (h : i.Holdable) :
    assemble {} i.render =
      okUnless ((Command.ofInstruction i).label?.map fun label => ⟨1, .undefinedLabel label⟩)
        ⟨[(Command.ofInstruction i).linked []], []⟩ := by
  have hwritten := Command.writtenAs_tokens h
  have hstatements : statements i.render = [⟨none, i.tokens⟩] := by
    rw [statements, lines_of_printed i.printed_render, List.map_singleton, ofSourceLine_render]
  have hundefined : undefinedFault? [] (references [⟨none, i.tokens⟩]) =
      (Command.ofInstruction i).label?.map fun label => ⟨1, .undefinedLabel label⟩ := by
    have hrefs := references_concat [] ⟨none, i.tokens⟩
    rw [reference?_of_writtenAs hwritten] at hrefs
    rw [← List.nil_append [_], hrefs]
    cases (Command.ofInstruction i).label? <;> rfl
  have hprogram : program [⟨none, i.tokens⟩] = ⟨[(Command.ofInstruction i).linked []], []⟩ := by
    rw [program, instructions_tokens h, List.map_singleton, wordOf, ofTokens?_of_writtenAs hwritten]
    rfl
  rw [assemble_eq_okUnless, lines_of_printed i.printed_render,
    accepted_iff_firstFault?.mp (accepted_render h), hstatements, Option.none_or, hprogram,
    ← hundefined]
  rfl

/-! ## Through the text and back -/

theorem assemble_render_of_normal {i : Instruction} (h : i.Holdable) (hnormal : i.normal = i)
    (hop : i.opcode.isLabelJump = false) : assemble {} i.render = .ok ⟨[i.word], []⟩ := by
  have htarget := Instruction.target?_eq_none h hop
  have hword : (Command.ofInstruction i).linked [] = i.word := by
    rw [Command.linked_eq_word, Command.instruction_ofInstruction h (by simp [htarget]), hnormal]
  rw [assemble_render h, Command.label?_ofInstruction, htarget, hword]
  rfl

theorem assemble_render_jump {op : Opcode} {n : Nat} (h : (Instruction.unary op (.slot n)).Holdable) :
    assemble {} (Instruction.unary op (.slot n)).render =
      .error ⟨1, .undefinedLabel (Numeral.decimal n)⟩ := by
  rw [assemble_render h, Command.label?_ofInstruction]
  rfl

theorem lookup_of_instruction_jump {labels : LabelTable} {c : Command} {body : List Text}
    (hc : c.WrittenAs body) (hnames : ∀ label, c.label? = some label → label ∈ labels.names)
    {op : Opcode} {n : Nat} (h : c.instruction labels = .unary op (.slot n)) :
    ∃ label rest, body = op.mnemonic :: label :: rest ∧ labels.lookup label = some n := by
  obtain ⟨label, rfl, hslot⟩ := Command.instruction_eq_jump h
  cases hc with
  | jump hop _ rest => exact ⟨label, rest, rfl, hslot ▸ lookup_slotOf (hnames label rfl)⟩

/-- **Disassembled words are source.** They assemble to themselves, but for the jumps to a label,
which name a slot that a source of one line does not define. No two emitted words look alike. -/
theorem assemble_disassembled {config : Config} {source : Text} {p : Program}
    (h : assemble config source = .ok p) :
    (∀ (k : Nat) (w : Word), p.words[k]? = some w →
      ∃ i : Instruction, w.decode = .ok i ∧ w.disassemble = .ok i.render ∧
        (i.opcode.isLabelJump = false → assemble {} i.render = .ok ⟨[w], []⟩) ∧
        (i.opcode.isLabelJump = true → ∃ (label : Text) (rest : List Text) (slot : Nat),
          (instructions (statements source))[k]? = some (i.opcode.mnemonic :: label :: rest) ∧
          p.labels.lookup label = some slot ∧
          i.render = i.opcode.mnemonic ++ ' ' :: Numeral.decimal slot ∧
          assemble {} i.render = .error ⟨1, .undefinedLabel (Numeral.decimal slot)⟩)) ∧
    ∀ (config' : Config) (source' : Text) (p' : Program), assemble config' source' = .ok p' →
      ∀ w ∈ p.words, ∀ w' ∈ p'.words, w.disassemble = w'.disassemble → w = w' := by
  constructor
  · intro k w hw
    obtain ⟨body, c, hbody, hc, rfl, hslots, hnames⟩ := exists_command_of_word h hw
    have hhold := Command.holdable_instruction hslots hc
    have hdecode := Command.decode_linked hslots hc
    refine ⟨c.instruction p.labels, hdecode, Word.disassemble_of_decode hdecode, ?_, ?_⟩
    · intro hop
      rw [Command.linked_eq_word]
      exact assemble_render_of_normal hhold (Command.normal_instruction p.labels c) hop
    · intro hop
      obtain ⟨n, hjump⟩ := Instruction.eq_jump_of_isLabelJump hhold hop
      obtain ⟨label, rest, rfl, hlookup⟩ := lookup_of_instruction_jump hc hnames hjump
      refine ⟨label, rest, n, hbody, hlookup, ?_, ?_⟩
      · exact congrArg Instruction.render hjump
      · rw [hjump] at hhold ⊢
        exact assemble_render_jump hhold
  · intro config' source' p' h' w hw w' hw' heq
    obtain ⟨i, hi, hinormal, rfl, hidecode⟩ := exists_instruction_of_mem_words h hw
    obtain ⟨j, hj, hjnormal, rfl, hjdecode⟩ := exists_instruction_of_mem_words h' hw'
    rw [Word.disassemble_of_decode hidecode, Word.disassemble_of_decode hjdecode] at heq
    have hnormal := Command.normal_eq_of_render_eq hi hj (Except.ok.inj heq)
    rw [← hinormal, hnormal, hjnormal]

theorem assemble_disassembled_sums :
    let source := "L: MOV -5000, ACC\nADD -0\nJMP M\nJGZ L\nM: SUB -7".toList
    let p : Program := ⟨[0x8FE7#16, 0x0000#16, 0x7004#16, 0x7100#16, 0x0007#16],
      [("L".toList, 0), ("M".toList, 4)]⟩
    assemble {} source = .ok p ∧
    (∀ (k : Nat) (w : Word), p.words[k]? = some w →
      ∃ i : Instruction, w.decode = .ok i ∧ w.disassemble = .ok i.render ∧
        (i.opcode.isLabelJump = false → assemble {} i.render = .ok ⟨[w], []⟩) ∧
        (i.opcode.isLabelJump = true → ∃ (label : Text) (rest : List Text) (slot : Nat),
          (instructions (statements source))[k]? = some (i.opcode.mnemonic :: label :: rest) ∧
          p.labels.lookup label = some slot ∧
          i.render = i.opcode.mnemonic ++ ' ' :: Numeral.decimal slot ∧
          assemble {} i.render = .error ⟨1, .undefinedLabel (Numeral.decimal slot)⟩)) ∧
    ∀ (config' : Config) (source' : Text) (p' : Program), assemble config' source' = .ok p' →
      ∀ w ∈ p.words, ∀ w' ∈ p'.words, w.disassemble = w'.disassemble → w = w' :=
  ⟨by rfl, @assemble_disassembled {} _ _ (by rfl)⟩

end Assembly

end ExecutionNode
