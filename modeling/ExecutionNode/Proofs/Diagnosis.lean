import ExecutionNode.Proofs.FirstFault
import ExecutionNode.Proofs.Invariant
import ExecutionNode.Proofs.Lines

/-!
# What a fault says about its line

A fault names a line of the source, and what its cause says can be seen there: in the tokens of
the line, in the statements above it, and for a jump in all statements.
-/

namespace ExecutionNode.Assembly

/-- What a cause says about a line `raw` that reads as `s`. The statements above the line are
`earlier`, and `ss` are those of the whole source. -/
def Cause.TrueOf (limit : Nat) (ss earlier : List Statement) (raw : Text) (s : Statement) :
    Cause → Prop
  | .lineTooLong length max =>
    length = (Text.dropReturn raw).length ∧ max = limit ∧ max < length
  | .unknownOpcode token =>
    (∃ operands, s.body = token :: operands) ∧ ∀ op : Opcode, token ≠ op.mnemonic
  | .missingOperand op expected =>
    expected = op.arity ∧
      ∃ operands, s.body = op.mnemonic :: operands ∧ operands.length < expected
  | .unknownRegister token =>
    (∃ rest, s.body = Opcode.jro.mnemonic :: token :: rest) ∧
      (∀ r : Register, token ≠ r.name) ∧ ∃ v, Numeral.readInteger? token = some v
  | .unparsableOperand token =>
    (∃ op ∈ [Opcode.mov, .add, .sub, .jro], ∃ rest, s.body = op.mnemonic :: token :: rest ∧
      Unreadable token) ∨
    ∃ first rest, s.body = Opcode.mov.mnemonic :: first :: token :: rest ∧
      (∃ src : Source, src.WrittenAs first) ∧ ∀ r : Register, token ≠ r.name
  | .duplicateLabel label =>
    s.label = some label ∧ (instructions earlier).length < slotCount ∧
      ((∃ t ∈ earlier, t.label = some label) ∨ ∃ other, DefinedAtEnd earlier other)
  | .tooManyInstructions max =>
    max = slotCount ∧ (instructions earlier).length = max ∧
      (s.label.isSome ∨ ∃ (op : Opcode) (operands : List Text), s.body = op.mnemonic :: operands)
  | .undefinedLabel label => s.JumpsTo label ∧ ∀ t ∈ ss, t.label ≠ some label

/-! ## Faults of the lines -/

section Line

variable {limit : Nat} {ss earlier : List Statement} {raw : Text} {s : Statement} {cause : Cause}

theorem trueOf_of_labelRefused (hfits : (instructions earlier).length ≤ slotCount)
    (h : LabelRefused (definitions earlier) (instructions earlier).length s.label cause) :
    cause.TrueOf limit ss earlier raw s := by
  generalize hlabel : s.label = label at h
  cases h with
  | full hfull name => exact ⟨rfl, Nat.le_antisymm hfits hfull, .inl (by rw [hlabel]; rfl)⟩
  | duplicate hroom hdup =>
    refine ⟨hlabel, hroom, ?_⟩
    rcases hdup with hname | hslot
    · exact .inl (mem_names_definitions_iff.mp hname)
    · obtain ⟨⟨other, _⟩, hmem, rfl⟩ := List.mem_map.mp hslot
      exact .inr ⟨other, definedAtEnd_iff.mpr hmem⟩

theorem trueOf_of_refused {op : Opcode} {operands : List Text}
    (hbody : s.body = op.mnemonic :: operands) (h : Command.Refused op operands cause) :
    cause.TrueOf limit ss earlier raw s := by
  cases h with
  | missing harity => exact ⟨rfl, operands, hbody, harity⟩
  | distance hname hv rest => exact ⟨⟨rest, hbody⟩, hname, _, hv⟩
  | operand hop ht rest => exact .inl ⟨op, List.mem_cons_of_mem _ hop, rest, hbody, ht⟩
  | source ht second rest => exact .inl ⟨.mov, List.mem_cons_self, _, hbody, ht⟩
  | destination hsrc hname rest => exact .inr ⟨_, rest, hbody, ⟨_, hsrc⟩, hname⟩

theorem trueOf_of_bodyRefused (hfits : (instructions earlier).length ≤ slotCount)
    (h : BodyRefused (instructions earlier).length s.body cause) :
    cause.TrueOf limit ss earlier raw s := by
  generalize hbody : s.body = body at h
  cases h with
  | unknown hop operands => exact ⟨⟨operands, hbody⟩, hop⟩
  | full hfull op operands =>
    exact ⟨rfl, Nat.le_antisymm hfits hfull, .inr ⟨op, operands, hbody⟩⟩
  | operands hroom hrefused => exact trueOf_of_refused hbody hrefused

theorem trueOf_of_lineFault? (hfits : (instructions earlier).length ≤ slotCount)
    (h : lineFault? limit earlier raw = some cause) :
    cause.TrueOf limit ss earlier raw (.ofSourceLine raw) := by
  unfold lineFault? at h
  dsimp only at h
  split at h
  · rw [Option.or_eq_some_iff, labelFault?_eq_some_iff, bodyFault?_eq_some_iff] at h
    rcases h with h | ⟨-, h⟩
    · exact trueOf_of_labelRefused hfits h
    · exact trueOf_of_bodyRefused hfits h
  · next hlong =>
    cases h
    exact ⟨rfl, rfl, Nat.lt_of_not_le hlong⟩

end Line

/-! ## Where the fault lies -/

/-- The fault is on a line of the source, and its cause is true of that line. -/
def Fault.TrueOf (limit : Nat) (source : Text) (f : Fault) : Prop :=
  1 ≤ f.line ∧ f.line ≤ (Text.lines source).length ∧
    ∃ raw s, (Text.lines source)[f.line - 1]? = some raw ∧ s.WrittenAs (lineTokens raw) ∧
      f.cause.TrueOf limit (statements source) ((statements source).take (f.line - 1)) raw s

theorem trueOf_of_firstFault? {limit : Nat} {source : Text} {f : Fault}
    (h : firstFault? limit (Text.lines source) = some f) : f.TrueOf limit source := by
  obtain ⟨earlier, raw, later, hlines, hnone, hcause, hline⟩ := firstFault?_eq_some_iff.mp h
  have htake : (statements source).take (f.line - 1) = earlier.map .ofSourceLine := by
    rw [statements, hlines, hline, Nat.add_sub_cancel, ← List.map_take, List.take_left]
  have hfits := (accepted_iff_firstFault?.mpr hnone).encodable.fits
  refine ⟨by omega, ?_, raw, .ofSourceLine raw, ?_, ofSourceLine_eq_iff.mp rfl, ?_⟩
  · rw [hlines, List.length_append, List.length_cons]
    omega
  · rw [hlines, hline, Nat.add_sub_cancel, List.getElem?_append_right (Nat.le_refl _),
      Nat.sub_self]
    rfl
  · rw [htake]
    exact trueOf_of_lineFault? hfits hcause

theorem trueOf_of_undefinedFault? {limit : Nat} {source : Text} {f : Fault}
    (h : undefinedFault? (definitions (statements source)) (references (statements source)) =
      some f) : f.TrueOf limit source := by
  obtain ⟨before, r, after, hrefs, -, hlabel, rfl⟩ := undefinedFault?_eq_some_iff.mp h
  have hmem : r ∈ references (statements source) := by simp [hrefs]
  obtain ⟨l, hl, hjump, -, hline⟩ := mem_references_iff.mp hmem
  obtain ⟨i, hi, hl, -⟩ := mem_located_iff.mp hl
  rw [statements, List.getElem?_map, Option.map_eq_some_iff] at hi
  obtain ⟨raw, hraw, hs⟩ := hi
  have hlt := (List.getElem?_eq_some_iff.mp hraw).1
  refine ⟨by dsimp only; omega, by dsimp only; omega, raw, l.statement, ?_, ?_, hjump, ?_⟩
  · dsimp only
    rw [hline, hl, Nat.add_sub_cancel, hraw]
  · exact ofSourceLine_eq_iff.mp hs
  · intro t ht hname
    exact hlabel (mem_names_definitions_iff.mpr ⟨t, ht, hname⟩)

/-- **A fault tells the truth about its line.** -/
theorem fault_trueOf_line {config : Config} {source : Text} {f : Fault}
    (h : assemble config source = .error f) : f.TrueOf config.maxLineLength source := by
  rcases assemble_eq_error_iff.mp h with h | ⟨-, h⟩
  · exact trueOf_of_firstFault? h
  · exact trueOf_of_undefinedFault? h

theorem fault_trueOf_line_causes :
    let twice := "A:\n\nB: NOP".toList
    let distance := "NOP\nL: JRO 5".toList
    let destination := "# out\nMOV UP, 2".toList
    let jump := "NOP\nJMP X # no X".toList
    assemble {} twice = .error ⟨3, .duplicateLabel "B".toList⟩ ∧
    Fault.TrueOf 18 twice ⟨3, .duplicateLabel "B".toList⟩ ∧
    assemble {} distance = .error ⟨2, .unknownRegister "5".toList⟩ ∧
    Fault.TrueOf 18 distance ⟨2, .unknownRegister "5".toList⟩ ∧
    assemble {} destination = .error ⟨2, .unparsableOperand "2".toList⟩ ∧
    Fault.TrueOf 18 destination ⟨2, .unparsableOperand "2".toList⟩ ∧
    assemble {} jump = .error ⟨2, .undefinedLabel "X".toList⟩ ∧
    Fault.TrueOf 18 jump ⟨2, .undefinedLabel "X".toList⟩ := by
  intro twice distance destination jump
  have htwice : assemble {} twice = .error ⟨3, .duplicateLabel "B".toList⟩ := by rfl
  have hdistance : assemble {} distance = .error ⟨2, .unknownRegister "5".toList⟩ := by rfl
  have hdestination : assemble {} destination = .error ⟨2, .unparsableOperand "2".toList⟩ := by rfl
  have hjump : assemble {} jump = .error ⟨2, .undefinedLabel "X".toList⟩ := by rfl
  exact ⟨htwice, fault_trueOf_line htwice, hdistance, fault_trueOf_line hdistance, hdestination,
    fault_trueOf_line hdestination, hjump, fault_trueOf_line hjump⟩

end ExecutionNode.Assembly
