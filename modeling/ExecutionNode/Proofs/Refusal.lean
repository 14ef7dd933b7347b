import ExecutionNode.Proofs.Walk

/-!
# Why a line is refused

The other side of the grammar: which tokens are refused, and for which cause. The reader of
commands refuses exactly these, and the pass adds what it knows of labels and slots.
-/

namespace ExecutionNode.Assembly

theorem ofName?_eq_none_iff {t : Text} :
    Register.ofName? t = none ↔ ∀ r : Register, t ≠ r.name := by
  constructor
  · rintro h r rfl
    rw [Register.ofName?_name] at h
    cases h
  · intro h
    rw [Option.eq_none_iff_forall_ne_some]
    intro r hr
    exact h r (Register.name_of_ofName? hr).symm

theorem ofMnemonic?_eq_none_iff {t : Text} :
    Opcode.ofMnemonic? t = none ↔ ∀ op : Opcode, t ≠ op.mnemonic := by
  constructor
  · rintro h op rfl
    rw [Opcode.ofMnemonic?_mnemonic] at h
    cases h
  · intro h
    rw [Option.eq_none_iff_forall_ne_some]
    intro op hop
    exact h op (Opcode.mnemonic_of_ofMnemonic? hop).symm

/-- A token that gives no value: neither a register nor an integer. -/
structure Unreadable (t : Text) : Prop where
  no_register : ∀ r : Register, t ≠ r.name
  no_integer : Numeral.readInteger? t = none

/-- The operands that an opcode is refused with, and the cause. A move is refused for its source
before its destination is looked at. -/
inductive Command.Refused : Opcode → List Text → Cause → Prop
  | missing {op : Opcode} {operands : List Text} (h : operands.length < op.arity) :
    Refused op operands (.missingOperand op op.arity)
  | distance {t : Text} {v : Int} (h : ∀ r : Register, t ≠ r.name)
    (hv : Numeral.readInteger? t = some v) (rest : List Text) :
    Refused .jro (t :: rest) (.unknownRegister t)
  | operand {op : Opcode} (hop : op ∈ [Opcode.add, .sub, .jro]) {t : Text} (h : Unreadable t)
    (rest : List Text) : Refused op (t :: rest) (.unparsableOperand t)
  | source {t : Text} (h : Unreadable t) (second : Text) (rest : List Text) :
    Refused .mov (t :: second :: rest) (.unparsableOperand t)
  | destination {src : Source} {first t : Text} (hsrc : src.WrittenAs first)
    (h : ∀ r : Register, t ≠ r.name) (rest : List Text) :
    Refused .mov (first :: t :: rest) (.unparsableOperand t)

/-! ## Operands -/

theorem source_read_eq_error_iff {t : Text} {cause : Cause} :
    Source.read t = .error cause ↔ Unreadable t ∧ cause = .unparsableOperand t := by
  unfold Source.read
  cases hname : Register.ofName? t with
  | some r =>
    have hno : ¬ Unreadable t := fun h =>
      h.no_register r (Register.name_of_ofName? hname).symm
    simp [hno]
  | none =>
    have hregister := ofName?_eq_none_iff.mp hname
    cases hv : Numeral.readInteger? t with
    | some v =>
      have hno : ¬ Unreadable t := fun h => by simpa [hv] using h.no_integer
      simp [hno]
    | none =>
      have hyes : Unreadable t := ⟨hregister, hv⟩
      simp [hyes, eq_comm]

theorem readDistance_eq_error_iff {t : Text} {cause : Cause} :
    Command.readDistance t = .error cause ↔ (∀ r : Register, t ≠ r.name) ∧
      ((∃ v, Numeral.readInteger? t = some v) ∧ cause = .unknownRegister t ∨
        Numeral.readInteger? t = none ∧ cause = .unparsableOperand t) := by
  unfold Command.readDistance
  rw [← ofName?_eq_none_iff]
  cases Register.ofName? t with
  | some r => simp
  | none => cases Numeral.readInteger? t <;> simp [eq_comm]

theorem readDestination_eq_error_iff {t : Text} {cause : Cause} :
    Command.readDestination t = .error cause ↔
      (∀ r : Register, t ≠ r.name) ∧ cause = .unparsableOperand t := by
  unfold Command.readDestination
  rw [← ofName?_eq_none_iff]
  cases Register.ofName? t <;> simp [eq_comm]

theorem map_eq_error_iff {ε α β : Type} {x : Except ε α} {f : α → β} {e : ε} :
    x.map f = .error e ↔ x = .error e := by
  cases x <;> simp [Except.map]

theorem read_move_eq_error_iff {first second : Text} {rest : List Text} {cause : Cause} :
    Command.read .mov (first :: second :: rest) = .error cause ↔
      Source.read first = .error cause ∨
        ∃ src, Source.read first = .ok src ∧ Command.readDestination second = .error cause := by
  simp only [Command.read, bind, Except.bind]
  cases Source.read first with
  | error e => simp
  | ok src => cases Command.readDestination second <;> simp [pure, Except.pure]

/-! ## Instructions -/

theorem refused_of_read {op : Opcode} {operands : List Text} {cause : Cause}
    (h : Command.read op operands = .error cause) : Command.Refused op operands cause := by
  cases op
  case nop | swp | sav | neg => cases h
  case jmp | jez | jnz | jgz | jlz =>
    match operands, h with
    | [], rfl => exact .missing (by decide)
  case add | sub =>
    match operands, h with
    | [], rfl => exact .missing (by decide)
    | t :: rest, h =>
      obtain ⟨ht, rfl⟩ := source_read_eq_error_iff.mp (map_eq_error_iff.mp h)
      exact .operand (by decide) ht rest
  case jro =>
    match operands, h with
    | [], rfl => exact .missing (by decide)
    | t :: rest, h =>
      obtain ⟨hname, ⟨⟨v, hv⟩, rfl⟩ | ⟨hv, rfl⟩⟩ :=
        readDistance_eq_error_iff.mp (map_eq_error_iff.mp h)
      · exact .distance hname hv rest
      · exact .operand (by decide) ⟨hname, hv⟩ rest
  case mov =>
    match operands, h with
    | [], rfl => exact .missing (by decide)
    | [_], rfl => exact .missing (Nat.lt_succ_self 1)
    | first :: second :: rest, h =>
      rcases read_move_eq_error_iff.mp h with h | ⟨src, hsrc, h⟩
      · obtain ⟨ht, rfl⟩ := source_read_eq_error_iff.mp h
        exact .source ht second rest
      · obtain ⟨hname, rfl⟩ := readDestination_eq_error_iff.mp h
        exact .destination (source_read_eq_ok_iff.mp hsrc) hname rest

theorem read_of_refused {op : Opcode} {operands : List Text} {cause : Cause}
    (h : Command.Refused op operands cause) : Command.read op operands = .error cause := by
  cases h with
  | missing h =>
    cases op
    case nop | swp | sav | neg => simp [Opcode.arity] at h
    case mov =>
      match operands, h with
      | [], _ | [_], _ => rfl
    case add | sub | jmp | jez | jnz | jgz | jlz | jro =>
      match operands, h with
      | [], _ => rfl
  | distance hname hv rest =>
    exact map_eq_error_iff.mpr (readDistance_eq_error_iff.mpr ⟨hname, .inl ⟨⟨_, hv⟩, rfl⟩⟩)
  | operand hop ht rest =>
    simp only [List.mem_cons, List.not_mem_nil, or_false] at hop
    rcases hop with rfl | rfl | rfl
    · exact map_eq_error_iff.mpr (source_read_eq_error_iff.mpr ⟨ht, rfl⟩)
    · exact map_eq_error_iff.mpr (source_read_eq_error_iff.mpr ⟨ht, rfl⟩)
    · exact map_eq_error_iff.mpr
        (readDistance_eq_error_iff.mpr ⟨ht.no_register, .inr ⟨ht.no_integer, rfl⟩⟩)
  | source ht second rest =>
    exact read_move_eq_error_iff.mpr (.inl (source_read_eq_error_iff.mpr ⟨ht, rfl⟩))
  | destination hsrc hname rest =>
    exact read_move_eq_error_iff.mpr
      (.inr ⟨_, source_read_eq_ok_iff.mpr hsrc, readDestination_eq_error_iff.mpr ⟨hname, rfl⟩⟩)

/-- **The reader refuses exactly what is to be refused, and says why.** -/
theorem read_eq_error_iff {op : Opcode} {operands : List Text} {cause : Cause} :
    Command.read op operands = .error cause ↔ Command.Refused op operands cause :=
  ⟨refused_of_read, read_of_refused⟩

/-! ## Lines -/

/-- The labels that are refused, the next slot being known. Room is looked at first. -/
inductive LabelRefused (labels : LabelTable) (next : Nat) : Option Text → Cause → Prop
  | full (h : slotCount ≤ next) (name : Text) :
    LabelRefused labels next (some name) (.tooManyInstructions slotCount)
  | duplicate (hroom : next < slotCount) {name : Text}
    (h : name ∈ labels.names ∨ next ∈ labels.slots) :
    LabelRefused labels next (some name) (.duplicateLabel name)

/-- The instructions that are refused, the next slot being known. The opcode is looked up first,
then there has to be room, and only then the operands are read. -/
inductive BodyRefused (next : Nat) : List Text → Cause → Prop
  | unknown {token : Text} (h : ∀ op : Opcode, token ≠ op.mnemonic) (operands : List Text) :
    BodyRefused next (token :: operands) (.unknownOpcode token)
  | full (h : slotCount ≤ next) (op : Opcode) (operands : List Text) :
    BodyRefused next (op.mnemonic :: operands) (.tooManyInstructions slotCount)
  | operands (hroom : next < slotCount) {op : Opcode} {operands : List Text} {cause : Cause}
    (h : Command.Refused op operands cause) : BodyRefused next (op.mnemonic :: operands) cause

theorem labelFault?_eq_some_iff {labels : LabelTable} {next : Nat} {label : Option Text}
    {cause : Cause} :
    labelFault? labels next label = some cause ↔ LabelRefused labels next label cause := by
  constructor
  · intro h
    unfold labelFault? at h
    split at h
    · cases h
    · next name =>
      split at h
      · next hfull =>
        cases h
        exact .full hfull name
      · next hroom =>
        split at h
        · next hdup =>
          cases h
          exact .duplicate (Nat.lt_of_not_le hroom) hdup
        · cases h
  · rintro (⟨hfull, name⟩ | ⟨hroom, hdup⟩)
    · exact if_pos hfull
    · exact (if_neg (Nat.not_le_of_lt hroom)).trans (if_pos hdup)

theorem bodyFault?_eq_some_iff {next : Nat} {body : List Text} {cause : Cause} :
    bodyFault? next body = some cause ↔ BodyRefused next body cause := by
  constructor
  · intro h
    unfold bodyFault? at h
    split at h
    · cases h
    · next mnemonic operands =>
      split at h
      · next hop =>
        cases h
        exact .unknown (ofMnemonic?_eq_none_iff.mp hop) operands
      · next op hop =>
        obtain rfl := Opcode.mnemonic_of_ofMnemonic? hop
        split at h
        · next hfull =>
          cases h
          exact .full hfull op operands
        · next hroom =>
          split at h
          · next hread =>
            cases h
            exact .operands (Nat.lt_of_not_le hroom) (read_eq_error_iff.mp hread)
          · cases h
  · rintro (⟨hop, operands⟩ | ⟨hfull, op, operands⟩ | ⟨hroom, hrefused⟩)
    · simp [bodyFault?, ofMnemonic?_eq_none_iff.mpr hop]
    · simp [bodyFault?, hfull]
    · simp [bodyFault?, Nat.not_le_of_lt hroom, read_eq_error_iff.mpr hrefused]

end ExecutionNode.Assembly
