import ExecutionNode.Assembly.Command

/-!
# How an instruction is written

The grammar says which tokens make which command. The reader of commands follows it exactly:
what it reads is written so, and everything that is written so is read.
-/

namespace ExecutionNode.Assembly

/-- A token that gives a value: the name of a register or a readable integer. -/
inductive Source.WrittenAs : Source → Text → Prop
  | register (r : Register) : WrittenAs (.register r) r.name
  | literal {t : Text} {v : Int} (h : Numeral.readInteger? t = some v) : WrittenAs (.literal v) t

/-- The tokens of an instruction. After the operands any tokens may follow. -/
inductive Command.WrittenAs : Command → List Text → Prop
  | plain {op : Opcode} (h : op.arity = 0) (rest : List Text) :
    WrittenAs (.plain op) (op.mnemonic :: rest)
  | arithmetic (subtract : Bool) {src : Source} {t : Text} (h : src.WrittenAs t)
    (rest : List Text) :
    WrittenAs (.arithmetic subtract src) ((arithmeticOpcode subtract).mnemonic :: t :: rest)
  | move {src : Source} {t : Text} (h : src.WrittenAs t) (dst : Register) (rest : List Text) :
    WrittenAs (.move src dst) (Opcode.mov.mnemonic :: t :: dst.name :: rest)
  | jump {op : Opcode} (h : op ∈ Opcode.labelJumps) (label : Text) (rest : List Text) :
    WrittenAs (.jump op label) (op.mnemonic :: label :: rest)
  | jumpBy (r : Register) (rest : List Text) :
    WrittenAs (.jumpBy r) (Opcode.jro.mnemonic :: r.name :: rest)

/-- The command of an instruction, if it can be read. -/
def Command.ofTokens? : List Text → Option Command
  | [] => none
  | mnemonic :: operands =>
    (Opcode.ofMnemonic? mnemonic).bind fun op => (Command.read op operands).toOption

theorem toOption_eq_some_iff {ε α : Type} {x : Except ε α} {a : α} :
    x.toOption = some a ↔ x = .ok a := by
  cases x <;> simp [Except.toOption]

theorem readInteger?_name (r : Register) : Numeral.readInteger? r.name = none := by
  cases r <;> rfl

/-! ## Operands -/

theorem source_read_eq_ok_iff {t : Text} {src : Source} :
    Source.read t = .ok src ↔ src.WrittenAs t := by
  constructor
  · intro h
    unfold Source.read at h
    split at h
    · next r hr =>
      cases h
      rw [← Register.name_of_ofName? hr]
      exact .register r
    · split at h
      · next v hv =>
        cases h
        exact .literal hv
      · cases h
  · rintro (r | hv)
    · simp [Source.read]
    · unfold Source.read
      split
      · next r hr =>
        rw [← Register.name_of_ofName? hr, readInteger?_name] at hv
        cases hv
      · rw [hv]

theorem readDistance_eq_ok_iff {t : Text} {r : Register} :
    Command.readDistance t = .ok r ↔ t = r.name := by
  constructor
  · intro h
    unfold Command.readDistance at h
    split at h
    · next s hs =>
      cases h
      exact (Register.name_of_ofName? hs).symm
    · split at h <;> cases h
  · rintro rfl
    simp [Command.readDistance]

theorem readDestination_eq_ok_iff {t : Text} {r : Register} :
    Command.readDestination t = .ok r ↔ t = r.name := by
  constructor
  · intro h
    unfold Command.readDestination at h
    split at h
    · next s hs =>
      cases h
      exact (Register.name_of_ofName? hs).symm
    · cases h
  · rintro rfl
    simp [Command.readDestination]

/-! ## Instructions -/

theorem map_eq_ok_iff {ε α β : Type} {x : Except ε α} {f : α → β} {b : β} :
    x.map f = .ok b ↔ ∃ a, x = .ok a ∧ f a = b := by
  cases x <;> simp [Except.map]

theorem read_move_eq_ok_iff {first second : Text} {rest : List Text} {c : Command} :
    Command.read .mov (first :: second :: rest) = .ok c ↔
      ∃ src dst, src.WrittenAs first ∧ second = dst.name ∧ c = .move src dst := by
  simp only [← source_read_eq_ok_iff, ← readDestination_eq_ok_iff, Command.read, bind, Except.bind]
  cases Source.read first with
  | error e => simp
  | ok src =>
    cases Command.readDestination second with
    | error e => simp
    | ok dst => simp [pure, Except.pure, eq_comm]

theorem writtenAs_of_read {op : Opcode} {operands : List Text} {c : Command}
    (h : Command.read op operands = .ok c) : c.WrittenAs (op.mnemonic :: operands) := by
  cases op
  case nop | swp | sav | neg =>
    cases h
    exact .plain rfl operands
  case mov =>
    match operands, h with
    | first :: second :: rest, h =>
      obtain ⟨src, dst, hsrc, rfl, rfl⟩ := read_move_eq_ok_iff.mp h
      exact .move hsrc dst rest
  case jro =>
    match operands, h with
    | t :: rest, h =>
      obtain ⟨r, hr, rfl⟩ := map_eq_ok_iff.mp h
      rw [readDistance_eq_ok_iff.mp hr]
      exact .jumpBy r rest
  case add =>
    match operands, h with
    | t :: rest, h =>
      obtain ⟨src, hsrc, rfl⟩ := map_eq_ok_iff.mp h
      exact .arithmetic false (source_read_eq_ok_iff.mp hsrc) rest
  case sub =>
    match operands, h with
    | t :: rest, h =>
      obtain ⟨src, hsrc, rfl⟩ := map_eq_ok_iff.mp h
      exact .arithmetic true (source_read_eq_ok_iff.mp hsrc) rest
  case jmp | jez | jnz | jgz | jlz =>
    match operands, h with
    | label :: rest, h =>
      cases h
      exact .jump (by decide) label rest

theorem ofTokens?_of_writtenAs {c : Command} {body : List Text} (h : c.WrittenAs body) :
    Command.ofTokens? body = some c := by
  cases h with
  | @plain op harity rest =>
    cases op <;> cases harity <;> rfl
  | arithmetic subtract hsrc rest =>
    have hread := source_read_eq_ok_iff.mpr hsrc
    cases subtract <;>
      simp [Command.ofTokens?, Command.arithmeticOpcode, Command.read, hread, Except.map,
        Except.toOption]
  | move hsrc dst rest =>
    have hread : Command.read .mov (_ :: dst.name :: rest) = .ok _ :=
      read_move_eq_ok_iff.mpr ⟨_, dst, hsrc, rfl, rfl⟩
    simp [Command.ofTokens?, hread, Except.toOption]
  | @jump op hop label rest =>
    simp only [Opcode.labelJumps, List.mem_cons, List.not_mem_nil, or_false] at hop
    rcases hop with rfl | rfl | rfl | rfl | rfl <;> rfl
  | jumpBy r rest =>
    have hread := readDistance_eq_ok_iff.mpr (rfl : r.name = r.name)
    simp [Command.ofTokens?, Command.read, hread, Except.map, Except.toOption]

/-- **The reader follows the grammar.** -/
theorem ofTokens?_eq_some_iff {body : List Text} {c : Command} :
    Command.ofTokens? body = some c ↔ c.WrittenAs body := by
  constructor
  · intro h
    cases body with
    | nil => cases h
    | cons mnemonic operands =>
      obtain ⟨op, hop, hread⟩ := Option.bind_eq_some_iff.mp h
      rw [← Opcode.mnemonic_of_ofMnemonic? hop]
      exact writtenAs_of_read (toOption_eq_some_iff.mp hread)
  · exact ofTokens?_of_writtenAs

theorem label?_of_writtenAs {c : Command} {body : List Text} {label : Text}
    (h : c.WrittenAs body) (hlabel : c.label? = some label) :
    ∃ op ∈ Opcode.labelJumps, ∃ rest, body = op.mnemonic :: label :: rest := by
  cases h with
  | @jump op hop _ rest =>
    cases hlabel
    exact ⟨op, hop, rest, rfl⟩
  | plain _ _ | arithmetic _ _ _ | move _ _ _ | jumpBy _ _ => cases hlabel

end ExecutionNode.Assembly
