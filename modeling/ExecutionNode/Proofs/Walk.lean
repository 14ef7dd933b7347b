import ExecutionNode.Proofs.Reading

/-!
# The pass over the lines computes the direct reading

One step of the pass appends one statement to what was read before, and a whole run is told from
the lines alone: it fails with the first fault among them, and else ends in the pass that the
statements describe.
-/

namespace ExecutionNode.Assembly

/-! ## Results with one possible failure -/

/-- A value, unless there is a failure. -/
def okUnless {ε α : Type} (failure : Option ε) (a : α) : Except ε α :=
  match failure with
  | some e => .error e
  | none => .ok a

@[simp] theorem okUnless_none {ε α : Type} (a : α) : okUnless (none : Option ε) a = .ok a := rfl

@[simp] theorem okUnless_some {ε α : Type} (e : ε) (a : α) : okUnless (some e) a = .error e := rfl

theorem okUnless_eq_ok_iff {ε α : Type} {failure : Option ε} {a b : α} :
    okUnless failure a = .ok b ↔ failure = none ∧ b = a := by
  cases failure <;> simp [eq_comm]

theorem okUnless_bind {ε α β : Type} {f g : Option ε} {a : α} {b : β} {k : α → Except ε β}
    (h : f = none → k a = okUnless g b) : (okUnless f a >>= k) = okUnless (f.or g) b := by
  cases f with
  | none => exact h rfl
  | some e => rfl

theorem mapError_okUnless {ε ε' α : Type} (f : Option ε) (g : ε → ε') (a : α) :
    (okUnless f a).mapError g = okUnless (f.map g) a := by
  cases f <;> rfl

/-! ## One statement -/

def LabelTable.names (labels : LabelTable) : List Text := labels.map Prod.fst

def LabelTable.slots (labels : LabelTable) : List Nat := labels.map Prod.snd

theorem lookup_isSome_iff (labels : LabelTable) (name : Text) :
    (labels.lookup name).isSome = true ↔ name ∈ labels.names := by
  simp only [LabelTable.names, List.lookup_isSome_iff, List.mem_map, beq_iff_eq,
    eq_comm (a := name)]

theorem lookup_eq_none_iff {labels : LabelTable} {name : Text} :
    labels.lookup name = none ↔ name ∉ labels.names := by
  rw [← lookup_isSome_iff, Option.not_isSome_iff_eq_none]

theorem mem_of_lookup {labels : LabelTable} {name : Text} {slot : Nat}
    (h : labels.lookup name = some slot) : (name, slot) ∈ labels := by
  obtain ⟨before, after, rfl, -⟩ := List.lookup_eq_some_iff.mp h
  simp

theorem slotOf_of_lookup {labels : LabelTable} {name : Text} {slot : Nat}
    (h : labels.lookup name = some slot) : slotOf labels name = slot := by
  rw [slotOf, h, Option.getD_some]

theorem lookup_slotOf {labels : LabelTable} {name : Text} (h : name ∈ labels.names) :
    labels.lookup name = some (slotOf labels name) := by
  obtain ⟨slot, hslot⟩ := Option.isSome_iff_exists.mp ((lookup_isSome_iff labels name).mpr h)
  rw [slotOf_of_lookup hslot, hslot]

theorem slotOf_mem_slots {labels : LabelTable} {name : Text} (h : name ∈ labels.names) :
    slotOf labels name ∈ labels.slots :=
  List.mem_map_of_mem (mem_of_lookup (lookup_slotOf h))

/-- What is wrong with a label, the next slot being known. -/
def labelFault? (labels : LabelTable) (next : Nat) : Option Text → Option Cause
  | none => none
  | some name =>
    if slotCount ≤ next then some (.tooManyInstructions slotCount)
    else if name ∈ labels.names ∨ next ∈ labels.slots then some (.duplicateLabel name)
    else none

/-- What is wrong with an instruction, the next slot being known. -/
def bodyFault? (next : Nat) : List Text → Option Cause
  | [] => none
  | mnemonic :: operands =>
    match Opcode.ofMnemonic? mnemonic with
    | none => some (.unknownOpcode mnemonic)
    | some op =>
      if slotCount ≤ next then some (.tooManyInstructions slotCount)
      else
        match Command.read op operands with
        | .error cause => some cause
        | .ok _ => none

namespace Pass

def withLabel (p : Pass) : Option Text → Pass
  | none => p
  | some name =>
    { p with labels := p.labels ++ [(name, p.next)], lastLabelled := some p.next }

/-- The pass after an instruction, or after none. -/
def withBody (p : Pass) (s : Statement) (line : Nat) : Pass :=
  { p with
    words := p.words ++ (instructions [s]).map (wordOf Command.word)
    references := p.references ++ (Located.reference? ⟨s, line, p.next⟩).toList }

@[simp] theorem next_withLabel (p : Pass) (label : Option Text) :
    (p.withLabel label).next = p.next := by
  cases label <;> rfl

theorem takeLabel_result (p : Pass) (hlast : p.lastLabelled = some p.next ↔ p.next ∈ p.labels.slots)
    (label : Option Text) :
    (p.takeLabel label).result =
      okUnless (labelFault? p.labels p.next label) (p.withLabel label) := by
  cases label with
  | none => rfl
  | some name =>
    simp only [takeLabel, bindLabel, labelFault?, isFull, decide_eq_true_eq, hlast,
      lookup_isSome_iff]
    by_cases hfull : slotCount ≤ p.next
    · rw [if_pos hfull, if_pos hfull]
      rfl
    · rw [if_neg hfull, if_neg hfull]
      by_cases hdup : name ∈ p.labels.names ∨ p.next ∈ p.labels.slots
      · rw [if_pos hdup, if_pos hdup.symm]
        rfl
      · rw [if_neg hdup, if_neg fun h => hdup h.symm]
        rfl

theorem takeBody_result (p : Pass) (s : Statement) (line : Nat) :
    (p.takeBody line s.body).result = okUnless (bodyFault? p.next s.body) (p.withBody s line) := by
  obtain ⟨label, body⟩ := s
  cases body with
  | nil => simp [takeBody, bodyFault?, withBody, instructions_nil_body, Located.reference?,
      Command.ofTokens?]
  | cons mnemonic operands =>
    simp only [takeBody, bodyFault?, isFull, decide_eq_true_eq]
    cases hop : Opcode.ofMnemonic? mnemonic with
    | none => rfl
    | some op =>
      dsimp only
      by_cases hfull : slotCount ≤ p.next
      · rw [if_pos hfull, if_pos hfull]
        rfl
      · rw [if_neg hfull, if_neg hfull, Logged.result_bind]
        cases hread : Command.read op operands with
        | error cause => rfl
        | ok c =>
          have hc : Command.ofTokens? (mnemonic :: operands) = some c := by
            simp [Command.ofTokens?, hop, hread, Except.toOption]
          simp [Logged.ofExcept, bind, Except.bind, place, Logged.log, withBody,
            instructions_cons_body, wordOf, hc, Located.reference?]

end Pass

/-! ## The pass that statements describe -/

theorem slot_le_of_mem_definitions (ss : List Statement) :
    ∀ n ∈ (definitions ss).slots, n ≤ (instructions ss).length := by
  induction ss using List.reverseRecOn with
  | nil => simp [definitions, located, LabelTable.slots]
  | append_singleton ss s ih =>
    intro n hn
    rw [instructions_append, List.length_append]
    rw [LabelTable.slots, definitions_concat, List.map_append, List.mem_append] at hn
    rcases hn with hn | hn
    · have := ih n hn
      omega
    · cases hlabel : s.label <;> simp [hlabel] at hn
      omega

theorem slots_ascend (ss : List Statement) : (definitions ss).slots.Pairwise (· ≤ ·) := by
  induction ss using List.reverseRecOn with
  | nil => simp [definitions, located, LabelTable.slots]
  | append_singleton ss s ih =>
    rw [LabelTable.slots, definitions_concat, List.map_append, List.pairwise_append]
    refine ⟨ih, ?_, ?_⟩
    · cases s.label <;> simp
    · intro m hm n hn
      have := slot_le_of_mem_definitions ss m hm
      cases hlabel : s.label <;> simp [hlabel] at hn
      omega

theorem getLast?_eq_some_iff_mem {l : List Nat} {n : Nat} (hl : l.Pairwise (· ≤ ·))
    (hn : ∀ m ∈ l, m ≤ n) : l.getLast? = some n ↔ n ∈ l := by
  constructor
  · exact List.mem_of_getLast?
  · intro hmem
    obtain ⟨init, x, rfl⟩ := List.eq_nil_or_concat l |>.resolve_left (List.ne_nil_of_mem hmem)
    rw [List.concat_eq_append] at *
    have hx : x ≤ n := hn x (by simp)
    rw [List.mem_append, List.mem_singleton] at hmem
    rcases hmem with hmem | rfl
    · have := (List.pairwise_append.mp hl).2.2 n hmem x (by simp)
      simp
      omega
    · simp

namespace Pass

def ofStatements (ss : List Statement) : Pass :=
  { words := (instructions ss).map (wordOf Command.word)
    labels := definitions ss
    lastLabelled := (definitions ss).slots.getLast?
    references := Assembly.references ss }

@[simp] theorem next_ofStatements (ss : List Statement) :
    (ofStatements ss).next = (instructions ss).length := by
  simp [next, ofStatements]

theorem lastLabelled_ofStatements (ss : List Statement) :
    (ofStatements ss).lastLabelled = some (ofStatements ss).next ↔
      (ofStatements ss).next ∈ (ofStatements ss).labels.slots := by
  rw [next_ofStatements]
  exact getLast?_eq_some_iff_mem (slots_ascend ss) (slot_le_of_mem_definitions ss)

theorem ofStatements_concat (ss : List Statement) (s : Statement) :
    ofStatements (ss ++ [s]) = ((ofStatements ss).withLabel s.label).withBody s (ss.length + 1) := by
  have hnext := next_ofStatements ss
  cases hlabel : s.label <;>
    simp [ofStatements, withBody, withLabel, hlabel, instructions_append, definitions_concat,
      references_concat, LabelTable.slots, next] at hnext ⊢

/-- **One step.** A statement is refused for its label or its instruction, or it is read. -/
theorem takeStatement_ofStatements (ss : List Statement) (s : Statement) :
    ((ofStatements ss).takeStatement (ss.length + 1) s).result =
      okUnless ((labelFault? (definitions ss) (instructions ss).length s.label).or
        (bodyFault? (instructions ss).length s.body)) (ofStatements (ss ++ [s])) := by
  have hlabel := takeLabel_result _ (lastLabelled_ofStatements ss) s.label
  have hbody := takeBody_result ((ofStatements ss).withLabel s.label) s (ss.length + 1)
  rw [next_ofStatements] at hlabel
  rw [next_withLabel, next_ofStatements] at hbody
  rw [takeStatement, Logged.result_bind, hlabel, ofStatements_concat]
  exact okUnless_bind fun _ => hbody

end Pass

/-! ## A run -/

/-- What is wrong with a line, the earlier statements being known. -/
def lineFault? (limit : Nat) (earlier : List Statement) (raw : Text) : Option Cause :=
  let line := Text.dropReturn raw
  let s := Statement.ofLine line
  if line.length ≤ limit then
    (labelFault? (definitions earlier) (instructions earlier).length s.label).or
      (bodyFault? (instructions earlier).length s.body)
  else some (.lineTooLong line.length limit)

/-- The fault of the first line that has one, if all lines before it are taken. -/
def firstFault? (limit : Nat) (ls : List Text) : Option Fault :=
  (ls.zipIdx.map fun (raw, i) =>
    (lineFault? limit ((ls.take i).map .ofSourceLine) raw).map (Fault.mk (i + 1))).findSome? id

theorem firstFault?_concat (limit : Nat) (ls : List Text) (raw : Text) :
    firstFault? limit (ls ++ [raw]) = (firstFault? limit ls).or
      ((lineFault? limit (ls.map .ofSourceLine) raw).map (Fault.mk (ls.length + 1))) := by
  unfold firstFault?
  rw [List.zipIdx_append, List.map_append, List.findSome?_append]
  congr 2
  · apply List.map_congr_left
    rintro ⟨t, i⟩ hmem
    have hi : i < ls.length := by simpa using List.snd_lt_add_of_mem_zipIdx hmem
    simp only [List.take_append_of_le_length (Nat.le_of_lt hi)]
  · simp

theorem firstFault?_append_of_some {limit : Nat} {xs : List Text} {f : Fault}
    (h : firstFault? limit xs = some f) (ys : List Text) :
    firstFault? limit (xs ++ ys) = some f := by
  induction ys using List.reverseRecOn with
  | nil => rw [List.append_nil, h]
  | append_singleton ys raw ih => rw [← List.append_assoc, firstFault?_concat, ih, Option.some_or]

namespace Pass

theorem takeLine_ofStatements (limit : Nat) (ss : List Statement) (raw : Text) :
    ((ofStatements ss).takeLine limit (ss.length + 1) raw).result =
      okUnless ((lineFault? limit ss raw).map (Fault.mk (ss.length + 1)))
        (ofStatements (ss ++ [.ofSourceLine raw])) := by
  unfold takeLine lineFault? Statement.read
  rw [← mapError_okUnless]
  by_cases h : (Text.dropReturn raw).length ≤ limit
  · simp only [h, if_true]
    rw [← Statement.ofSourceLine, ← takeStatement_ofStatements]
    rfl
  · simp only [h, if_false]
    rfl

theorem takeLines_append (limit : Nat) (xs ys : List Text) (p : Pass) (line : Nat) :
    (p.takeLines limit line (xs ++ ys)).result =
      (p.takeLines limit line xs).result >>= fun q =>
        (q.takeLines limit (line + xs.length) ys).result := by
  induction xs generalizing p line with
  | nil => rfl
  | cons raw rest ih =>
    simp only [List.cons_append, takeLines, Logged.result_bind, ih, List.length_cons,
      Nat.add_right_comm line 1]
    cases (p.takeLine limit line raw).result <;> rfl

/-- **A run.** The lines fail with their first fault, or every statement is read. -/
theorem takeLines_result (limit : Nat) (ls : List Text) :
    (takeLines limit {} 1 ls).result =
      okUnless (firstFault? limit ls) (ofStatements (ls.map .ofSourceLine)) := by
  -- From the right: the earlier lines are a run of their own, and their pass is what `ih` names.
  induction ls using List.reverseRecOn with
  | nil => rfl
  | append_singleton ls raw ih =>
    have hstep := takeLine_ofStatements limit (ls.map .ofSourceLine) raw
    rw [List.length_map] at hstep
    rw [takeLines_append, ih, firstFault?_concat, List.map_append]
    apply okUnless_bind
    intro _
    simp only [takeLines, Logged.result_bind, Nat.add_comm 1, hstep]
    cases (lineFault? limit (ls.map .ofSourceLine) raw) <;> rfl

end Pass

end ExecutionNode.Assembly
