import ExecutionNode.Proofs.Positions
import Mathlib.Data.List.Nodup

/-!
# When a source assembles, and to what

A source assembles exactly if a list of conditions holds, each of which looks at the whole source.
The program is then the one that a direct reading gives.
-/

namespace ExecutionNode.Assembly

/-! ## Labels and instructions -/

/-- Every label has a slot of its own, and no name is given twice. -/
structure LabelTable.Valid (labels : LabelTable) : Prop where
  slots_lt : ∀ n ∈ labels.slots, n < slotCount
  names_nodup : labels.names.Nodup
  slots_nodup : labels.slots.Nodup

theorem LabelTable.Valid.slots_lt_field {labels : LabelTable} (h : labels.Valid) :
    ∀ n ∈ labels.slots, n < 64 := by
  intro n hn
  have : n < 16 := h.slots_lt n hn
  omega

theorem valid_concat_iff {labels : LabelTable} {name : Text} {slot : Nat} :
    LabelTable.Valid (labels ++ [(name, slot)]) ↔
      labels.Valid ∧ slot < slotCount ∧ name ∉ labels.names ∧ slot ∉ labels.slots := by
  have hnames : LabelTable.names (labels ++ [(name, slot)]) = labels.names.concat name := by
    simp [LabelTable.names]
  have hslots : LabelTable.slots (labels ++ [(name, slot)]) = labels.slots.concat slot := by
    simp [LabelTable.slots]
  constructor
  · rintro ⟨hlt, hn, hs⟩
    rw [hslots, List.concat_eq_append, List.forall_mem_append] at hlt
    rw [hnames, List.nodup_concat] at hn
    rw [hslots, List.nodup_concat] at hs
    exact ⟨⟨hlt.1, hn.2, hs.2⟩, by simpa using hlt.2, hn.1, hs.1⟩
  · rintro ⟨⟨hlt, hn, hs⟩, hslot, hname, hnew⟩
    refine ⟨?_, ?_, ?_⟩
    · rw [hslots, List.concat_eq_append, List.forall_mem_append]
      exact ⟨hlt, by simpa using hslot⟩
    · rw [hnames, List.nodup_concat]
      exact ⟨hname, hn⟩
    · rw [hslots, List.nodup_concat]
      exact ⟨hnew, hs⟩

theorem labelFault?_eq_none_iff {labels : LabelTable} {next : Nat} {name : Text} :
    labelFault? labels next (some name) = none ↔
      next < slotCount ∧ name ∉ labels.names ∧ next ∉ labels.slots := by
  simp only [labelFault?]
  by_cases hfull : slotCount ≤ next
  · rw [if_pos hfull]
    simp only [reduceCtorEq, false_iff, not_and]
    omega
  · rw [if_neg hfull]
    by_cases hdup : name ∈ labels.names ∨ next ∈ labels.slots
    · rw [if_pos hdup]
      rcases hdup with hdup | hdup <;> simp [hdup]
    · rw [if_neg hdup]
      rw [not_or] at hdup
      exact iff_of_true rfl ⟨by omega, hdup⟩

theorem valid_definitions_concat_iff {ss : List Statement} {s : Statement} :
    (definitions (ss ++ [s])).Valid ↔ (definitions ss).Valid ∧
      labelFault? (definitions ss) (instructions ss).length s.label = none := by
  rw [definitions_concat]
  cases s.label with
  | none => simp [labelFault?]
  | some name => exact valid_concat_iff.trans (and_congr_right fun _ => labelFault?_eq_none_iff.symm)

/-- Instructions that can be read and that fit into the slots. -/
structure Encodable (bodies : List (List Text)) : Prop where
  written : ∀ body ∈ bodies, ∃ c : Command, c.WrittenAs body
  fits : bodies.length ≤ slotCount

theorem bodyFault?_eq_none_iff {next : Nat} {mnemonic : Text} {operands : List Text} :
    bodyFault? next (mnemonic :: operands) = none ↔
      next < slotCount ∧ ∃ c : Command, c.WrittenAs (mnemonic :: operands) := by
  simp only [← ofTokens?_eq_some_iff, Command.ofTokens?, bodyFault?]
  cases hop : Opcode.ofMnemonic? mnemonic with
  | none => simp
  | some op =>
    by_cases hfull : slotCount ≤ next
    · have : ¬ next < slotCount := by omega
      simp [hfull, this]
    · have : next < slotCount := by omega
      cases hread : Command.read op operands <;> simp [hfull, this, hread, Except.toOption]

theorem encodable_instructions_concat_iff {ss : List Statement} {s : Statement} :
    Encodable (instructions (ss ++ [s])) ↔ Encodable (instructions ss) ∧
      bodyFault? (instructions ss).length s.body = none := by
  obtain ⟨label, body⟩ := s
  rw [instructions_append]
  cases body with
  | nil => simp [instructions_nil_body, bodyFault?]
  | cons mnemonic operands =>
    rw [instructions_cons_body, bodyFault?_eq_none_iff]
    constructor
    · rintro ⟨hwritten, hfits⟩
      rw [List.forall_mem_append] at hwritten
      rw [List.length_append, List.length_singleton] at hfits
      exact ⟨⟨hwritten.1, by omega⟩, by omega, by simpa using hwritten.2⟩
    · rintro ⟨⟨hwritten, hfits⟩, hroom, hbody⟩
      refine ⟨?_, ?_⟩
      · rw [List.forall_mem_append]
        exact ⟨hwritten, by simpa using hbody⟩
      · rw [List.length_append, List.length_singleton]
        omega

/-! ## Lines -/

/-- What the lines have to satisfy, wherever the jumps go. -/
structure Accepted (limit : Nat) (ls : List Text) : Prop where
  short : ∀ raw ∈ ls, (Text.dropReturn raw).length ≤ limit
  encodable : Encodable (instructions (ls.map .ofSourceLine))
  labels_valid : (definitions (ls.map .ofSourceLine)).Valid

theorem lineFault?_eq_none_iff {limit : Nat} {earlier : List Statement} {raw : Text} :
    lineFault? limit earlier raw = none ↔
      (Text.dropReturn raw).length ≤ limit ∧
      labelFault? (definitions earlier) (instructions earlier).length
        (Statement.ofSourceLine raw).label = none ∧
      bodyFault? (instructions earlier).length (Statement.ofSourceLine raw).body = none := by
  unfold lineFault?
  by_cases h : (Text.dropReturn raw).length ≤ limit
  · simp only [h, if_true, Option.or_eq_none_iff, true_and]
    rfl
  · simp [h]

theorem accepted_concat_iff {limit : Nat} {ls : List Text} {raw : Text} :
    Accepted limit (ls ++ [raw]) ↔
      Accepted limit ls ∧ lineFault? limit (ls.map .ofSourceLine) raw = none := by
  have hstep : (ls ++ [raw]).map Statement.ofSourceLine =
      ls.map Statement.ofSourceLine ++ [.ofSourceLine raw] := by simp
  rw [lineFault?_eq_none_iff]
  constructor
  · rintro ⟨hshort, hbodies, hlabels⟩
    rw [List.forall_mem_append] at hshort
    rw [hstep, encodable_instructions_concat_iff] at hbodies
    rw [hstep, valid_definitions_concat_iff] at hlabels
    exact ⟨⟨hshort.1, hbodies.1, hlabels.1⟩, by simpa using hshort.2, hlabels.2, hbodies.2⟩
  · rintro ⟨⟨hshort, hbodies, hlabels⟩, hraw, hlabel, hbody⟩
    refine ⟨?_, ?_, ?_⟩
    · rw [List.forall_mem_append]
      exact ⟨hshort, by simpa using hraw⟩
    · rw [hstep, encodable_instructions_concat_iff]
      exact ⟨hbodies, hbody⟩
    · rw [hstep, valid_definitions_concat_iff]
      exact ⟨hlabels, hlabel⟩

theorem accepted_nil (limit : Nat) : Accepted limit [] := by
  refine ⟨by simp, ⟨by simp [instructions], by simp [instructions]⟩, ?_⟩
  exact ⟨by simp [definitions, located, LabelTable.slots], List.nodup_nil, List.nodup_nil⟩

theorem accepted_iff_firstFault? {limit : Nat} {ls : List Text} :
    Accepted limit ls ↔ firstFault? limit ls = none := by
  induction ls using List.reverseRecOn with
  | nil => exact iff_of_true (accepted_nil limit) rfl
  | append_singleton ls raw ih =>
    rw [accepted_concat_iff, firstFault?_concat, Option.or_eq_none_iff, Option.map_eq_none_iff, ih]

/-! ## The whole run -/

theorem undefinedFault?_eq_none_iff {labels : LabelTable} {refs : List Reference} :
    undefinedFault? labels refs = none ↔ ∀ r ∈ refs, r.label ∈ labels.names := by
  unfold undefinedFault?
  rw [Option.map_eq_none_iff, List.find?_eq_none]
  simp only [← lookup_isSome_iff, Option.isNone_iff_eq_none, ← Option.isSome_iff_ne_none]

theorem assemble_eq_okUnless (config : Config) (source : Text) :
    assemble config source = okUnless
      ((firstFault? config.maxLineLength (Text.lines source)).or
        (undefinedFault? (definitions (statements source)) (references (statements source))))
      (program (statements source)) := by
  unfold assemble assembleLogged
  rw [Logged.result_bind, Pass.takeLines_result]
  apply okUnless_bind
  intro hnone
  -- The linker masks slots to six bits, which changes none of those that the pass has accepted.
  have hslots : ∀ n ∈ (definitions (statements source)).slots, n < 64 :=
    (accepted_iff_firstFault?.mpr hnone).labels_valid.slots_lt_field
  have hlink := link_result (definitions (statements source))
    (Pass.ofStatements (statements source)).words (references (statements source))
  rw [Pass.ofStatements, patch_references hslots] at hlink
  rw [Logged.result_bind, Pass.ofStatements]
  apply (congrArg (· >>= _) hlink).trans
  cases undefinedFault? (definitions (statements source)) (references (statements source)) <;> rfl

/-- All that a source has to satisfy to assemble, line by line and as a whole. -/
structure Assembles (limit : Nat) (source : Text) : Prop where
  short : ∀ raw ∈ Text.lines source, (Text.dropReturn raw).length ≤ limit
  /-- Every instruction is written by the grammar, and there are no more of them than slots. -/
  encodable : Encodable (instructions (statements source))
  labels_valid : (definitions (statements source)).Valid
  /-- Every jump goes to a label that the source defines. -/
  targets_defined : ∀ op ∈ Opcode.labelJumps, ∀ label rest,
    op.mnemonic :: label :: rest ∈ instructions (statements source) →
      label ∈ (definitions (statements source)).names

theorem assembles_iff {limit : Nat} {source : Text} :
    Assembles limit source ↔ Accepted limit (Text.lines source) ∧
      undefinedFault? (definitions (statements source)) (references (statements source)) = none := by
  rw [undefinedFault?_eq_none_iff]
  constructor
  · rintro ⟨hshort, hbodies, hlabels, htargets⟩
    refine ⟨⟨hshort, hbodies, hlabels⟩, ?_⟩
    intro r hr
    obtain ⟨op, hop, rest, hmem⟩ := exists_reference_iff.mp ⟨r, hr, rfl⟩
    exact htargets op hop r.label rest hmem
  · rintro ⟨⟨hshort, hbodies, hlabels⟩, hrefs⟩
    refine ⟨hshort, hbodies, hlabels, ?_⟩
    intro op hop label rest hmem
    obtain ⟨r, hr, rfl⟩ := exists_reference_iff.mpr ⟨op, hop, rest, hmem⟩
    exact hrefs r hr

theorem exists_command_of_assembles {limit : Nat} {source : Text} (h : Assembles limit source)
    {body : List Text} (hbody : body ∈ instructions (statements source)) :
    ∃ c : Command, c.WrittenAs body ∧
      ∀ label, c.label? = some label → label ∈ (definitions (statements source)).names := by
  obtain ⟨c, hc⟩ := h.encodable.written body hbody
  refine ⟨c, hc, ?_⟩
  intro label hlabel
  obtain ⟨op, hop, rest, rfl⟩ := label?_of_writtenAs hc hlabel
  exact h.targets_defined op hop label rest hbody

theorem assembles_of_assemble {config : Config} {source : Text} {p : Program}
    (h : assemble config source = .ok p) :
    Assembles config.maxLineLength source ∧ p = program (statements source) := by
  rwa [assemble_eq_okUnless, okUnless_eq_ok_iff, Option.or_eq_none_iff, ← accepted_iff_firstFault?,
    ← assembles_iff] at h

theorem assemble_of_assembles {config : Config} {source : Text}
    (h : Assembles config.maxLineLength source) :
    assemble config source = .ok (program (statements source)) := by
  rw [assembles_iff, accepted_iff_firstFault?, ← Option.or_eq_none_iff] at h
  rw [assemble_eq_okUnless, h, okUnless_none]

/-- **The pass and the linker give what a direct reading gives.** -/
theorem assemble_eq_ok_iff (config : Config) (source : Text) (p : Program) :
    assemble config source = .ok p ↔
      Assembles config.maxLineLength source ∧ p = program (statements source) := by
  rw [assemble_eq_okUnless, okUnless_eq_ok_iff, Option.or_eq_none_iff, ← accepted_iff_firstFault?,
    assembles_iff]

end ExecutionNode.Assembly
