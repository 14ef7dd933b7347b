import ExecutionNode.Proofs.Linking

/-!
# Lines, slots and jumps

Where the statements of a source stand, and which of them are jumps. Going down a source, lines
and slots go up, so the references lie in the order in which they are linked.
-/

namespace ExecutionNode.Assembly

theorem getElem?_located (ss : List Statement) (i : Nat) :
    (located ss)[i]? = ss[i]?.map fun s => ⟨s, i + 1, (instructions (ss.take i)).length⟩ := by
  simp only [located, List.getElem?_map, List.getElem?_zipIdx, Option.map_map, Nat.zero_add]
  rfl

theorem mem_located_iff {ss : List Statement} {l : Located} :
    l ∈ located ss ↔ ∃ i, ss[i]? = some l.statement ∧ l.line = i + 1 ∧
      l.slot = (instructions (ss.take i)).length := by
  obtain ⟨s, line, slot⟩ := l
  simp only [List.mem_iff_getElem?, getElem?_located, Option.map_eq_some_iff, Located.mk.injEq]
  constructor
  · rintro ⟨i, t, ht, rfl, rfl, rfl⟩
    exact ⟨i, ht, rfl, rfl⟩
  · rintro ⟨i, hs, rfl, rfl⟩
    exact ⟨i, s, hs, rfl, rfl, rfl⟩

theorem getElem?_instructions_iff {ss : List Statement} {k : Nat} {body : List Text} :
    (instructions ss)[k]? = some body ↔
      body ≠ [] ∧ ∃ l ∈ located ss, l.slot = k ∧ l.statement.body = body := by
  induction ss using List.reverseRecOn with
  | nil => simp [instructions, located]
  | append_singleton ss s ih =>
    obtain ⟨label, tokens⟩ := s
    simp only [located_concat, List.mem_append, List.mem_singleton, or_and_right, exists_or,
      exists_eq_left, and_or_left, ← ih, instructions_append]
    rcases tokens with - | ⟨mnemonic, operands⟩
    · rw [instructions_nil_body, List.append_nil]
      constructor
      · exact .inl
      · rintro (h | ⟨hne, -, rfl⟩)
        · exact h
        · exact absurd rfl hne
    · rw [instructions_cons_body, List.getElem?_append]
      by_cases hlt : k < (instructions ss).length
      · rw [if_pos hlt]
        constructor
        · exact .inl
        · rintro (h | ⟨-, hk, -⟩)
          · exact h
          · omega
      · have hnone : (instructions ss)[k]? = none := List.getElem?_eq_none (by omega)
        rw [if_neg hlt, hnone, List.getElem?_singleton, Option.ite_none_right_eq_some]
        simp only [reduceCtorEq, false_or, Option.some.injEq]
        constructor
        · rintro ⟨hk, rfl⟩
          exact ⟨List.cons_ne_nil _ _, by omega, rfl⟩
        · rintro ⟨-, hk, rfl⟩
          exact ⟨by omega, rfl⟩

/-! ## Labels and jumps -/

theorem mem_definitions_iff {ss : List Statement} {name : Text} {slot : Nat} :
    (name, slot) ∈ definitions ss ↔ ∃ i s, ss[i]? = some s ∧ s.label = some name ∧
      slot = (instructions (ss.take i)).length := by
  simp only [definitions, List.mem_filterMap, mem_located_iff, Located.definition?,
    Option.map_eq_some_iff, Prod.mk.injEq]
  constructor
  · rintro ⟨l, ⟨i, hi, -, hslot⟩, _, hlabel, rfl, rfl⟩
    exact ⟨i, l.statement, hi, hlabel, hslot⟩
  · rintro ⟨i, s, hi, hlabel, rfl⟩
    exact ⟨⟨s, i + 1, _⟩, ⟨i, hi, rfl, rfl⟩, name, hlabel, rfl, rfl⟩

theorem mem_names_definitions_iff {ss : List Statement} {name : Text} :
    name ∈ (definitions ss).names ↔ ∃ s ∈ ss, s.label = some name := by
  constructor
  · intro h
    obtain ⟨⟨_, slot⟩, hmem, rfl⟩ := List.mem_map.mp h
    obtain ⟨i, s, hi, hlabel, -⟩ := mem_definitions_iff.mp hmem
    exact ⟨s, List.mem_of_getElem? hi, hlabel⟩
  · rintro ⟨s, hs, hlabel⟩
    obtain ⟨i, hi⟩ := List.mem_iff_getElem?.mp hs
    exact List.mem_map_of_mem (mem_definitions_iff.mpr ⟨i, s, hi, hlabel, rfl⟩)

def Statement.JumpsTo (s : Statement) (label : Text) : Prop :=
  ∃ op ∈ Opcode.labelJumps, ∃ rest, s.body = op.mnemonic :: label :: rest

theorem reference?_eq_some_iff_jumpsTo {l : Located} {r : Reference} :
    l.reference? = some r ↔
      l.statement.JumpsTo r.label ∧ r.slot = l.slot ∧ r.line = l.line := by
  rw [reference?_eq_some_iff]
  constructor
  · rintro ⟨c, hc, hlabel, hslot, hline⟩
    exact ⟨label?_of_writtenAs (ofTokens?_eq_some_iff.mp hc) hlabel, hslot, hline⟩
  · rintro ⟨⟨op, hop, rest, hbody⟩, hslot, hline⟩
    refine ⟨.jump op r.label, ?_, rfl, hslot, hline⟩
    rw [hbody]
    exact ofTokens?_of_writtenAs (.jump hop r.label rest)

theorem mem_references_iff {ss : List Statement} {r : Reference} :
    r ∈ references ss ↔ ∃ l ∈ located ss, l.statement.JumpsTo r.label ∧
      r.slot = l.slot ∧ r.line = l.line := by
  simp only [references, List.mem_filterMap, reference?_eq_some_iff_jumpsTo]

theorem exists_reference_at_iff {ss : List Statement} {k : Nat} {label : Text} :
    (∃ r ∈ references ss, r.slot = k ∧ r.label = label) ↔
      ∃ op ∈ Opcode.labelJumps, ∃ rest,
        (instructions ss)[k]? = some (op.mnemonic :: label :: rest) := by
  constructor
  · rintro ⟨r, hr, rfl, rfl⟩
    obtain ⟨l, hl, ⟨op, hop, rest, hbody⟩, hslot, -⟩ := mem_references_iff.mp hr
    refine ⟨op, hop, rest, getElem?_instructions_iff.mpr ⟨by simp, l, hl, hslot.symm, hbody⟩⟩
  · rintro ⟨op, hop, rest, h⟩
    obtain ⟨-, l, hl, hslot, hbody⟩ := getElem?_instructions_iff.mp h
    exact ⟨⟨l.slot, label, l.line⟩,
      mem_references_iff.mpr ⟨l, hl, ⟨op, hop, rest, hbody⟩, rfl, rfl⟩, hslot, rfl⟩

theorem exists_reference_iff {ss : List Statement} {label : Text} :
    (∃ r ∈ references ss, r.label = label) ↔
      ∃ op ∈ Opcode.labelJumps, ∃ rest, op.mnemonic :: label :: rest ∈ instructions ss := by
  constructor
  · rintro ⟨r, hr, hlabel⟩
    obtain ⟨op, hop, rest, hbody⟩ := exists_reference_at_iff.mp ⟨r, hr, rfl, hlabel⟩
    exact ⟨op, hop, rest, List.mem_of_getElem? hbody⟩
  · rintro ⟨op, hop, rest, hmem⟩
    obtain ⟨k, hbody⟩ := List.mem_iff_getElem?.mp hmem
    obtain ⟨r, hr, -, hlabel⟩ := exists_reference_at_iff.mpr ⟨op, hop, rest, hbody⟩
    exact ⟨r, hr, hlabel⟩

theorem line_le_of_mem_references {ss : List Statement} {r : Reference}
    (h : r ∈ references ss) : r.line ≤ ss.length := by
  obtain ⟨l, hl, -, -, hline⟩ := mem_references_iff.mp h
  obtain ⟨i, hi, hl, -⟩ := mem_located_iff.mp hl
  have := (List.getElem?_eq_some_iff.mp hi).1
  omega

theorem references_ascend (ss : List Statement) :
    (references ss).Pairwise fun q r => q.line < r.line ∧ q.slot < r.slot := by
  induction ss using List.reverseRecOn with
  | nil => simp [references, located]
  | append_singleton ss s ih =>
    rw [references_concat, List.pairwise_append]
    refine ⟨ih, ?_, ?_⟩
    · -- A line has one jump at most.
      cases Located.reference? _ <;> simp
    · intro q hq r hr
      rw [Option.mem_toList] at hr
      obtain ⟨-, hslot, hline⟩ := reference?_eq_some_iff_jumpsTo.mp hr
      dsimp only at hslot hline
      have := line_le_of_mem_references hq
      have := slot_lt_of_mem_references ss q hq
      omega

theorem filter_references_line_lt {ss : List Statement} {before after : List Reference}
    {r : Reference} (h : references ss = before ++ r :: after) :
    (references ss).filter (·.line < r.line) = before := by
  have hascend := references_ascend ss
  rw [h] at hascend ⊢
  obtain ⟨-, hafter, hbefore⟩ := List.pairwise_append.mp hascend
  rw [List.filter_append, List.filter_eq_self.mpr, List.filter_eq_nil_iff.mpr, List.append_nil]
  · intro q hq
    rcases List.mem_cons.mp hq with rfl | hq
    · simp
    · have := ((List.pairwise_cons.mp hafter).1 q hq).1
      simp
      omega
  · intro q hq
    simpa using (hbefore q hq r List.mem_cons_self).1

end ExecutionNode.Assembly
