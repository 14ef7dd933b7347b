import ExecutionNode.Proofs.Concatenation
import ExecutionNode.Proofs.FirstFault

/-!
# A source that goes on

The linker goes over all jumps again whenever lines are added to a source. What the first lines
gave is the same nevertheless: their labels keep their slots, and the new ones lie behind.
-/

namespace ExecutionNode.Assembly

/-- The second program goes on where the first one ends, and changes nothing in it. -/
structure Program.ExtendedBy (p q : Program) : Prop where
  /-- Whole words, the slots of their jumps included. -/
  words : p.words <+: q.words
  labels : ∀ name slot, p.labels.lookup name = some slot → q.labels.lookup name = some slot
  new_labels : ∀ name slot, q.labels.lookup name = some slot → p.labels.lookup name = none →
    p.words.length ≤ slot

theorem LabelTable.le_of_lookup_append_shift {labels others : LabelTable} {n : Nat} {name : Text}
    {slot : Nat} (hnew : labels.lookup name = none)
    (h : List.lookup name (labels ++ others.shift n) = some slot) : n ≤ slot := by
  rw [List.lookup_append, hnew, Option.none_or, LabelTable.lookup_shift,
    Option.map_eq_some_iff] at h
  obtain ⟨s, -, rfl⟩ := h
  exact Nat.le_add_left n s

theorem extendedBy_append {limit : Nat} {source : Text} (h : Assembles limit source)
    (ts : List Statement) :
    (program (statements source)).ExtendedBy (program (statements source ++ ts)) := by
  have hlabels : (program (statements source ++ ts)).labels =
      definitions (statements source) ++
        (definitions ts).shift (program (statements source)).words.length := by
    rw [length_words_program]
    exact definitions_append (statements source) ts
  refine ⟨?_, ?_, ?_⟩
  · rw [← map_linked_append h, program, instructions_append, List.map_append, definitions_append]
    exact List.prefix_append _ _
  · intro name slot hslot
    rw [hlabels, List.lookup_append]
    exact Option.or_eq_some_iff.mpr (.inl hslot)
  · intro name slot hslot hnew
    rw [hlabels] at hslot
    exact LabelTable.le_of_lookup_append_shift hnew hslot

theorem statements_firstLines_append {n m : Nat} (hn : 0 < n) (h : n ≤ m) (source : Text) :
    ∃ ts, statements (firstLines m source) = statements (firstLines n source) ++ ts := by
  have hprefix := List.take_prefix_take_left (l := Text.lines source) h
  obtain ⟨later, hlater⟩ := hprefix
  refine ⟨later.map .ofSourceLine, ?_⟩
  rw [statements, statements, lines_firstLines hn, lines_firstLines (Nat.lt_of_lt_of_le hn h),
    ← hlater, List.map_append]

/-- **Further lines change nothing in what is assembled.** -/
theorem assemble_extendedBy {config : Config} {source : Text} {n m : Nat} (h : n ≤ m)
    {p q : Program} (hp : assemble config (firstLines n source) = .ok p)
    (hq : assemble config (firstLines m source) = .ok q) : p.ExtendedBy q := by
  obtain ⟨hn, rfl⟩ := assembles_of_assemble hp
  obtain ⟨-, rfl⟩ := assembles_of_assemble hq
  rcases Nat.eq_zero_or_pos n with rfl | hpos
  · -- No lines are read as one that is empty, and its program has neither words nor labels.
    exact ⟨List.nil_prefix, nofun, fun _ _ _ _ => Nat.zero_le _⟩
  · obtain ⟨ts, hts⟩ := statements_firstLines_append hpos h source
    rw [hts]
    exact extendedBy_append hn ts

theorem assemble_extendedBy_jumps :
    let source := "A: JEZ A\nJMP E\nNOP\nE: JGZ A".toList
    let p : Program := ⟨[0x7040#16], [("A".toList, 0)]⟩
    let q : Program :=
      ⟨[0x7040#16, 0x7003#16, 0x0000#16, 0x7100#16], [("A".toList, 0), ("E".toList, 3)]⟩
    assemble {} (firstLines 1 source) = .ok p ∧
    assemble {} (firstLines 2 source) = .error ⟨2, .undefinedLabel "E".toList⟩ ∧
    assemble {} (firstLines 3 source) = .error ⟨2, .undefinedLabel "E".toList⟩ ∧
    assemble {} (firstLines 4 source) = .ok q ∧ p.ExtendedBy q := by
  intro source p q
  have hp : assemble {} (firstLines 1 source) = .ok p := by rfl
  have hq : assemble {} (firstLines 4 source) = .ok q := by rfl
  exact ⟨hp, by rfl, by rfl, hq, assemble_extendedBy (by decide) hp hq⟩

end ExecutionNode.Assembly
