import ExecutionNode.Proofs.Meaning

/-!
# One source behind another

Two sources that assemble can be put into one, the second one below the first. Its labels then
move by the length of the first program, and so do its jumps. The labels alone decide whether the
two fit together, and the number of slots.
-/

namespace ExecutionNode

namespace Word

/-- A jump to a slot goes to a slot `n` higher. Other words stay as they are. -/
def relocate (n : Nat) (w : Word) : Word :=
  if w.isSlotJump then w.setSlot (w.slotField.toNat + n) else w

end Word

namespace Assembly

/-! ## Tables that move -/

namespace LabelTable

def shift (n : Nat) (labels : LabelTable) : LabelTable :=
  labels.map fun (name, slot) => (name, slot + n)

theorem names_append (labels others : LabelTable) :
    names (labels ++ others) = labels.names ++ others.names := List.map_append

theorem slots_append (labels others : LabelTable) :
    slots (labels ++ others) = labels.slots ++ others.slots := List.map_append

@[simp] theorem names_shift (n : Nat) (labels : LabelTable) :
    (labels.shift n).names = labels.names := by
  simp [names, shift]

theorem slots_shift (n : Nat) (labels : LabelTable) :
    (labels.shift n).slots = labels.slots.map (· + n) := by
  simp [slots, shift]

theorem mem_slots_shift {n slot : Nat} {labels : LabelTable} :
    slot ∈ (labels.shift n).slots ↔ ∃ s ∈ labels.slots, s + n = slot := by
  rw [slots_shift, List.mem_map]

theorem lookup_shift (n : Nat) (labels : LabelTable) (name : Text) :
    (labels.shift n).lookup name = (labels.lookup name).map (· + n) := by
  induction labels with
  | nil => rfl
  | cons d rest ih =>
    obtain ⟨other, slot⟩ := d
    unfold shift at ih ⊢
    by_cases h : name == other <;> simp [List.lookup_cons, h, ih]

theorem nodup_slots_shift {n : Nat} {labels : LabelTable} :
    (labels.shift n).slots.Nodup ↔ labels.slots.Nodup := by
  rw [slots_shift, List.nodup_map_iff]
  exact fun _ _ h => Nat.add_right_cancel h

end LabelTable

theorem slots_meet_iff {labels others : LabelTable} {n : Nat} (h : ∀ s ∈ labels.slots, s ≤ n) :
    (∀ s ∈ labels.slots, ∀ t ∈ (others.shift n).slots, s ≠ t) ↔
      ¬ (n ∈ labels.slots ∧ 0 ∈ others.slots) := by
  simp only [LabelTable.mem_slots_shift]
  constructor
  · rintro hne ⟨hn, hzero⟩
    exact hne n hn n ⟨0, hzero, by omega⟩ rfl
  · rintro hends s hs t ⟨u, hu, rfl⟩ hst
    -- The slots of the first table end at `n`, and the moved ones begin there.
    have := h s hs
    have hzero : u = 0 := by omega
    have hn : s = n := by omega
    subst hzero hn
    exact hends ⟨hs, hu⟩

theorem valid_append_shift_iff {labels others : LabelTable} {n : Nat} (hlabels : labels.Valid)
    (hothers : others.Valid) (h : ∀ s ∈ labels.slots, s ≤ n) :
    LabelTable.Valid (labels ++ others.shift n) ↔
      (∀ name ∈ labels.names, name ∉ others.names) ∧ (∀ s ∈ others.slots, n + s < slotCount) ∧
      ¬ (n ∈ labels.slots ∧ 0 ∈ others.slots) := by
  rw [← slots_meet_iff h]
  constructor
  · rintro ⟨hlt, hnames, hslots⟩
    rw [LabelTable.slots_append] at hlt hslots
    rw [LabelTable.names_append, LabelTable.names_shift] at hnames
    refine ⟨?_, ?_, (List.nodup_append.mp hslots).2.2⟩
    · intro name hname hother
      exact (List.nodup_append.mp hnames).2.2 name hname name hother rfl
    · intro s hs
      rw [Nat.add_comm]
      exact hlt _ (List.mem_append_right _ (LabelTable.mem_slots_shift.mpr ⟨s, hs, rfl⟩))
  · rintro ⟨hdisjoint, hfit, hmeet⟩
    refine ⟨?_, ?_, ?_⟩
    · rw [LabelTable.slots_append, List.forall_mem_append]
      refine ⟨hlabels.slots_lt, ?_⟩
      intro slot hslot
      obtain ⟨s, hs, rfl⟩ := LabelTable.mem_slots_shift.mp hslot
      rw [Nat.add_comm]
      exact hfit s hs
    · rw [LabelTable.names_append, LabelTable.names_shift]
      refine List.nodup_append.mpr ⟨hlabels.names_nodup, hothers.names_nodup, ?_⟩
      rintro name hname other hother rfl
      exact hdisjoint name hname hother
    · rw [LabelTable.slots_append]
      exact List.nodup_append.mpr
        ⟨hlabels.slots_nodup, LabelTable.nodup_slots_shift.mpr hothers.slots_nodup, hmeet⟩

theorem slotOf_append_left {labels : LabelTable} {label : Text} (h : label ∈ labels.names)
    (others : LabelTable) : slotOf (labels ++ others) label = slotOf labels label := by
  rw [slotOf, slotOf, List.lookup_append, lookup_slotOf h]
  rfl

theorem slotOf_append_shift {labels others : LabelTable} {label : Text}
    (h : label ∉ labels.names) (hother : label ∈ others.names) (n : Nat) :
    slotOf (labels ++ others.shift n) label = slotOf others label + n := by
  rw [slotOf, List.lookup_append, lookup_eq_none_iff.mpr h, Option.none_or,
    LabelTable.lookup_shift, lookup_slotOf hother]
  rfl

/-! ## Readings one behind the other -/

theorem statements_append (source other : Text) :
    statements (source ++ '\n' :: other) = statements source ++ statements other := by
  rw [statements, Text.lines_append, List.map_append]
  rfl

theorem definitions_append (ss ts : List Statement) :
    definitions (ss ++ ts) = definitions ss ++ (definitions ts).shift (instructions ss).length := by
  induction ts using List.reverseRecOn with
  | nil => simp [definitions, located, LabelTable.shift]
  | append_singleton ts t ih =>
    rw [← List.append_assoc, definitions_concat, ih, definitions_concat, instructions_append]
    cases h : t.label <;> simp [LabelTable.shift, Nat.add_comm]

namespace Command

theorem linked_of_label?_eq_none {c : Command} (h : c.label? = none) (labels : LabelTable) :
    c.linked labels = c.word := by
  rw [linked, h]

theorem linked_append_left {labels : LabelTable} {c : Command}
    (h : ∀ label, c.label? = some label → label ∈ labels.names) (others : LabelTable) :
    c.linked (labels ++ others) = c.linked labels := by
  unfold linked
  cases hlabel : c.label? with
  | none => rfl
  | some label => simp only [slotOf_append_left (h label hlabel)]

/-- Behind other labels and `n` slots lower down, a command has the moved word. -/
theorem linked_append_shift {labels others : LabelTable} {n : Nat} {c : Command}
    {body : List Text} (hc : c.WrittenAs body) (hslots : ∀ s ∈ others.slots, n + s < 64)
    (h : ∀ label, c.label? = some label → label ∈ others.names ∧ label ∉ labels.names) :
    c.linked (labels ++ others.shift n) = (c.linked others).relocate n := by
  have hjump : (c.linked others).isSlotJump = c.label?.isSome := by
    have hlt : ∀ s ∈ others.slots, s < 64 := fun s hs => by
      have := hslots s hs
      omega
    exact isSlotJump_linked hlt hc
  unfold Word.relocate
  rw [hjump]
  cases hlabel : c.label? with
  | none =>
    rw [linked_of_label?_eq_none hlabel, linked_of_label?_eq_none hlabel]
    rfl
  | some label =>
    obtain ⟨hother, hnew⟩ := h label hlabel
    cases hc with
    | @jump op hop _ rest =>
      cases hlabel
      have hslot := hslots _ (slotOf_mem_slots hother)
      have hlt : slotOf others label < 64 := by omega
      simp only [linked, label?, word, Option.isSome_some, if_true, slotOf_append_shift hnew hother,
        Word.slotField_jump hop hlt, Word.setSlot, Word.clearSlot_jump hop hlt]
    | plain _ _ | arithmetic _ _ _ | move _ _ _ | jumpBy _ _ => cases hlabel

end Command

/-! ## Programs one behind the other -/

namespace Program

/-- What has to hold of two programs so that the second one has room behind the first. -/
structure Joinable (p q : Program) : Prop where
  names_disjoint : ∀ name ∈ p.labels.names, name ∉ q.labels.names
  fits : p.words.length + q.words.length ≤ slotCount
  slots_lt : ∀ slot ∈ q.labels.slots, p.words.length + slot < slotCount
  /-- A last label without an instruction and a label of the first instruction would share a slot. -/
  ends_unlabelled : ¬ (p.words.length ∈ p.labels.slots ∧ 0 ∈ q.labels.slots)

/-- The second program behind the first: its labels and its jumps move. -/
def append (p q : Program) : Program :=
  { words := p.words ++ q.words.map (Word.relocate p.words.length)
    labels := p.labels ++ q.labels.shift p.words.length }

end Program

theorem map_linked_append {limit : Nat} {source : Text} (h : Assembles limit source)
    (others : LabelTable) :
    (instructions (statements source)).map
        (wordOf (Command.linked (definitions (statements source) ++ others))) =
      (program (statements source)).words := by
  apply List.map_congr_left
  intro body hbody
  obtain ⟨c, hc, hlabels⟩ := exists_command_of_assembles h hbody
  rw [wordOf_of_writtenAs hc, wordOf_of_writtenAs hc]
  exact Command.linked_append_left hlabels others

section Append

variable {limit : Nat} {source other : Text} (hs : Assembles limit source)
  (ht : Assembles limit other)

theorem length_words_program (ss : List Statement) :
    (program ss).words.length = (instructions ss).length := List.length_map _

include hs ht

theorem assembles_append_iff : Assembles limit (source ++ '\n' :: other) ↔
    (program (statements source)).Joinable (program (statements other)) := by
  have hvalid := valid_append_shift_iff hs.labels_valid ht.labels_valid
    (slot_le_of_mem_definitions (statements source))
  rw [← definitions_append, ← statements_append] at hvalid
  have hlength : (instructions (statements (source ++ '\n' :: other))).length =
      (instructions (statements source)).length + (instructions (statements other)).length := by
    rw [statements_append, instructions_append, List.length_append]
  constructor
  · intro h
    obtain ⟨hdisjoint, hlt, hends⟩ := hvalid.mp h.labels_valid
    have hfits := h.encodable.fits
    rw [hlength] at hfits
    rw [← length_words_program] at hlt hends
    rw [← length_words_program, ← length_words_program] at hfits
    exact ⟨hdisjoint, hfits, hlt, hends⟩
  · rintro ⟨hdisjoint, hfits, hlt, hends⟩
    rw [length_words_program] at hlt hends
    rw [length_words_program, length_words_program] at hfits
    refine ⟨?_, ⟨?_, ?_⟩, hvalid.mpr ⟨hdisjoint, hlt, hends⟩, ?_⟩
    · rw [Text.lines_append, List.forall_mem_append]
      exact ⟨hs.short, ht.short⟩
    · rw [statements_append, instructions_append, List.forall_mem_append]
      exact ⟨hs.encodable.written, ht.encodable.written⟩
    · rw [hlength]
      exact hfits
    · intro op hop label rest hmem
      rw [statements_append, instructions_append, List.mem_append] at hmem
      rw [statements_append, definitions_append, LabelTable.names_append, LabelTable.names_shift,
        List.mem_append]
      rcases hmem with hmem | hmem
      · exact .inl (hs.targets_defined op hop label rest hmem)
      · exact .inr (ht.targets_defined op hop label rest hmem)

theorem program_append (h : (program (statements source)).Joinable (program (statements other))) :
    program (statements source ++ statements other) =
      (program (statements source)).append (program (statements other)) := by
  unfold Program.append
  rw [length_words_program]
  unfold program
  rw [definitions_append, instructions_append, List.map_append, List.map_map]
  congr 2
  · exact map_linked_append hs _
  · apply List.map_congr_left
    intro body hbody
    obtain ⟨c, hc, hlabels⟩ := exists_command_of_assembles ht hbody
    have hslots : ∀ s ∈ (definitions (statements other)).slots,
        (instructions (statements source)).length + s < 64 := by
      intro s hs
      have hlt := h.slots_lt s hs
      rw [length_words_program] at hlt
      exact Nat.lt_trans hlt (by decide)
    rw [Function.comp_apply, wordOf_of_writtenAs hc, wordOf_of_writtenAs hc]
    apply Command.linked_append_shift hc hslots
    intro label hlabel
    exact ⟨hlabels label hlabel, fun hmem => h.names_disjoint label hmem (hlabels label hlabel)⟩

end Append

theorem slotField_lt_of_joinable {limit : Nat} {other : Text} (ht : Assembles limit other)
    {p : Program} (h : p.Joinable (program (statements other))) {w : Word}
    (hw : w ∈ (program (statements other)).words) (hjump : w.isSlotJump = true) :
    p.words.length + w.slotField.toNat < slotCount := by
  obtain ⟨body, hbody, rfl⟩ := List.mem_map.mp hw
  obtain ⟨c, hc, hlabels⟩ := exists_command_of_assembles ht hbody
  have hslots := ht.labels_valid.slots_lt_field
  rw [wordOf_of_writtenAs hc] at hjump ⊢
  rw [Command.isSlotJump_linked hslots hc] at hjump
  cases hc with
  | @jump op hop label rest =>
    have hslot := slotOf_mem_slots (hlabels label rfl)
    rw [Command.linked, Command.label?, Command.word, Word.slotField_jump hop (hslots _ hslot)]
    exact h.slots_lt _ hslot
  | plain _ _ | arithmetic _ _ _ | move _ _ _ | jumpBy _ _ => cases hjump

/-- **Behind another source a source assembles to its program, moved.** -/
theorem assemble_append {config : Config} {source other : Text} {p q : Program}
    (hp : assemble config source = .ok p) (hq : assemble config other = .ok q) :
    (∀ r, assemble config (source ++ '\n' :: other) = .ok r ↔ p.Joinable q ∧ r = p.append q) ∧
    (p.Joinable q → ∀ w ∈ q.words, w.isSlotJump = true →
      p.words.length + w.slotField.toNat < slotCount) := by
  obtain ⟨hs, rfl⟩ := assembles_of_assemble hp
  obtain ⟨ht, rfl⟩ := assembles_of_assemble hq
  constructor
  · intro r
    constructor
    · intro hr
      obtain ⟨h, rfl⟩ := assembles_of_assemble hr
      have hjoin := (assembles_append_iff hs ht).mp h
      rw [statements_append]
      exact ⟨hjoin, program_append hs ht hjoin⟩
    · rintro ⟨hjoin, rfl⟩
      rw [assemble_of_assembles ((assembles_append_iff hs ht).mpr hjoin), statements_append,
        program_append hs ht hjoin]
  · intro hjoin w hw hjump
    exact slotField_lt_of_joinable ht hjoin hw hjump

theorem assemble_append_jumps :
    let source := "A: NOP\nJMP E\nE:".toList
    let other := "JEZ B\nB: SUB 7\nJMP B".toList
    let p : Program := ⟨[0x0000#16, 0x7002#16], [("A".toList, 0), ("E".toList, 2)]⟩
    let q : Program := ⟨[0x7041#16, 0x0407#16, 0x7001#16], [("B".toList, 1)]⟩
    assemble {} source = .ok p ∧ assemble {} other = .ok q ∧ p.Joinable q ∧
    assemble {} (source ++ '\n' :: other) =
      .ok ⟨[0x0000#16, 0x7002#16, 0x7043#16, 0x0407#16, 0x7003#16],
        [("A".toList, 0), ("E".toList, 2), ("B".toList, 3)]⟩ ∧
    ∀ w ∈ q.words, w.isSlotJump = true → p.words.length + w.slotField.toNat < slotCount := by
  intro source other p q
  have hp : assemble {} source = .ok p := by rfl
  have hq : assemble {} other = .ok q := by rfl
  have hjoin : p.Joinable q := ⟨by decide, by decide, by decide, by decide⟩
  have happend := assemble_append hp hq
  exact ⟨hp, hq, hjoin, (happend.1 _).mpr ⟨hjoin, by decide⟩, happend.2 hjoin⟩

end Assembly

end ExecutionNode
