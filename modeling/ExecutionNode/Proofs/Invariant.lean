import ExecutionNode.Proofs.Assembling
import ExecutionNode.Proofs.Encoding

/-!
# The state of the pass

What holds between two lines, whatever the lines were, and what the linker makes of it. Each
reference leads to one jump whose slot field is still clear, so the linker sets that field and
nothing else.
-/

namespace ExecutionNode.Assembly

theorem getLast?_eq_some_iff_largest {l : List Nat} (hl : l.Pairwise (· ≤ ·)) {n : Nat} :
    l.getLast? = some n ↔ n ∈ l ∧ ∀ m ∈ l, m ≤ n := by
  constructor
  · intro h
    obtain ⟨init, rfl⟩ := List.getLast?_eq_some_iff.mp h
    refine ⟨by simp, ?_⟩
    rw [List.forall_mem_append]
    exact ⟨fun m hm => (List.pairwise_append.mp hl).2.2 m hm n (by simp), by simp⟩
  · rintro ⟨hmem, hle⟩
    exact (getLast?_eq_some_iff_mem hl hle).mpr hmem

theorem lookup_eq_some_iff_mem {labels : LabelTable} (h : labels.names.Nodup) {name : Text}
    {slot : Nat} : labels.lookup name = some slot ↔ (name, slot) ∈ labels := by
  constructor
  · exact mem_of_lookup
  · intro hmem
    have hlookup := lookup_slotOf (List.mem_map_of_mem hmem : name ∈ labels.names)
    have := List.inj_on_of_nodup_map h (mem_of_lookup hlookup) hmem rfl
    rw [hlookup, (Prod.mk.inj this).2]

/-! ## Between two lines -/

namespace Pass

/-- What holds of the pass when it has taken lines that say `ss`. -/
structure Invariant (ss : List Statement) (p : Pass) : Prop where
  length_words : p.words.length = (instructions ss).length
  words_fit : p.words.length ≤ slotCount
  slots_le : ∀ slot ∈ p.labels.slots, slot ≤ p.words.length
  slots_lt : ∀ slot ∈ p.labels.slots, slot < slotCount
  names_nodup : p.labels.names.Nodup
  slots_nodup : p.labels.slots.Nodup
  lastLabelled_none : p.lastLabelled = none ↔ p.labels = []
  lastLabelled_some : ∀ slot, p.lastLabelled = some slot ↔
    slot ∈ p.labels.slots ∧ ∀ s ∈ p.labels.slots, s ≤ slot
  /-- It is enough to compare the next slot with the newest labelled one. -/
  lastLabelled_next : p.lastLabelled = some p.next ↔ p.next ∈ p.labels.slots
  references_ascend : p.references.Pairwise fun q r => q.slot < r.slot
  references_lt : ∀ r ∈ p.references, r.slot < p.words.length
  references_jumps : ∀ (k : Nat) (label : Text), (∃ r ∈ p.references, r.slot = k ∧ r.label = label) ↔
    ∃ op ∈ Opcode.labelJumps, ∃ rest, (instructions ss)[k]? = some (op.mnemonic :: label :: rest)
  jump_words : ∀ (k : Nat), ∀ op ∈ Opcode.labelJumps, ∀ label rest,
    (instructions ss)[k]? = some (op.mnemonic :: label :: rest) →
      p.words[k]? = some op.base ∧ op.base.slotField = 0#6

theorem takeLines_eq_ok_iff {limit : Nat} {ls : List Text} {p : Pass} :
    (takeLines limit {} 1 ls).result = .ok p ↔
      Accepted limit ls ∧ p = ofStatements (ls.map .ofSourceLine) := by
  rw [takeLines_result, okUnless_eq_ok_iff, ← accepted_iff_firstFault?]

theorem invariant_ofStatements {limit : Nat} {ls : List Text} (h : Accepted limit ls) :
    (ofStatements (ls.map .ofSourceLine)).Invariant (ls.map .ofSourceLine) := by
  have hlength : (ofStatements (ls.map .ofSourceLine)).words.length =
      (instructions (ls.map .ofSourceLine)).length := next_ofStatements _
  have hascend := slots_ascend (ls.map Statement.ofSourceLine)
  refine ⟨hlength, ?_, ?_, h.labels_valid.slots_lt, h.labels_valid.names_nodup,
    h.labels_valid.slots_nodup, ?_, fun slot => getLast?_eq_some_iff_largest hascend,
    lastLabelled_ofStatements _, ?_, ?_, ?_, ?_⟩
  · rw [hlength]
    exact h.encodable.fits
  · rw [hlength]
    exact slot_le_of_mem_definitions _
  · simp [ofStatements, LabelTable.slots]
  · exact (Assembly.references_ascend _).imp And.right
  · rw [hlength]
    exact slot_lt_of_mem_references _
  · intro k label
    exact exists_reference_at_iff
  · intro k op hop label rest hbody
    have hword := wordOf_of_writtenAs (.jump hop label rest) Command.word
    refine ⟨?_, Word.slotField_base op hop⟩
    rw [ofStatements, List.getElem?_map, hbody, Option.map_some, hword]
    rfl

end Pass

/-! ## Linking -/

theorem clearSlot_withSlot (slot : Nat) (w : Word) : (withSlot slot w).clearSlot = w.clearSlot := by
  have hmasked : Word.clearSlot (BitVec.ofNat 16 slot &&& Word.slotMask) = 0#16 := by
    rw [Word.clearSlot, BitVec.and_assoc, BitVec.and_not_self]
    exact BitVec.and_zero
  rw [withSlot, Word.clearSlot_or, hmasked, BitVec.or_zero]

theorem withSlot_eq_setSlot {slot : Nat} (h : slot < 64) {w : Word} (hw : w.slotField = 0#6) :
    withSlot slot w = w.setSlot slot := by
  rw [withSlot_of_lt h, Word.setSlot, Word.clearSlot_of_slotField hw]

theorem map_modify_of_eq {α β : Type} {f : α → α} {g : α → β} (h : ∀ a, g (f a) = g a)
    (l : List α) (i : Nat) : (l.modify i f).map g = l.map g := by
  induction l generalizing i with
  | nil => simp
  | cons a l ih => cases i <;> simp [h, ih]

theorem map_clearSlot_patch (labels : LabelTable) (words : List Word) (refs : List Reference) :
    (patch labels words refs).map Word.clearSlot = words.map Word.clearSlot := by
  induction refs generalizing words with
  | nil => rfl
  | cons r rest ih =>
    unfold patch at ih ⊢
    rw [List.foldl_cons, ih]
    exact map_modify_of_eq (clearSlot_withSlot _) words r.slot

theorem link_eq_ok_iff {labels : LabelTable} {words ws : List Word} {refs : List Reference} :
    (link labels words refs).result = .ok ws ↔
      (∀ r ∈ refs, r.label ∈ labels.names) ∧ ws = patch labels words refs := by
  rw [link_result, okUnless_eq_ok_iff, undefinedFault?_eq_none_iff]

namespace Pass

/-- The linker finds the words that the references are for, and sets their slot fields. -/
structure LinksInPlace (p : Pass) : Prop where
  slots_fit : ∀ slot ∈ p.labels.slots,
    slot % 256 = slot ∧ BitVec.ofNat 16 slot &&& Word.slotMask = BitVec.ofNat 16 slot
  /-- Behind any references that are linked, the next one finds its word with a clear field. -/
  assigns : ∀ before r after, p.references = before ++ r :: after →
    ∀ ws, (link p.labels p.words before).result = .ok ws →
      ∃ w, ws[r.slot]? = some w ∧ w.slotField = 0#6 ∧
        ∀ slot, p.labels.lookup r.label = some slot →
          withSlot slot w = w.setSlot slot ∧ (withSlot slot w).slotField.toNat = slot
  frame : ∀ ws, (link p.labels p.words p.references).result = .ok ws →
    ws.length = p.words.length ∧
    ∀ (k : Nat) (w : Word), p.words[k]? = some w →
      ∃ w', ws[k]? = some w' ∧ w'.clearSlot = w.clearSlot ∧
        ((∀ r ∈ p.references, r.slot ≠ k) → w' = w)

theorem Invariant.linksInPlace {ss : List Statement} {p : Pass} (h : p.Invariant ss) :
    p.LinksInPlace := by
  have hfit : ∀ slot ∈ p.labels.slots, slot < 64 := fun slot hslot =>
    Nat.lt_trans (h.slots_lt slot hslot) (by decide)
  refine ⟨?_, ?_, ?_⟩
  · intro slot hslot
    have := hfit slot hslot
    exact ⟨by omega, ofNat_and_slotMask this⟩
  · intro before r after hrefs ws hws
    obtain ⟨-, rfl⟩ := link_eq_ok_iff.mp hws
    obtain ⟨op, hop, rest, hbody⟩ :=
      (h.references_jumps r.slot r.label).mp ⟨r, by simp [hrefs], rfl, rfl⟩
    obtain ⟨hword, hfield⟩ := h.jump_words r.slot op hop r.label rest hbody
    -- The references before `r` have lower slots, so its word is the one the pass has left.
    have hascend := h.references_ascend
    rw [hrefs] at hascend
    have hbefore : ∀ q ∈ before, q.slot ≠ r.slot := fun q hq =>
      Nat.ne_of_lt ((List.pairwise_append.mp hascend).2.2 q hq r List.mem_cons_self)
    refine ⟨op.base, ?_, hfield, ?_⟩
    · rw [getElem?_patch_of_ne _ _ hbefore, hword]
    · intro slot hslot
      have hlt := hfit slot (List.mem_map_of_mem (mem_of_lookup hslot))
      rw [withSlot_eq_setSlot hlt hfield]
      exact ⟨rfl, Word.slotField_setSlot hlt _⟩
  · intro ws hws
    obtain ⟨-, rfl⟩ := link_eq_ok_iff.mp hws
    refine ⟨length_patch _ _ _, ?_⟩
    intro k w hw
    have hclear := congrArg (·[k]?) (map_clearSlot_patch p.labels p.words p.references)
    simp only [List.getElem?_map, hw, Option.map_some, Option.map_eq_some_iff] at hclear
    obtain ⟨w', hw', hclear⟩ := hclear
    refine ⟨w', hw', hclear, ?_⟩
    intro hne
    rw [getElem?_patch_of_ne _ _ hne, hw] at hw'
    exact (Option.some.inj hw').symm

end Pass

/-! ## The slots of jumps -/

/-- The label is defined, and no instruction follows, not even on its line. -/
def DefinedAtEnd (ss : List Statement) (label : Text) : Prop :=
  ∃ i s, ss[i]? = some s ∧ s.label = some label ∧ ∀ t ∈ ss.drop i, t.body = []

theorem instructions_eq_nil_iff {ss : List Statement} :
    instructions ss = [] ↔ ∀ s ∈ ss, s.body = [] := by
  simp [instructions]

theorem length_instructions_take_iff {ss : List Statement} {i : Nat} :
    (instructions (ss.take i)).length = (instructions ss).length ↔
      ∀ t ∈ ss.drop i, t.body = [] := by
  have happend := instructions_append (ss.take i) (ss.drop i)
  rw [List.take_append_drop] at happend
  rw [happend, List.length_append, ← instructions_eq_nil_iff, ← List.length_eq_zero_iff]
  omega

theorem definedAtEnd_iff {ss : List Statement} {label : Text} :
    DefinedAtEnd ss label ↔ (label, (instructions ss).length) ∈ definitions ss := by
  unfold DefinedAtEnd
  simp only [mem_definitions_iff, ← length_instructions_take_iff, eq_comm]

/-- Jumps stay within the program or go to its end. -/
structure Program.JumpsWithin (ss : List Statement) (p : Program) : Prop where
  jumps : ∀ (k : Nat), ∀ op ∈ Opcode.labelJumps, ∀ label rest,
    (instructions ss)[k]? = some (op.mnemonic :: label :: rest) →
      ∃ slot w, p.labels.lookup label = some slot ∧ p.words[k]? = some w ∧
        w = op.base.setSlot slot ∧ w.slotField.toNat = slot ∧
        slot ≤ p.words.length ∧ (slot = p.words.length ↔ DefinedAtEnd ss label)
  one_at_end : ∀ a b, p.labels.lookup a = some p.words.length →
    p.labels.lookup b = some p.words.length → a = b

theorem jumpsWithin_of_assembles {limit : Nat} {source : Text} (h : Assembles limit source) :
    (program (statements source)).JumpsWithin (statements source) := by
  have hlength : (program (statements source)).words.length =
      (instructions (statements source)).length := List.length_map _
  have hnodup := h.labels_valid.names_nodup
  refine ⟨?_, ?_⟩
  · intro k op hop label rest hbody
    have hmem := h.targets_defined op hop label rest (List.mem_of_getElem? hbody)
    have hslot := slotOf_mem_slots hmem
    have hlt := h.labels_valid.slots_lt_field _ hslot
    have hword := wordOf_of_writtenAs (.jump hop label rest)
      (Command.linked (definitions (statements source)))
    refine ⟨_, _, lookup_slotOf hmem, ?_, rfl, Word.slotField_setSlot hlt _, ?_, ?_⟩
    · rw [program, List.getElem?_map, hbody, Option.map_some, hword, Word.setSlot_base hop]
      rfl
    · rw [hlength]
      exact slot_le_of_mem_definitions _ _ hslot
    · rw [hlength, definedAtEnd_iff, ← lookup_eq_some_iff_mem hnodup, lookup_slotOf hmem,
        Option.some_inj]
      rfl
  · intro a b ha hb
    have := List.inj_on_of_nodup_map h.labels_valid.slots_nodup (mem_of_lookup ha)
      (mem_of_lookup hb) rfl
    exact (Prod.mk.inj this).1

/-- **The invariant of the pass, and what it gives the linker and the program.** -/
theorem pass_invariant (config : Config) :
    (∀ ls p, (Pass.takeLines config.maxLineLength {} 1 ls).result = .ok p →
      p.Invariant (ls.map .ofSourceLine) ∧ p.LinksInPlace) ∧
    ∀ source p, assemble config source = .ok p → p.JumpsWithin (statements source) := by
  constructor
  · intro ls p hp
    obtain ⟨haccepted, rfl⟩ := Pass.takeLines_eq_ok_iff.mp hp
    have hinvariant := Pass.invariant_ofStatements haccepted
    exact ⟨hinvariant, hinvariant.linksInPlace⟩
  · intro source p hp
    obtain ⟨h, rfl⟩ := assembles_of_assemble hp
    exact jumpsWithin_of_assembles h

theorem pass_invariant_end_label :
    let source := "A: JMP E\nJEZ A\nE: # end".toList
    let p : Pass :=
      { words := [0x7000#16, 0x7040#16]
        labels := [("A".toList, 0), ("E".toList, 2)]
        lastLabelled := some 2
        references := [⟨0, "E".toList, 1⟩, ⟨1, "A".toList, 2⟩] }
    let program : Program := ⟨[0x7002#16, 0x7040#16], p.labels⟩
    (Pass.takeLines 18 {} 1 (Text.lines source)).result = .ok p ∧
    p.Invariant ((Text.lines source).map .ofSourceLine) ∧ p.LinksInPlace ∧
    assemble {} source = .ok program ∧ program.JumpsWithin (statements source) := by
  intro source p program
  have hpass : (Pass.takeLines 18 {} 1 (Text.lines source)).result = .ok p := by rfl
  have hprogram : assemble {} source = .ok program := by rfl
  obtain ⟨hinvariant, hlinks⟩ := (pass_invariant {}).1 _ p hpass
  exact ⟨hpass, hinvariant, hlinks, hprogram, (pass_invariant {}).2 source program hprogram⟩

end ExecutionNode.Assembly
