import ExecutionNode.Proofs.Listed

/-!
# The mark of a word that is no instruction

A listing puts `<invalid>` in the place of a word that is no instruction. Nothing else that is
printed has an angle bracket, so a text without one has no mark.
-/

namespace ExecutionNode

theorem mark_absent {t : Text} (h : '<' ∉ t) : ¬ "<invalid>".toList <:+: t := fun hmark =>
  h (hmark.subset (by decide))

/-! ## Texts -/

namespace Numeral

theorem angle_notMem_decimal (n : Nat) : '<' ∉ decimal n := fun h =>
  absurd (isDigit_of_mem_decimal h) (by decide)

theorem angle_notMem_signedDecimal (v : Int) : '<' ∉ signedDecimal v := by
  cases v with
  | ofNat n => exact angle_notMem_decimal n
  | negSucc n => simp [signedDecimal, angle_notMem_decimal]

theorem angle_notMem_hexadecimal (width n : Nat) : '<' ∉ hexadecimal width n := by
  have hdigit : ∀ d < 16, '<' ≠ d.digitChar := by decide
  intro h
  obtain ⟨d, hd, heq⟩ := mem_hexadecimal h
  exact hdigit d hd heq

end Numeral

theorem Register.angle_notMem_name (r : Register) : '<' ∉ r.name := by cases r <;> decide

theorem Opcode.angle_notMem_mnemonic (op : Opcode) : '<' ∉ op.mnemonic := by cases op <;> decide

theorem Operand.angle_notMem_render (x : Operand) : '<' ∉ x.render := by
  cases x with
  | register r => exact r.angle_notMem_name
  | immediate v => exact Numeral.angle_notMem_signedDecimal v
  | slot n => exact Numeral.angle_notMem_decimal n

theorem Instruction.angle_notMem_render (i : Instruction) : '<' ∉ i.render := by
  unfold render
  split <;>
    simp [i.opcode.angle_notMem_mnemonic, Operand.angle_notMem_render, Register.angle_notMem_name]

theorem Word.angle_notMem_hex (w : Word) : '<' ∉ w.hex := by
  simp [hex, Numeral.angle_notMem_hexadecimal]

theorem DecodeError.angle_notMem_message (e : DecodeError) : '<' ∉ e.message := by
  obtain ⟨w⟩ := e
  intro h
  rcases List.mem_append.mp h with h | h
  · exact absurd h (by decide)
  · exact w.angle_notMem_hex h

namespace Entry

theorem angle_notMem_byteColumn (w : Word) : '<' ∉ byteColumn w := by
  simp [byteColumn, Numeral.angle_notMem_hexadecimal]

theorem angle_notMem_render {w : Word} {i : Instruction} (h : w.decode = .ok i) (slot : Nat)
    (showBytes : Bool) : '<' ∉ (ofWord slot w).render showBytes := by
  have hlabel : '<' ∉ label slot := by simp [label, Numeral.angle_notMem_decimal]
  have hcontent : '<' ∉ (ofWord slot w).content := by
    rw [content_of_decode h]
    exact i.angle_notMem_render
  have hbytes : '<' ∉ if showBytes then byteColumn w else [] := by
    cases showBytes with
    | true => exact angle_notMem_byteColumn w
    | false => exact List.not_mem_nil
  rw [render, List.mem_append, List.mem_append, List.mem_append, not_or, not_or, not_or]
  exact ⟨⟨⟨hlabel, hbytes⟩, hcontent⟩, by decide⟩

end Entry

theorem Listing.angle_notMem_render {img : Image} (h : ∀ w ∈ img.words, ∃ i, w.decode = .ok i)
    (showBytes : Bool) : '<' ∉ (Listing.ofImage img).render showBytes := by
  rw [render, ofImage, List.flatMap_map, List.mem_flatMap]
  rintro ⟨⟨w, slot⟩, hmem, hangle⟩
  obtain ⟨i, hi⟩ := h w (List.fst_mem_of_mem_zipIdx hmem)
  exact Entry.angle_notMem_render hi slot showBytes hangle

/-! ## Documents -/

namespace Json

/-- A document without an angle bracket in its strings. -/
inductive Unmarked : Json → Prop
  | number (n : Nat) : Unmarked (.number n)
  | string {t : Text} (h : '<' ∉ t) : Unmarked (.string t)
  | array {items : List Json} (h : ∀ item ∈ items, Unmarked item) : Unmarked (.array items)
  | object {members : List (Text × Json)} (hkeys : ∀ m ∈ members, '<' ∉ m.1)
      (hvalues : ∀ m ∈ members, Unmarked m.2) : Unmarked (.object members)

theorem angle_notMem_escape {c : Char} (h : c ≠ '<') : '<' ∉ escape c := by
  unfold escape
  split
  case h_8 =>
    split
    · simp [Numeral.angle_notMem_hexadecimal]
    · simpa using h.symm
  all_goals decide

theorem angle_notMem_quote {t : Text} (h : '<' ∉ t) : '<' ∉ quote t := by
  have hescaped : '<' ∉ t.flatMap escape := by
    rw [List.mem_flatMap]
    rintro ⟨c, hc, hangle⟩
    exact angle_notMem_escape (fun heq => h (heq ▸ hc)) hangle
  simp [quote, hescaped]

theorem angle_notMem_newline (level : Nat) : '<' ∉ newline level := by simp [newline]

theorem angle_notMem_indentedItems {items : List Json} {level : Nat}
    (h : ∀ item ∈ items, '<' ∉ item.indented level) : '<' ∉ indentedItems level items := by
  induction items with
  | nil => simp [indentedItems]
  | cons item rest ih =>
    rw [List.forall_mem_cons] at h
    simp [indentedItems, angle_notMem_newline, h.1, ih h.2]

theorem angle_notMem_indentedMembers {members : List (Text × Json)} {level : Nat}
    (hkeys : ∀ m ∈ members, '<' ∉ m.1) (hvalues : ∀ m ∈ members, '<' ∉ m.2.indented level) :
    '<' ∉ indentedMembers level members := by
  induction members with
  | nil => simp [indentedMembers]
  | cons m rest ih =>
    rw [List.forall_mem_cons] at hkeys hvalues
    simp [indentedMembers, angle_notMem_newline, angle_notMem_quote hkeys.1, hvalues.1,
      ih hkeys.2 hvalues.2]

theorem Unmarked.angle_notMem_indented {j : Json} (h : j.Unmarked) (level : Nat) :
    '<' ∉ j.indented level := by
  induction h generalizing level with
  | number n => simp [indented, Numeral.angle_notMem_decimal]
  | string h => simp [indented, angle_notMem_quote h]
  | @array items _ ih =>
    match items with
    | [] => simp [indented]
    | item :: rest =>
      rw [List.forall_mem_cons] at ih
      have hrest := angle_notMem_indentedItems fun item hmem => ih.2 item hmem (level + 1)
      simp [indented, angle_notMem_newline, ih.1, hrest]
  | @object members hkeys _ ih =>
    match members with
    | [] => simp [indented]
    | (key, value) :: rest =>
      rw [List.forall_mem_cons] at hkeys ih
      have hrest := angle_notMem_indentedMembers hkeys.2 fun m hmem => ih.2 m hmem (level + 1)
      simp [indented, angle_notMem_newline, angle_notMem_quote hkeys.1, ih.1, hrest]

end Json

namespace Entry

theorem json_of_decode {w : Word} {i : Instruction} (h : w.decode = .ok i) (slot : Nat) :
    (ofWord slot w).json = .object [("slot".toList, .number slot), ("word".toList, .number w.toNat),
      ("text".toList, .string i.render)] := by
  rw [json, ofWord, Word.disassemble_of_decode h]

theorem json_of_error {w : Word} {e : DecodeError} (h : w.decode = .error e) (slot : Nat) :
    (ofWord slot w).json = .object [("slot".toList, .number slot), ("word".toList, .number w.toNat),
      ("error".toList, .string e.message)] := by
  rw [json, ofWord, Word.disassemble_of_error h]

theorem unmarked_json (slot : Nat) (w : Word) : (ofWord slot w).json.Unmarked := by
  cases h : w.decode with
  | ok i =>
    rw [json_of_decode h]
    refine .object (by simp) ?_
    simpa using ⟨.number slot, .number w.toNat, .string i.angle_notMem_render⟩
  | error e =>
    rw [json_of_error h]
    refine .object (by simp) ?_
    simpa using ⟨.number slot, .number w.toNat, .string e.angle_notMem_message⟩

end Entry

theorem Listing.unmarked_json (img : Image) : (Listing.ofImage img).json.Unmarked := by
  have hentries : ∀ item ∈ (Listing.ofImage img).entries.map Entry.json, item.Unmarked := by
    rw [ofImage, List.map_map, List.forall_mem_map]
    rintro ⟨w, slot⟩ -
    exact Entry.unmarked_json slot w
  refine .object (by simp) ?_
  simpa using ⟨.number _, .array hentries⟩

end ExecutionNode
