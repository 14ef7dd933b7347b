import ExecutionNode.Proofs.Listed

/-!
# Listings assemble again

The lines of a listing are accepted as long as their words decode, and its jumps go to the slots
that the lines define. So the listing assembles to the image in normal form, or it fails at the
first word that is no instruction, or else at the first jump that leaves the image.
-/

namespace ExecutionNode.Assembly

/-! ## Lines that are accepted -/

theorem forall_mem_take {α : Type} {P : α → Prop} {l : List α} {k : Nat}
    (h : ∀ j < k, ∀ a, l[j]? = some a → P a) : ∀ a ∈ l.take k, P a := by
  intro a ha
  obtain ⟨j, hj⟩ := List.mem_iff_getElem?.mp ha
  rw [List.getElem?_take] at hj
  split at hj
  · exact h j ‹j < k› a hj
  · cases hj

theorem take_append_cons_drop {α : Type} {l : List α} {k : Nat} {a : α} (h : l[k]? = some a) :
    l.take k ++ a :: l.drop (k + 1) = l ∧ (l.take k).length = k := by
  obtain ⟨hk, rfl⟩ := List.getElem?_eq_some_iff.mp h
  exact ⟨by rw [List.getElem_cons_drop, List.take_append_drop], List.length_take_of_le (by omega)⟩

theorem accepted_listedLines {limit : Nat} (hlimit : 20 ≤ limit) {words : List Word}
    (hfits : words.length ≤ slotCount) (hdecode : ∀ w ∈ words, ∃ i, w.decode = .ok i) :
    Accepted limit (listedLines words) := by
  refine ⟨?_, ?_, ?_⟩
  · intro raw hraw
    obtain ⟨⟨w, slot⟩, hmem, rfl⟩ := List.mem_map.mp hraw
    have hslot : slot < words.length := by simpa using List.snd_lt_add_of_mem_zipIdx hmem
    have hlength := Entry.length_line_le (Nat.lt_of_lt_of_le (Nat.lt_of_lt_of_le hslot hfits)
      (by decide : slotCount ≤ 100)) w
    rw [Text.dropReturn_of_printed (Entry.printed_line slot w)]
    omega
  · rw [map_ofSourceLine_listedLines, instructions_listed]
    refine ⟨?_, by rwa [List.length_map]⟩
    rw [List.forall_mem_map]
    intro w hw
    obtain ⟨i, hi⟩ := hdecode w hw
    rw [Entry.body_of_decode hi]
    exact ⟨_, Command.writtenAs_tokens (Instruction.holdable_of_decode hi)⟩
  · rw [map_ofSourceLine_listedLines, definitions_listed]
    exact valid_slotLabels hfits

theorem accepted_concat_nil {limit : Nat} {ls : List Text} (h : Accepted limit ls) :
    Accepted limit (ls ++ [[]]) :=
  accepted_concat_iff.mpr ⟨h, lineFault?_eq_none_iff.mpr ⟨Nat.zero_le limit, rfl, rfl⟩⟩

/-! ## What is refused -/

theorem lineFault?_undecodable {limit : Nat} (hlimit : 20 ≤ limit) {words : List Word}
    (hroom : words.length < slotCount) {w : Word} {e : DecodeError} (h : w.decode = .error e) :
    lineFault? limit (listed words) (Entry.line words.length w) =
      some (.unknownOpcode "<invalid>".toList) := by
  have hlength : (Text.dropReturn (Entry.line words.length w)).length ≤ limit := by
    rw [Text.dropReturn_of_printed (Entry.printed_line _ w)]
    exact Nat.le_trans (Entry.length_line_le (Nat.lt_trans hroom (by decide)) w) hlimit
  have hvalid : (definitions (listed (words ++ [w]))).Valid := by
    rw [definitions_listed, List.length_append]
    exact valid_slotLabels hroom
  rw [listed_concat, valid_definitions_concat_iff] at hvalid
  have hstatement := ofSourceLine_line words.length w
  rw [Statement.ofSourceLine] at hstatement
  unfold lineFault?
  simp only [hlength, if_true, hstatement, hvalid.2, Option.none_or]
  rw [Entry.body, h]
  rfl

theorem firstFault?_undecodable {limit : Nat} (hlimit : 20 ≤ limit) {words : List Word}
    (hfits : words.length ≤ slotCount) {k : Nat} {w : Word} {e : DecodeError}
    (hw : words[k]? = some w) (h : w.decode = .error e)
    (hbefore : ∀ j < k, ∀ v, words[j]? = some v → ∃ i, v.decode = .ok i) :
    firstFault? limit (listedLines words ++ [[]]) =
      some ⟨k + 1, .unknownOpcode "<invalid>".toList⟩ := by
  obtain ⟨hsplit, hlength⟩ := take_append_cons_drop hw
  have hroom : (words.take k).length < slotCount := by
    have := (List.getElem?_eq_some_iff.mp hw).1
    omega
  have haccepted := accepted_listedLines hlimit (Nat.le_of_lt hroom) (forall_mem_take hbefore)
  have hfault : firstFault? limit (listedLines (words.take k ++ [w])) =
      some ⟨k + 1, .unknownOpcode "<invalid>".toList⟩ := by
    rw [listedLines_concat, firstFault?_concat, accepted_iff_firstFault?.mp haccepted,
      map_ofSourceLine_listedLines, lineFault?_undecodable hlimit hroom h]
    simp [listedLines, hlength]
  obtain ⟨tail, htail⟩ := listedLines_append (words.take k ++ [w]) (words.drop (k + 1))
  rw [List.append_assoc, List.singleton_append, hsplit] at htail
  rw [htail, List.append_assoc]
  exact firstFault?_append_of_some hfault _

/-- A word that is an instruction and, if it is a jump, goes to a slot below `count`. -/
def JumpsBelow (count : Nat) (w : Word) : Prop :=
  ∃ i : Instruction, w.decode = .ok i ∧ ∀ n, i.target? = some n → n < count

theorem references_listed_concat (words : List Word) {w : Word} {i : Instruction}
    (h : w.decode = .ok i) :
    references (listed (words ++ [w])) = references (listed words) ++
      (i.target?.map fun n => ⟨words.length, Numeral.decimal n, words.length + 1⟩).toList := by
  have hwritten := Command.writtenAs_tokens (Instruction.holdable_of_decode h)
  rw [listed_concat, references_concat, Entry.body_of_decode h, reference?_of_writtenAs hwritten,
    Command.label?_ofInstruction, Option.map_map, instructions_listed, List.length_map,
    length_listed]
  rfl

theorem undefinedFault?_target (count slot line : Nat) (target : Option Nat) :
    undefinedFault? (slotLabels count)
        (target.map fun n => (⟨slot, Numeral.decimal n, line⟩ : Reference)).toList =
      (target.filter (count ≤ ·)).map fun n => ⟨line, .undefinedLabel (Numeral.decimal n)⟩ := by
  cases target with
  | none => rfl
  | some n =>
    unfold undefinedFault?
    by_cases hn : n < count
    · simp [lookup_slotLabels, hn, Option.filter_some, Nat.not_le.mpr hn]
    · simp [lookup_slotLabels, hn, Option.filter_some, Nat.not_lt.mp hn]

theorem undefinedFault?_listed {count : Nat} {words : List Word}
    (h : ∀ w ∈ words, JumpsBelow count w) :
    undefinedFault? (slotLabels count) (references (listed words)) = none := by
  induction words using List.reverseRecOn with
  | nil => rfl
  | append_singleton words w ih =>
    rw [List.forall_mem_append, List.forall_mem_singleton] at h
    obtain ⟨i, hi, htarget⟩ := h.2
    rw [references_listed_concat words hi, undefinedFault?_append, ih h.1, Option.none_or,
      undefinedFault?_target, Option.map_eq_none_iff, Option.filter_eq_none_iff]
    intro n hn
    simpa using htarget n hn

theorem undefinedFault?_leaving {count : Nat} {words : List Word} {k n : Nat} {w : Word}
    {i : Instruction} (hw : words[k]? = some w) (h : w.decode = .ok i)
    (htarget : i.target? = some n) (hn : count ≤ n)
    (hbefore : ∀ j < k, ∀ v, words[j]? = some v → JumpsBelow count v) :
    undefinedFault? (slotLabels count) (references (listed words)) =
      some ⟨k + 1, .undefinedLabel (Numeral.decimal n)⟩ := by
  obtain ⟨hsplit, hlength⟩ := take_append_cons_drop hw
  obtain ⟨later, hlater⟩ := listed_append (words.take k ++ [w]) (words.drop (k + 1))
  rw [List.append_assoc, List.singleton_append, hsplit] at hlater
  obtain ⟨tail, htail⟩ := references_append (listed (words.take k ++ [w])) later
  rw [hlater, htail, references_listed_concat _ h, undefinedFault?_append, undefinedFault?_append,
    undefinedFault?_listed (forall_mem_take hbefore), undefinedFault?_target, htarget, hlength]
  simp [hn]

/-! ## The whole listing -/

theorem wordOf_body {count : Nat} (hcount : count ≤ slotCount) {w : Word} {i : Instruction}
    (h : w.decode = .ok i) (htarget : ∀ n, i.target? = some n → n < count) :
    wordOf (Command.linked (slotLabels count)) (Entry.body w) = i.normal.word ∧
      i.normal.word.decode = .ok i.normal := by
  have hhold := Instruction.holdable_of_decode h
  have hwritten := Command.writtenAs_tokens hhold
  have hnormal : (Command.ofInstruction i).instruction (slotLabels count) = i.normal := by
    apply Command.instruction_ofInstruction hhold
    intro n hn
    rw [slotOf, lookup_slotLabels, if_pos (htarget n hn), Option.getD_some]
  have hdecode := Command.decode_linked (valid_slotLabels hcount).slots_lt_field hwritten
  rw [Command.linked_eq_word, hnormal] at hdecode
  refine ⟨?_, hdecode⟩
  rw [wordOf, Entry.body_of_decode h, ofTokens?_of_writtenAs hwritten, Option.map_some,
    Option.getD_some, Command.linked_eq_word, hnormal]

theorem assemble_listing_eq_okUnless (config : Config) (img : Image) :
    assemble config ((Listing.ofImage img).render false) = okUnless
      ((firstFault? config.maxLineLength (listedLines img.words ++ [[]])).or
        (undefinedFault? (slotLabels img.length) (references (listed img.words))))
      ⟨img.words.map fun w => wordOf (Command.linked (slotLabels img.length)) (Entry.body w),
        slotLabels img.length⟩ := by
  have hblank : Statement.ofSourceLine [] = ⟨none, []⟩ := rfl
  have hstatements : statements ((Listing.ofImage img).render false) =
      listed img.words ++ [⟨none, []⟩] := by
    rw [statements, lines_render, List.map_append, map_ofSourceLine_listedLines,
      List.map_singleton, hblank]
  have hdefinitions : definitions (listed img.words ++ [⟨none, []⟩]) = slotLabels img.length := by
    rw [definitions_concat, definitions_listed]
    exact List.append_nil _
  have hreferences : references (listed img.words ++ [⟨none, []⟩]) =
      references (listed img.words) := by
    rw [references_concat]
    exact List.append_nil _
  have hinstructions : instructions (listed img.words ++ [⟨none, []⟩]) =
      img.words.map Entry.body := by
    rw [instructions_append, instructions_nil_body, List.append_nil, instructions_listed]
  rw [assemble_eq_okUnless, lines_render, hstatements, program, hdefinitions, hreferences,
    hinstructions, List.map_map]
  rfl

theorem assemble_listing_of_jumpsBelow {config : Config} (hlimit : 20 ≤ config.maxLineLength)
    {img : Image} (h : ∀ w ∈ img.words, JumpsBelow img.length w) :
    assemble config ((Listing.ofImage img).render false) = .ok
      ⟨img.words.map fun w => wordOf (Command.linked (slotLabels img.length)) (Entry.body w),
        slotLabels img.length⟩ := by
  have haccepted := accepted_concat_nil (accepted_listedLines hlimit img.length_le fun w hw =>
    (h w hw).imp fun _ => And.left)
  rw [assemble_listing_eq_okUnless, accepted_iff_firstFault?.mp haccepted, Option.none_or,
    undefinedFault?_listed h]
  rfl

/-- **A listing assembles to its image in normal form.** It fails at the first word that is no
instruction, or else at the first jump to a slot behind the image. -/
theorem assemble_listing {config : Config} (hlimit : 20 ≤ config.maxLineLength) (img : Image) :
    ((∀ w ∈ img.words, JumpsBelow img.length w) →
      ∃ p : Program, assemble config ((Listing.ofImage img).render false) = .ok p ∧
        p.labels = slotLabels img.length ∧
        p.words.length = img.length ∧
        (∀ (k : Nat) (w : Word) (i : Instruction), img.words[k]? = some w → w.decode = .ok i →
          ∃ v : Word, p.words[k]? = some v ∧ v.decode = .ok i.normal) ∧
        ∀ (config' : Config) (source' : Text) (p' : Program),
          assemble config' source' = .ok p' → p'.words = img.words → p.words = img.words) ∧
    (∀ (k : Nat) (w : Word) (e : DecodeError), img.words[k]? = some w → w.decode = .error e →
      (∀ j < k, ∀ v, img.words[j]? = some v → ∃ i, v.decode = .ok i) →
      assemble config ((Listing.ofImage img).render false) =
        .error ⟨k + 1, .unknownOpcode "<invalid>".toList⟩) ∧
    ((∀ w ∈ img.words, ∃ i, w.decode = .ok i) →
      ∀ (k n : Nat) (w : Word) (i : Instruction), img.words[k]? = some w → w.decode = .ok i →
      i.target? = some n → img.length ≤ n →
      (∀ j < k, ∀ v, img.words[j]? = some v → JumpsBelow img.length v) →
      assemble config ((Listing.ofImage img).render false) =
        .error ⟨k + 1, .undefinedLabel (Numeral.decimal n)⟩) := by
  have hfits : img.length ≤ slotCount := img.length_le
  refine ⟨?_, ?_, ?_⟩
  · intro h
    refine ⟨_, assemble_listing_of_jumpsBelow hlimit h, rfl, List.length_map _, ?_, ?_⟩
    · intro k w i hw hi
      obtain ⟨i', hi', htarget⟩ := h w (List.mem_of_getElem? hw)
      cases hi.symm.trans hi'
      obtain ⟨hword, hdecode⟩ := wordOf_body hfits hi htarget
      refine ⟨i.normal.word, ?_, hdecode⟩
      rw [List.getElem?_map, hw, Option.map_some, hword]
    · -- Emitted words are canonical and in normal form already, so each one is its own word.
      intro config' source' p' hp' hwords
      rw [List.map_congr_left (g := id) ?_, List.map_id]
      intro w hw
      obtain ⟨i, -, hnormal, hword, hi⟩ := exists_instruction_of_mem_words hp' (hwords ▸ hw)
      obtain ⟨i', hi', htarget⟩ := h w hw
      cases hi.symm.trans hi'
      rw [(wordOf_body hfits hi htarget).1, hnormal]
      exact hword.symm
  · intro k w e hw hdecode hbefore
    rw [assemble_listing_eq_okUnless, firstFault?_undecodable hlimit img.length_le hw hdecode hbefore]
    rfl
  · intro hdecodes k n w i hw hi htarget hn hbefore
    have haccepted := accepted_concat_nil (accepted_listedLines hlimit img.length_le hdecodes)
    rw [assemble_listing_eq_okUnless, accepted_iff_firstFault?.mp haccepted, Option.none_or,
      undefinedFault?_leaving hw hi htarget hn hbefore]
    rfl

theorem assemble_listing_pairs :
    let config : Config := { maxLineLength := 20 }
    let image (w : Word) : Image := ⟨[0x03FF#16, w], Nat.zero_lt_succ 1, Nat.le_of_ble_eq_true rfl⟩
    (∃ p : Program, assemble config ((Listing.ofImage (image 0x7001#16)).render false) = .ok p ∧
      p.labels = slotLabels 2) ∧
    assemble config ((Listing.ofImage (image 0x4001#16)).render false) =
      .error ⟨2, .unknownOpcode "<invalid>".toList⟩ ∧
    assemble config ((Listing.ofImage (image 0x7042#16)).render false) =
      .error ⟨2, .undefinedLabel "2".toList⟩ := by
  intro config image
  have hlimit : 20 ≤ config.maxLineLength := Nat.le_refl 20
  have hfirst : JumpsBelow 2 0x03FF#16 := ⟨_, rfl, fun n hn => by cases hn⟩
  have hbefore : ∀ w : Word, ∀ j < 1, ∀ v, (image w).words[j]? = some v → JumpsBelow 2 v := by
    intro w j hj v hv
    cases Nat.lt_one_iff.mp hj
    cases hv
    exact hfirst
  refine ⟨?_, ?_, ?_⟩
  · have hjump : JumpsBelow 2 0x7001#16 := by
      refine ⟨_, rfl, ?_⟩
      intro n hn
      cases hn
      decide
    obtain ⟨p, hp, hlabels, -⟩ := (assemble_listing hlimit (image 0x7001#16)).1
      (List.forall_mem_cons.mpr ⟨hfirst, List.forall_mem_singleton.mpr hjump⟩)
    exact ⟨p, hp, hlabels⟩
  · exact (assemble_listing hlimit (image 0x4001#16)).2.1 1 _ _ rfl rfl
      fun j hj v hv => (hbefore _ j hj v hv).imp fun _ => And.left
  · exact (assemble_listing hlimit (image 0x7042#16)).2.2
      (List.forall_mem_cons.mpr ⟨⟨_, rfl⟩, List.forall_mem_singleton.mpr ⟨_, rfl⟩⟩)
      1 2 _ _ rfl rfl rfl (by decide) (hbefore _)

end ExecutionNode.Assembly
