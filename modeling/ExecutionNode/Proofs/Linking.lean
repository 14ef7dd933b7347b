import ExecutionNode.Proofs.Walk

/-!
# Linking gives every jump the slot of its label

A reference changes the one word that it belongs to, so linking the references in turn gives the
words that a direct reading gives. The first reference without a label is the fault.
-/

namespace ExecutionNode.Assembly

/-! ## References in turn -/

/-- The words with the references put in, undefined labels counting as slot 0. -/
def patch (labels : LabelTable) (words : List Word) (refs : List Reference) : List Word :=
  refs.foldl (fun ws r => ws.modify r.slot (withSlot (slotOf labels r.label))) words

/-- The fault of the first reference whose label has no definition. -/
def undefinedFault? (labels : LabelTable) (refs : List Reference) : Option Fault :=
  (refs.find? fun r => (labels.lookup r.label).isNone).map fun r => ⟨r.line, .undefinedLabel r.label⟩

theorem undefinedFault?_append (labels : LabelTable) (xs ys : List Reference) :
    undefinedFault? labels (xs ++ ys) =
      (undefinedFault? labels xs).or (undefinedFault? labels ys) := by
  unfold undefinedFault?
  rw [List.find?_append]
  cases xs.find? fun r => (labels.lookup r.label).isNone <;> rfl

theorem link_result (labels : LabelTable) (words : List Word) (refs : List Reference) :
    (link labels words refs).result =
      okUnless (undefinedFault? labels refs) (patch labels words refs) := by
  induction refs generalizing words with
  | nil => rfl
  | cons r rest ih =>
    unfold link undefinedFault?
    cases hlookup : labels.lookup r.label with
    | none =>
      rw [List.find?_cons_of_pos (by simp [hlookup])]
      rfl
    | some slot =>
      rw [List.find?_cons_of_neg (by simp [hlookup]), Logged.result_bind]
      simp only [Logged.log, bind, Except.bind, ih, patch, List.foldl_cons,
        slotOf_of_lookup hlookup]
      rfl

theorem modify_append_left {α : Type} (f : α → α) {l m : List α} {i : Nat} (h : i < l.length) :
    (l ++ m).modify i f = l.modify i f ++ m := by
  induction l generalizing i with
  | nil => simp at h
  | cons a l ih =>
    cases i with
    | zero => rfl
    | succ i =>
      simp only [List.cons_append, List.modify_succ_cons]
      rw [ih (by simpa using h)]

theorem patch_append (labels : LabelTable) (words tail : List Word) (refs : List Reference)
    (h : ∀ r ∈ refs, r.slot < words.length) :
    patch labels (words ++ tail) refs = patch labels words refs ++ tail := by
  induction refs generalizing words with
  | nil => rfl
  | cons r rest ih =>
    have hr := h r List.mem_cons_self
    unfold patch at ih ⊢
    rw [List.foldl_cons, List.foldl_cons, modify_append_left _ hr, ih]
    intro q hq
    rw [List.length_modify]
    exact h q (List.mem_cons_of_mem _ hq)

theorem length_patch (labels : LabelTable) (words : List Word) (refs : List Reference) :
    (patch labels words refs).length = words.length := by
  induction refs generalizing words with
  | nil => rfl
  | cons r rest ih =>
    unfold patch at ih ⊢
    rw [List.foldl_cons, ih, List.length_modify]

theorem getElem?_patch_of_ne (labels : LabelTable) (words : List Word) {refs : List Reference}
    {k : Nat} (h : ∀ r ∈ refs, r.slot ≠ k) :
    (patch labels words refs)[k]? = words[k]? := by
  induction refs generalizing words with
  | nil => rfl
  | cons r rest ih =>
    unfold patch at ih ⊢
    rw [List.foldl_cons, ih _ fun q hq => h q (List.mem_cons_of_mem _ hq),
      List.getElem?_modify_ne _ _ (h r List.mem_cons_self)]

/-! ## The references of a source -/

theorem reference?_eq_some_iff {l : Located} {r : Reference} :
    l.reference? = some r ↔ ∃ c, Command.ofTokens? l.statement.body = some c ∧
      c.label? = some r.label ∧ r.slot = l.slot ∧ r.line = l.line := by
  obtain ⟨slot, label, line⟩ := r
  unfold Located.reference?
  simp only [Option.bind_eq_some_iff, Option.map_eq_some_iff, Reference.mk.injEq]
  constructor
  · rintro ⟨c, hc, x, hx, rfl, rfl, rfl⟩
    exact ⟨c, hc, hx, rfl, rfl⟩
  · rintro ⟨c, hc, hx, rfl, rfl⟩
    exact ⟨c, hc, label, hx, rfl, rfl, rfl⟩

theorem reference?_of_writtenAs {c : Command} {body : List Text} (h : c.WrittenAs body)
    (label : Option Text) (line slot : Nat) :
    Located.reference? ⟨⟨label, body⟩, line, slot⟩ =
      c.label?.map fun name => ⟨slot, name, line⟩ := by
  rw [Located.reference?, ofTokens?_of_writtenAs h, Option.bind_some]

theorem wordOf_of_writtenAs {c : Command} {body : List Text} (h : c.WrittenAs body)
    (word : Command → Word) : wordOf word body = word c := by
  rw [wordOf, ofTokens?_of_writtenAs h]
  rfl

theorem instructions_of_ofTokens? {s : Statement} {c : Command}
    (h : Command.ofTokens? s.body = some c) : instructions [s] = [s.body] := by
  obtain ⟨label, body⟩ := s
  cases body with
  | nil => cases h
  | cons mnemonic operands => rfl

theorem slot_lt_of_mem_references (ss : List Statement) :
    ∀ r ∈ references ss, r.slot < (instructions ss).length := by
  induction ss using List.reverseRecOn with
  | nil => simp [references, located]
  | append_singleton ss s ih =>
    intro r hr
    rw [instructions_append, List.length_append]
    rw [references_concat, List.mem_append, Option.mem_toList] at hr
    rcases hr with hr | hr
    · have := ih r hr
      omega
    · obtain ⟨c, hc, -, hslot, -⟩ := reference?_eq_some_iff.mp hr
      rw [instructions_of_ofTokens? hc, hslot]
      simp

/-! ## Linked words -/

theorem slotOf_lt {labels : LabelTable} {n : Nat} (hn : 0 < n) (h : ∀ m ∈ labels.slots, m < n)
    (label : Text) : slotOf labels label < n := by
  unfold slotOf
  cases hlookup : labels.lookup label with
  | none => exact hn
  | some slot => exact h slot (List.mem_map_of_mem (mem_of_lookup hlookup))

theorem ofNat_and_slotMask {slot : Nat} (h : slot < 64) :
    BitVec.ofNat 16 slot &&& Word.slotMask = BitVec.ofNat 16 slot := by
  apply BitVec.eq_of_toNat_eq
  rw [BitVec.toNat_and, Word.slotMask, BitVec.toNat_ofNat, BitVec.toNat_ofNat,
    Nat.mod_eq_of_lt (by omega : slot < 2 ^ 16)]
  exact (Nat.and_two_pow_sub_one_eq_mod slot 6).trans (Nat.mod_eq_of_lt h)

theorem withSlot_of_lt {slot : Nat} (h : slot < 64) (w : Word) :
    withSlot slot w = w ||| BitVec.ofNat 16 slot := by
  rw [withSlot, ofNat_and_slotMask h]

theorem modify_length_append {α : Type} (f : α → α) (l : List α) (a : α) :
    (l ++ [a]).modify l.length f = l ++ [f a] :=
  List.modifyTailIdx_add (List.modifyHead f) 0 l [a]

theorem withSlot_slotOf {labels : LabelTable} (h : ∀ n ∈ labels.slots, n < 64) {c : Command}
    {label : Text} (hlabel : c.label? = some label) :
    withSlot (slotOf labels label) c.word = c.linked labels := by
  rw [withSlot_of_lt (slotOf_lt (by omega) h label), Command.linked, hlabel]

theorem patch_last {labels : LabelTable} (h : ∀ n ∈ labels.slots, n < 64) (words : List Word)
    (s : Statement) (line : Nat) :
    patch labels (words ++ (instructions [s]).map (wordOf Command.word))
        (Located.reference? ⟨s, line, words.length⟩).toList =
      words ++ (instructions [s]).map (wordOf (Command.linked labels)) := by
  cases hc : Command.ofTokens? s.body with
  | none =>
    have hwords : ∀ body ∈ instructions [s],
        wordOf Command.word body = wordOf (Command.linked labels) body := by
      intro body hbody
      have hs : body = s.body := by simpa using (List.mem_filter.mp hbody).1
      rw [wordOf, wordOf, hs, hc]
      rfl
    rw [Located.reference?, hc, ← List.map_congr_left hwords]
    rfl
  | some c =>
    rw [instructions_of_ofTokens? hc, Located.reference?, hc, Option.bind_some, List.map_singleton,
      List.map_singleton, wordOf, wordOf, hc, Option.map_some, Option.map_some]
    cases hlabel : c.label? with
    | none => simp [patch, Command.linked, hlabel]
    | some label =>
      rw [← withSlot_slotOf h hlabel]
      exact modify_length_append _ _ _

/-- Linking the references of a source gives each instruction its linked word. -/
theorem patch_references {labels : LabelTable} (h : ∀ n ∈ labels.slots, n < 64)
    (ss : List Statement) :
    patch labels ((instructions ss).map (wordOf Command.word)) (references ss) =
      (instructions ss).map (wordOf (Command.linked labels)) := by
  induction ss using List.reverseRecOn with
  | nil => rfl
  | append_singleton ss s ih =>
    -- The earlier references leave the last word alone, and the last one changes nothing else.
    have hslots : ∀ r ∈ references ss,
        r.slot < ((instructions ss).map (wordOf Command.word)).length := by
      simpa using slot_lt_of_mem_references ss
    have hlast := patch_last h ((instructions ss).map (wordOf (Command.linked labels))) s
      (ss.length + 1)
    rw [List.length_map] at hlast
    rw [instructions_append, List.map_append, List.map_append, references_concat, ← hlast, ← ih,
      ← patch_append labels _ _ _ hslots]
    exact List.foldl_append

end ExecutionNode.Assembly
