import ExecutionNode.Proofs.LineLimit
import ExecutionNode.Proofs.Lines

/-!
# The layout of a source

Blank lines and comments, the choice of separators, and tokens behind the operands mean nothing.
Two sources that differ in these alone are walked in step: a blank line is passed over on either
side, and all other lines are taken together.
-/

namespace ExecutionNode.Assembly

/-! ## Statements that say the same -/

/-- The same label, the same opcode, and the operands that the opcode takes. -/
structure Statement.Alike (s t : Statement) : Prop where
  label : s.label = t.label
  opcode : s.body.head? = t.body.head?
  operands : ∀ op : Opcode, s.body.head? = some op.mnemonic →
    s.body.tail.take op.arity = t.body.tail.take op.arity

theorem read_take_arity (op : Opcode) (operands : List Text) :
    Command.read op (operands.take op.arity) = Command.read op operands := by
  cases op
  case nop | swp | sav | neg => rfl
  case mov =>
    match operands with
    | [] | [_] | _ :: _ :: _ => rfl
  case add | sub | jmp | jez | jnz | jgz | jlz | jro => cases operands <;> rfl

namespace Statement.Alike

variable {s t : Statement}

theorem bodies (h : s.Alike t) : (s.body = [] ∧ t.body = []) ∨
    ∃ mnemonic xs ys, s.body = mnemonic :: xs ∧ t.body = mnemonic :: ys ∧
      ∀ op, Opcode.ofMnemonic? mnemonic = some op → Command.read op xs = Command.read op ys := by
  obtain ⟨-, hop, hoperands⟩ := h
  match hs : s.body, ht : t.body with
  | [], [] => exact .inl ⟨rfl, rfl⟩
  | [], _ :: _ | _ :: _, [] => simp [hs, ht] at hop
  | mnemonic :: xs, mnemonic' :: ys =>
    obtain rfl : mnemonic = mnemonic' := by simpa [hs, ht] using hop
    refine .inr ⟨mnemonic, xs, ys, rfl, rfl, ?_⟩
    intro op hmnemonic
    have htake : xs.take op.arity = ys.take op.arity := by
      have hhead : s.body.head? = some op.mnemonic := by
        rw [hs, Opcode.mnemonic_of_ofMnemonic? hmnemonic]
        rfl
      simpa [hs, ht] using hoperands op hhead
    rw [← read_take_arity op xs, ← read_take_arity op ys, htake]

theorem ofTokens?_eq (h : s.Alike t) : Command.ofTokens? s.body = Command.ofTokens? t.body := by
  rcases h.bodies with ⟨hs, ht⟩ | ⟨mnemonic, xs, ys, hs, ht, hread⟩
  · rw [hs, ht]
  · rw [hs, ht, Command.ofTokens?, Command.ofTokens?]
    apply Option.bind_congr
    intro op hop
    rw [hread op hop]

theorem bodyFault?_eq (h : s.Alike t) (next : Nat) :
    bodyFault? next s.body = bodyFault? next t.body := by
  rcases h.bodies with ⟨hs, ht⟩ | ⟨mnemonic, xs, ys, hs, ht, hread⟩
  · rw [hs, ht]
  · rw [hs, ht]
    cases hop : Opcode.ofMnemonic? mnemonic with
    | none => simp only [bodyFault?, hop]
    | some op => simp only [bodyFault?, hop, hread op hop]

theorem words_eq (h : s.Alike t) (word : Command → Word) :
    (instructions [s]).map (wordOf word) = (instructions [t]).map (wordOf word) := by
  obtain ⟨label, body⟩ := s
  obtain ⟨label', body'⟩ := t
  have hcommand := h.ofTokens?_eq
  rcases h.bodies with ⟨hs, ht⟩ | ⟨mnemonic, xs, ys, hs, ht, -⟩
  · dsimp only at hs ht
    rw [hs, ht, instructions_nil_body, instructions_nil_body]
  · dsimp only at hs ht hcommand
    rw [hs, ht] at hcommand ⊢
    rw [instructions_cons_body, instructions_cons_body, List.map_singleton, List.map_singleton,
      wordOf, wordOf, hcommand]

end Statement.Alike

/-! ## Walking in step -/

/-- A line with tokens, and its number. -/
structure Spoken where
  number : Nat
  raw : Text

/-- The lines that say something. -/
def spoken (ls : List Text) : List Spoken :=
  (ls.zipIdx.filter fun (raw, _) => !(lineTokens raw).isEmpty).map fun (raw, i) => ⟨i + 1, raw⟩

theorem spoken_concat_blank {raw : Text} (h : lineTokens raw = []) (ls : List Text) :
    spoken (ls ++ [raw]) = spoken ls := by
  simp [spoken, List.zipIdx_append, h]

theorem spoken_concat {raw : Text} (h : lineTokens raw ≠ []) (ls : List Text) :
    spoken (ls ++ [raw]) = spoken ls ++ [⟨ls.length + 1, raw⟩] := by
  simp [spoken, List.zipIdx_append, h]

def Spoken.Alike (l m : Spoken) : Prop :=
  (Statement.ofSourceLine l.raw).Alike (.ofSourceLine m.raw)

/-- Two sources in step: blank lines are passed over, other lines are taken in pairs. -/
inductive InStep : List Text → List Text → Prop
  | nil : InStep [] []
  | passLeft {ls ms : List Text} (h : InStep ls ms) {raw : Text} (hblank : lineTokens raw = []) :
    InStep (ls ++ [raw]) ms
  | passRight {ls ms : List Text} (h : InStep ls ms) {raw : Text} (hblank : lineTokens raw = []) :
    InStep ls (ms ++ [raw])
  | take {ls ms : List Text} (h : InStep ls ms) {raw raw' : Text} (hraw : lineTokens raw ≠ [])
    (hraw' : lineTokens raw' ≠ [])
    (halike : (Statement.ofSourceLine raw).Alike (.ofSourceLine raw')) :
    InStep (ls ++ [raw]) (ms ++ [raw'])

theorem forall₂_concat_iff {α β : Type} {R : α → β → Prop} {xs : List α} {ys : List β} {x : α}
    {y : β} : List.Forall₂ R (xs ++ [x]) (ys ++ [y]) ↔ List.Forall₂ R xs ys ∧ R x y := by
  rw [← List.forall₂_reverse_iff, List.reverse_append, List.reverse_append, List.reverse_singleton,
    List.reverse_singleton, List.singleton_append, List.singleton_append, List.forall₂_cons,
    List.forall₂_reverse_iff, and_comm]

theorem inStep_of_forall₂ {ls ms : List Text}
    (h : List.Forall₂ Spoken.Alike (spoken ls) (spoken ms)) : InStep ls ms := by
  induction ls using List.reverseRecOn generalizing ms with
  | nil =>
    induction ms using List.reverseRecOn with
    | nil => exact .nil
    | append_singleton ms raw ih =>
      by_cases hraw : lineTokens raw = []
      · rw [spoken_concat_blank hraw] at h
        exact .passRight (ih h) hraw
      · rw [spoken_concat hraw] at h
        simpa [spoken] using h.length_eq
  | append_singleton ls raw ih =>
    by_cases hraw : lineTokens raw = []
    · rw [spoken_concat_blank hraw] at h
      exact .passLeft (ih h) hraw
    · rw [spoken_concat hraw] at h
      induction ms using List.reverseRecOn with
      | nil => simpa [spoken] using h.length_eq
      | append_singleton ms raw' ihm =>
        by_cases hraw' : lineTokens raw' = []
        · rw [spoken_concat_blank hraw'] at h
          exact .passRight (ihm h) hraw'
        · rw [spoken_concat hraw', forall₂_concat_iff] at h
          exact .take (ih h.1) hraw hraw' h.2

/-! ## What two sources in step have in common -/

theorem ofSourceLine_of_blank {raw : Text} (h : lineTokens raw = []) :
    Statement.ofSourceLine raw = ⟨none, []⟩ := by
  rw [ofSourceLine_eq_iff, h]
  exact .blank

theorem map_ofSourceLine_concat_blank {raw : Text} (h : lineTokens raw = []) (ls : List Text) :
    (ls ++ [raw]).map Statement.ofSourceLine = ls.map .ofSourceLine ++ [⟨none, []⟩] := by
  rw [List.map_append, List.map_singleton, ofSourceLine_of_blank h]

theorem instructions_concat_blank (ss : List Statement) :
    instructions (ss ++ [⟨none, []⟩]) = instructions ss := by
  rw [instructions_append, instructions_nil_body, List.append_nil]

theorem definitions_concat_blank (ss : List Statement) :
    definitions (ss ++ [⟨none, []⟩]) = definitions ss := by
  rw [definitions_concat]
  exact List.append_nil _

theorem references_concat_blank (ss : List Statement) :
    references (ss ++ [⟨none, []⟩]) = references ss := by
  rw [references_concat]
  exact List.append_nil _

/-- Two lines that are taken together have these numbers. -/
def Corresponds (ls ms : List Text) (n m : Nat) : Prop :=
  ∃ l l', (l, l') ∈ (spoken ls).zip (spoken ms) ∧ l.number = n ∧ l'.number = m

/-- The same cause, on lines that correspond. -/
def Fault.Matches (ls ms : List Text) (f g : Fault) : Prop :=
  f.cause = g.cause ∧ Corresponds ls ms f.line g.line

/-- A jump of the same slot to the same label, on lines that correspond. -/
def Reference.Matches (ls ms : List Text) (q r : Reference) : Prop :=
  q.slot = r.slot ∧ q.label = r.label ∧ Corresponds ls ms q.line r.line

namespace InStep

variable {ls ms : List Text}

theorem length_spoken (h : InStep ls ms) : (spoken ls).length = (spoken ms).length := by
  induction h with
  | nil => rfl
  | passLeft h hblank ih | passRight h hblank ih => rw [spoken_concat_blank hblank, ih]
  | take h hraw hraw' halike ih =>
    rw [spoken_concat hraw, spoken_concat hraw', List.length_append, List.length_append, ih]
    rfl

theorem words_eq (h : InStep ls ms) (word : Command → Word) :
    (instructions (ls.map .ofSourceLine)).map (wordOf word) =
      (instructions (ms.map .ofSourceLine)).map (wordOf word) := by
  induction h with
  | nil => rfl
  | passLeft h hblank ih | passRight h hblank ih =>
    rw [map_ofSourceLine_concat_blank hblank, instructions_concat_blank, ih]
  | take h hraw hraw' halike ih =>
    rw [List.map_append, List.map_append, instructions_append, instructions_append,
      List.map_append, List.map_append, ih, List.map_singleton, List.map_singleton,
      halike.words_eq]

theorem length_instructions (h : InStep ls ms) :
    (instructions (ls.map .ofSourceLine)).length = (instructions (ms.map .ofSourceLine)).length := by
  have hwords := congrArg List.length (h.words_eq Command.word)
  rwa [List.length_map, List.length_map] at hwords

theorem definitions_eq (h : InStep ls ms) :
    definitions (ls.map .ofSourceLine) = definitions (ms.map .ofSourceLine) := by
  induction h with
  | nil => rfl
  | passLeft h hblank ih | passRight h hblank ih =>
    rw [map_ofSourceLine_concat_blank hblank, definitions_concat_blank, ih]
  | take h hraw hraw' halike ih =>
    rw [List.map_append, List.map_append, List.map_singleton, List.map_singleton,
      definitions_concat, definitions_concat, ih, halike.label, h.length_instructions]

theorem corresponds_concat (h : InStep ls ms) {raw raw' : Text} (hraw : lineTokens raw ≠ [])
    (hraw' : lineTokens raw' ≠ []) :
    Corresponds (ls ++ [raw]) (ms ++ [raw']) (ls.length + 1) (ms.length + 1) ∧
      ∀ n m, Corresponds ls ms n m → Corresponds (ls ++ [raw]) (ms ++ [raw']) n m := by
  unfold Corresponds
  rw [spoken_concat hraw, spoken_concat hraw', List.zip_append h.length_spoken]
  constructor
  · exact ⟨_, _, List.mem_append_right _ List.mem_cons_self, rfl, rfl⟩
  · rintro n m ⟨l, l', hmem, hl⟩
    exact ⟨l, l', List.mem_append_left _ hmem, hl⟩

theorem references_match (h : InStep ls ms) :
    List.Forall₂ (Reference.Matches ls ms) (references (ls.map .ofSourceLine))
      (references (ms.map .ofSourceLine)) := by
  induction h with
  | nil => exact .nil
  | passLeft h hblank ih | passRight h hblank ih =>
    unfold Reference.Matches Corresponds at ih ⊢
    rw [map_ofSourceLine_concat_blank hblank, references_concat_blank, spoken_concat_blank hblank]
    exact ih
  | @take ls ms h raw raw' hraw hraw' halike ih =>
    obtain ⟨hnew, hold⟩ := h.corresponds_concat hraw hraw'
    rw [List.map_append, List.map_append, List.map_singleton, List.map_singleton,
      references_concat, references_concat]
    apply List.rel_append
    · exact ih.imp fun q r hqr => ⟨hqr.1, hqr.2.1, hold _ _ hqr.2.2⟩
    · unfold Located.reference?
      rw [halike.ofTokens?_eq, h.length_instructions, List.length_map, List.length_map]
      cases hcommand : Command.ofTokens? (Statement.ofSourceLine raw').body with
      | none => exact .nil
      | some c =>
        cases hlabel : c.label? with
        | none => simp [hlabel]
        | some label => simpa [hlabel] using ⟨rfl, rfl, hnew⟩

end InStep

/-! ## The outcome -/

/-- The same program, or the same cause on lines that correspond. -/
inductive SameOutcome (source other : Text) : Except Fault Program → Except Fault Program → Prop
  | ok (p : Program) : SameOutcome source other (.ok p) (.ok p)
  | error {f g : Fault} (h : f.Matches (Text.lines source) (Text.lines other) g) :
    SameOutcome source other (.error f) (.error g)

theorem rel_or {α β : Type} {R : α → β → Prop} {a b : Option α} {c d : Option β}
    (h : Option.Rel R a c) (h' : Option.Rel R b d) : Option.Rel R (a.or b) (c.or d) := by
  cases h with
  | none => exact h'
  | some hac => exact .some hac

theorem rel_mono {α β : Type} {R S : α → β → Prop} (hRS : ∀ a b, R a b → S a b) {a : Option α}
    {b : Option β} (h : Option.Rel R a b) : Option.Rel S a b := by
  cases h with
  | none => exact .none
  | some hab => exact .some (hRS _ _ hab)

theorem firstFault?_concat_blank {limit : Nat} {raw : Text} (h : lineTokens raw = [])
    (hshort : (Text.dropReturn raw).length ≤ limit) (ls : List Text) :
    firstFault? limit (ls ++ [raw]) = firstFault? limit ls := by
  have hnone : lineFault? limit (ls.map .ofSourceLine) raw = none := by
    rw [lineFault?_eq_none_iff, ofSourceLine_of_blank h]
    exact ⟨hshort, rfl, rfl⟩
  rw [firstFault?_concat, hnone]
  exact Option.or_none

namespace InStep

variable {ls ms : List Text}

theorem lineFault?_eq (h : InStep ls ms) {limit : Nat} {raw raw' : Text}
    (hraw : (Text.dropReturn raw).length ≤ limit) (hraw' : (Text.dropReturn raw').length ≤ limit)
    (halike : (Statement.ofSourceLine raw).Alike (.ofSourceLine raw')) :
    lineFault? limit (ls.map .ofSourceLine) raw = lineFault? limit (ms.map .ofSourceLine) raw' := by
  rw [lineFault?_of_short hraw, lineFault?_of_short hraw', h.definitions_eq, h.length_instructions,
    halike.label, halike.bodyFault?_eq]

theorem firstFault?_match (h : InStep ls ms) {limit : Nat} (hls : Within limit ls)
    (hms : Within limit ms) :
    Option.Rel (Fault.Matches ls ms) (firstFault? limit ls) (firstFault? limit ms) := by
  induction h with
  | nil => exact .none
  | passLeft h hblank ih =>
    rw [within_concat_iff] at hls
    unfold Fault.Matches Corresponds at ih ⊢
    rw [firstFault?_concat_blank hblank hls.2, spoken_concat_blank hblank]
    exact ih hls.1 hms
  | passRight h hblank ih =>
    rw [within_concat_iff] at hms
    unfold Fault.Matches Corresponds at ih ⊢
    rw [firstFault?_concat_blank hblank hms.2, spoken_concat_blank hblank]
    exact ih hls hms.1
  | @take ls ms h raw raw' hraw hraw' halike ih =>
    rw [within_concat_iff] at hls hms
    obtain ⟨hnew, hold⟩ := h.corresponds_concat hraw hraw'
    rw [firstFault?_concat, firstFault?_concat, h.lineFault?_eq hls.2 hms.2 halike]
    apply rel_or
    · exact rel_mono (fun f g hfg => ⟨hfg.1, hold _ _ hfg.2⟩) (ih hls.1 hms.1)
    · cases lineFault? limit (ms.map .ofSourceLine) raw' with
      | none => exact .none
      | some cause => exact .some ⟨rfl, hnew⟩

end InStep

theorem undefinedFault?_match {ls ms : List Text} (labels : LabelTable) {qs rs : List Reference}
    (h : List.Forall₂ (Reference.Matches ls ms) qs rs) :
    Option.Rel (Fault.Matches ls ms) (undefinedFault? labels qs) (undefinedFault? labels rs) := by
  induction h with
  | nil => exact .none
  | @cons q r qs rs hqr h ih =>
    obtain ⟨-, hlabel, hlines⟩ := hqr
    rw [← List.singleton_append, ← List.singleton_append (l := rs), undefinedFault?_append,
      undefinedFault?_append]
    apply rel_or _ ih
    unfold undefinedFault?
    cases hlookup : labels.lookup r.label with
    | none => simpa [hlookup, hlabel] using Option.Rel.some ⟨rfl, hlines⟩
    | some slot => simp [hlookup, hlabel]

theorem sameOutcome_okUnless {source other : Text} {f g : Option Fault}
    (h : Option.Rel (Fault.Matches (Text.lines source) (Text.lines other)) f g) (p : Program) :
    SameOutcome source other (okUnless f p) (okUnless g p) := by
  cases h with
  | none => exact .ok p
  | some hfg => exact .error hfg

/-- Sources in step have the same program, or the same fault. -/
theorem sameOutcome_of_inStep {config : Config} {source other : Text}
    (h : InStep (Text.lines source) (Text.lines other))
    (hsource : Within config.maxLineLength (Text.lines source))
    (hother : Within config.maxLineLength (Text.lines other)) :
    SameOutcome source other (assemble config source) (assemble config other) := by
  have hprogram : program (statements source) = program (statements other) := by
    rw [program, program, statements, statements, h.definitions_eq, h.words_eq]
  rw [assemble_eq_okUnless, assemble_eq_okUnless, hprogram]
  apply sameOutcome_okUnless
  apply rel_or (h.firstFault?_match hsource hother)
  rw [statements, statements, h.definitions_eq]
  exact undefinedFault?_match _ h.references_match

/-- **The layout of a source has no influence.** The first part compares two sources, the second
one says what the layout of a line is. -/
theorem assemble_layout (config : Config) :
    (∀ source other, Within config.maxLineLength (Text.lines source) →
      Within config.maxLineLength (Text.lines other) →
      List.Forall₂ Spoken.Alike (spoken (Text.lines source)) (spoken (Text.lines other)) →
      SameOutcome source other (assemble config source) (assemble config other)) ∧
    ∀ ts raw raw', Text.LaidOut ts raw → Text.LaidOut ts raw' →
      (Statement.ofSourceLine raw).Alike (.ofSourceLine raw') ∧
        (lineTokens raw = [] ↔ lineTokens raw' = []) := by
  constructor
  · intro source other hsource hother halike
    exact sameOutcome_of_inStep (inStep_of_forall₂ halike) hsource hother
  · intro ts raw raw' hraw hraw'
    have htokens : lineTokens raw = lineTokens raw' :=
      (lineTokens_eq_iff.mpr hraw).trans (lineTokens_eq_iff.mpr hraw').symm
    have hstatement : Statement.ofSourceLine raw = .ofSourceLine raw' :=
      congrArg Statement.ofTokens htokens
    rw [hstatement, htokens]
    exact ⟨⟨rfl, rfl, fun _ _ => rfl⟩, Iff.rfl⟩

theorem assemble_layout_jump :
    let source := "L: MOV 5, ACC\nJMP M".toList
    let other := "# in\n\nL:,MOV\t5 ACC UP\r\n ,\nJMP M # out".toList
    assemble {} source = .error ⟨2, .undefinedLabel "M".toList⟩ ∧
    SameOutcome source other (assemble {} source) (assemble {} other) ∧
    (Statement.ofSourceLine "JMP M".toList).Alike (.ofSourceLine ",JMP,M#M".toList) := by
  intro source other
  have halike : List.Forall₂ Spoken.Alike (spoken (Text.lines source)) (spoken (Text.lines other)) := by
    refine .cons ⟨rfl, rfl, ?_⟩ (.cons ⟨rfl, rfl, ?_⟩ .nil) <;>
    · intro op
      cases op <;> decide
  have hsource : Within 18 (Text.lines source) := by unfold Within; decide
  have hother : Within 18 (Text.lines other) := by unfold Within; decide
  have hfirst : Text.LaidOut ["JMP".toList, "M".toList] "JMP M".toList :=
    lineTokens_eq_iff.mp rfl
  have hsecond : Text.LaidOut ["JMP".toList, "M".toList] ",JMP,M#M".toList :=
    lineTokens_eq_iff.mp rfl
  exact ⟨rfl, (assemble_layout {}).1 source other hsource hother halike,
    ((assemble_layout {}).2 _ _ _ hfirst hsecond).1⟩

end ExecutionNode.Assembly
