import ExecutionNode.Proofs.Layout

/-!
# Names of labels

The name of a label is compared with other names and serves no other purpose. So a source whose
labels get other names assembles to the same words, or fails for the same reason, whatever the
names look like.
-/

namespace ExecutionNode

/-! ## Names -/

namespace Text

/-- What can stand before the colon of a label. The name may be empty. -/
def IsName (t : Text) : Prop := ∀ c ∈ t, isSeparator c = false ∧ c ≠ '#'

instance (t : Text) : Decidable t.IsName :=
  List.decidableBAll (fun c => isSeparator c = false ∧ c ≠ '#') t

theorem isName_colon : IsName [':'] := by decide

/-- What can stand between separators. -/
structure IsToken (t : Text) : Prop where
  ne_nil : t ≠ []
  isName : t.IsName

theorem mem_of_spaced {ts : List Text} {t token : Text} (h : Spaced ts t) (htoken : token ∈ ts)
    {c : Char} (hc : c ∈ token) : c ∈ t := by
  induction h with
  | nil => cases htoken
  | separator _ _ ih => exact List.mem_cons_of_mem _ (ih htoken)
  | last _ =>
    rw [List.mem_singleton] at htoken
    rwa [← htoken]
  | token _ _ _ ih =>
    rw [List.mem_append, List.mem_cons]
    rcases List.mem_cons.mp htoken with rfl | htoken
    · exact .inl hc
    · exact .inr (.inr (ih htoken))

theorem spaced_spell {ts : List Text} (h : ∀ token ∈ ts, token.IsToken) :
    Spaced ts (spell ts) := by
  induction ts with
  | nil => exact .nil
  | cons token ts ih =>
    obtain ⟨htoken, hts⟩ := List.forall_mem_cons.mp h
    rw [spell, List.flatMap_cons, List.append_assoc]
    exact .token ⟨htoken.ne_nil, fun c hc => (htoken.isName c hc).1⟩ (by decide) (ih hts)

theorem notMem_spell {ts : List Text} {c : Char} (hblank : c ≠ ' ') (h : ∀ token ∈ ts, c ∉ token) :
    c ∉ spell ts := by
  intro hc
  obtain ⟨token, htoken, hc⟩ := List.mem_flatMap.mp hc
  rcases List.mem_append.mp hc with hc | hc
  · exact h token htoken hc
  · exact hblank (List.mem_singleton.mp hc)

theorem newline_notMem_spell {ts : List Text} (h : ∀ token ∈ ts, token.IsToken) :
    '\n' ∉ spell ts :=
  notMem_spell (by decide) fun token htoken hc =>
    absurd ((h token htoken).isName _ hc).1 (by decide)

end Text

namespace Assembly

theorem lineTokens_spell {ts : List Text} (h : ∀ token ∈ ts, token.IsToken) :
    lineTokens (Text.spell ts) = ts :=
  lineTokens_eq_iff.mpr (.plain (Text.spaced_spell h)
    (Text.notMem_spell (by decide) fun token htoken hc => ((h token htoken).isName _ hc).2 rfl))

theorem isToken_of_mem_lineTokens {raw token : Text} (h : token ∈ lineTokens raw) :
    token.IsToken := by
  obtain ⟨hne, hseparator⟩ := Text.mem_tokens h
  obtain ⟨ts, hts⟩ := Text.exists_spaced (Text.code (Text.dropReturn raw))
  rw [lineTokens, Text.tokens_of_spaced hts] at h
  refine ⟨hne, fun c hc => ⟨hseparator c hc, ?_⟩⟩
  rintro rfl
  exact Text.hash_notMem_code _ (Text.mem_of_spaced hts h hc)

/-- A text that is a name. -/
abbrev LabelName := {t : Text // t.IsName}

/-- Other names for labels. A name that is a token stays one. -/
structure Renaming where
  rename : LabelName → LabelName
  injective : Function.Injective rename
  ne_nil : ∀ name, name.val ≠ [] → (rename name).val ≠ []

/-- Texts that are no names stay as they are. -/
def Renaming.apply (f : Renaming) (t : Text) : Text :=
  if h : t.IsName then (f.rename ⟨t, h⟩).val else t

theorem Renaming.apply_of_isName (f : Renaming) {t : Text} (h : t.IsName) :
    f.apply t = (f.rename ⟨t, h⟩).val := dif_pos h

theorem Renaming.isName_apply_iff (f : Renaming) {t : Text} : (f.apply t).IsName ↔ t.IsName := by
  unfold apply
  split
  · next h => exact iff_of_true (f.rename ⟨t, h⟩).property h
  · exact Iff.rfl

theorem Renaming.apply_injective (f : Renaming) : Function.Injective f.apply := by
  intro s t h
  have hnames : s.IsName ↔ t.IsName := by
    rw [← f.isName_apply_iff, h, f.isName_apply_iff]
  by_cases hs : s.IsName
  · rw [f.apply_of_isName hs, f.apply_of_isName (hnames.mp hs)] at h
    exact congrArg Subtype.val (f.injective (Subtype.ext h))
  · have ht := hnames.not.mp hs
    rwa [apply, apply, dif_neg hs, dif_neg ht] at h

/-! ## Renaming in a source -/

variable (f : Text → Text)

/-- The first operand of a jump is the name of a label. -/
def renameBody : List Text → List Text
  | mnemonic :: label :: rest =>
    if (Opcode.ofMnemonic? mnemonic).any Opcode.isLabelJump then mnemonic :: f label :: rest
    else mnemonic :: label :: rest
  | body => body

def renameTokens : List Text → List Text
  | [] => []
  | token :: rest =>
    match labelName? token with
    | some name => (f name ++ [':']) :: renameBody f rest
    | none => renameBody f (token :: rest)

def Statement.rename (s : Statement) : Statement := ⟨s.label.map f, renameBody f s.body⟩

def LabelTable.rename (labels : LabelTable) : LabelTable :=
  labels.map fun (name, slot) => (f name, slot)

def Command.rename : Command → Command
  | .jump op label => .jump op (f label)
  | c => c

def Reference.rename (r : Reference) : Reference := { r with label := f r.label }

/-- Two causes name a label, the others a token that stands elsewhere. -/
def Cause.rename : Cause → Cause
  | .duplicateLabel label => .duplicateLabel (f label)
  | .undefinedLabel label => .undefinedLabel (f label)
  | cause => cause

def Fault.rename (e : Fault) : Fault := { e with cause := e.cause.rename f }

def Program.rename (p : Program) : Program := { p with labels := p.labels.rename f }

theorem any_isLabelJump_mnemonic {op : Opcode} (hop : op ∈ Opcode.labelJumps) :
    (Opcode.ofMnemonic? op.mnemonic).any Opcode.isLabelJump = true := by
  rw [Opcode.ofMnemonic?_mnemonic]
  exact List.contains_iff_mem.mpr hop

theorem renameBody_jump {op : Opcode} (hop : op ∈ Opcode.labelJumps) (label : Text)
    (rest : List Text) :
    renameBody f (op.mnemonic :: label :: rest) = op.mnemonic :: f label :: rest :=
  if_pos (any_isLabelJump_mnemonic hop)

theorem renameBody_cases (body : List Text) :
    (∃ op ∈ Opcode.labelJumps, ∃ label rest, body = op.mnemonic :: label :: rest) ∨
      renameBody f body = body ∧
        ∀ op ∈ Opcode.labelJumps, ∀ label rest, body ≠ op.mnemonic :: label :: rest := by
  match body with
  | [] | [_] => exact .inr ⟨rfl, by simp⟩
  | mnemonic :: label :: rest =>
    by_cases h : (Opcode.ofMnemonic? mnemonic).any Opcode.isLabelJump
    · obtain ⟨op, hop, hjump⟩ := (Option.any_eq_true _ _).mp h
      rw [← Opcode.mnemonic_of_ofMnemonic? hop]
      exact .inl ⟨op, List.contains_iff_mem.mp hjump, label, rest, rfl⟩
    · refine .inr ⟨if_neg h, ?_⟩
      rintro op hop _ _ heq
      cases heq
      exact h (any_isLabelJump_mnemonic hop)

theorem isEmpty_renameBody (body : List Text) : (renameBody f body).isEmpty = body.isEmpty := by
  rcases renameBody_cases f body with ⟨op, hop, label, rest, rfl⟩ | ⟨h, -⟩
  · rw [renameBody_jump f hop]
    rfl
  · rw [h]

theorem ofTokens_renameTokens (ts : List Text) :
    Statement.ofTokens (renameTokens f ts) = (Statement.ofTokens ts).rename f := by
  cases ts with
  | nil => rfl
  | cons token rest =>
    cases hlabel : labelName? token with
    | some name =>
      have hrenamed : labelName? (f name ++ [':']) = some (f name) := labelName?_eq_some_iff.mpr rfl
      simp [renameTokens, Statement.ofTokens, hlabel, hrenamed, Statement.rename]
    | none =>
      have hhead : ∃ rest', renameBody f (token :: rest) = token :: rest' := by
        rcases renameBody_cases f (token :: rest) with ⟨op, hop, label, others, heq⟩ | ⟨h, -⟩
        · cases heq
          exact ⟨_, renameBody_jump f hop label others⟩
        · exact ⟨rest, h⟩
      obtain ⟨rest', hrest⟩ := hhead
      simp [renameTokens, Statement.ofTokens, hlabel, Statement.rename, hrest]

theorem instructions_rename (ss : List Statement) :
    instructions (ss.map (Statement.rename f)) = (instructions ss).map (renameBody f) := by
  simp only [instructions, List.filter_map, List.map_map]
  congr 1
  apply List.filter_congr
  intro s _
  simp [Statement.rename, isEmpty_renameBody]

theorem length_instructions_rename (ss : List Statement) :
    (instructions (ss.map (Statement.rename f))).length = (instructions ss).length := by
  rw [instructions_rename, List.length_map]

theorem definitions_rename (ss : List Statement) :
    definitions (ss.map (Statement.rename f)) = (definitions ss).rename f := by
  induction ss using List.reverseRecOn with
  | nil => rfl
  | append_singleton ss s ih =>
    rw [List.map_append, List.map_singleton, definitions_concat, definitions_concat, ih,
      length_instructions_rename]
    cases h : s.label <;> simp [Statement.rename, LabelTable.rename, h]

/-! ## Commands -/

theorem read_jump {op : Opcode} (hop : op ∈ Opcode.labelJumps) (label : Text)
    (rest : List Text) : Command.read op (label :: rest) = .ok (.jump op label) := by
  simp only [Opcode.labelJumps, List.mem_cons, List.not_mem_nil, or_false] at hop
  rcases hop with rfl | rfl | rfl | rfl | rfl <;> rfl

theorem Command.rename_of_label?_eq_none {c : Command} (h : c.label? = none) :
    c.rename f = c := by
  cases c with
  | jump op label => cases h
  | plain _ | arithmetic _ _ | move _ _ | jumpBy _ => rfl

theorem ofTokens?_renameBody (body : List Text) :
    Command.ofTokens? (renameBody f body) = (Command.ofTokens? body).map (Command.rename f) := by
  rcases renameBody_cases f body with ⟨op, hop, label, rest, rfl⟩ | ⟨hbody, hjump⟩
  · rw [renameBody_jump f hop, ofTokens?_of_writtenAs (.jump hop _ rest),
      ofTokens?_of_writtenAs (.jump hop _ rest)]
    rfl
  · rw [hbody]
    cases hc : Command.ofTokens? body with
    | none => rfl
    | some c =>
      have hlabel : c.label? = none := by
        rw [Option.eq_none_iff_forall_ne_some]
        intro label hlabel
        obtain ⟨op, hop, rest, heq⟩ := label?_of_writtenAs (ofTokens?_eq_some_iff.mp hc) hlabel
        exact hjump op hop label rest heq
      rw [Option.map_some, Command.rename_of_label?_eq_none f hlabel]

theorem Command.label?_rename (c : Command) : (c.rename f).label? = c.label?.map f := by
  cases c <;> rfl

theorem references_rename (ss : List Statement) :
    references (ss.map (Statement.rename f)) = (references ss).map (Reference.rename f) := by
  induction ss using List.reverseRecOn with
  | nil => rfl
  | append_singleton ss s ih =>
    rw [List.map_append, List.map_singleton, references_concat, references_concat, ih,
      length_instructions_rename, List.length_map, List.map_append]
    congr 1
    simp only [Located.reference?, Statement.rename, ofTokens?_renameBody]
    cases Command.ofTokens? s.body with
    | none => rfl
    | some c =>
      simp only [Option.map_some, Option.bind_some, Command.label?_rename]
      cases c.label? <;> rfl

/-! ## Faults -/

theorem bodyFault?_renameBody (next : Nat) (body : List Text) :
    bodyFault? next (renameBody f body) = (bodyFault? next body).map (Cause.rename f) := by
  have hsame : bodyFault? next (renameBody f body) = bodyFault? next body := by
    rcases renameBody_cases f body with ⟨op, hop, label, rest, rfl⟩ | ⟨h, -⟩
    · rw [renameBody_jump f hop]
      simp only [bodyFault?, Opcode.ofMnemonic?_mnemonic, read_jump hop]
    · rw [h]
  rw [hsame]
  cases h : bodyFault? next body with
  | none => rfl
  | some cause =>
    cases bodyFault?_eq_some_iff.mp h with
    | unknown _ _ | full _ _ _ => rfl
    | operands _ hrefused => cases hrefused <;> rfl

section Injective

variable {f} (hf : Function.Injective f)

include hf

theorem lookup_rename (labels : LabelTable) (name : Text) :
    (labels.rename f).lookup (f name) = labels.lookup name := by
  induction labels with
  | nil => rfl
  | cons d rest ih =>
    obtain ⟨other, slot⟩ := d
    unfold LabelTable.rename at ih ⊢
    have hsame : (f name == f other) = (name == other) := by
      rw [Bool.eq_iff_iff, beq_iff_eq, beq_iff_eq, hf.eq_iff]
    rw [List.map_cons, List.lookup_cons, List.lookup_cons, hsame, ih]

theorem labelFault?_rename (labels : LabelTable) (next : Nat) (label : Option Text) :
    labelFault? (labels.rename f) next (label.map f) =
      (labelFault? labels next label).map (Cause.rename f) := by
  cases label with
  | none => rfl
  | some name =>
    have hnames : f name ∈ (labels.rename f).names ↔ name ∈ labels.names := by
      rw [← lookup_isSome_iff, lookup_rename hf, lookup_isSome_iff]
    have hslots : (labels.rename f).slots = labels.slots := by
      simp [LabelTable.slots, LabelTable.rename]
    simp only [labelFault?, Option.map_some, hnames, hslots]
    split
    · rfl
    · split <;> rfl

theorem lineFault?_rename {limit : Nat} {raw raw' : Text}
    (hraw : (Text.dropReturn raw).length ≤ limit) (hraw' : (Text.dropReturn raw').length ≤ limit)
    (h : Statement.ofSourceLine raw' = (Statement.ofSourceLine raw).rename f)
    (earlier : List Statement) :
    lineFault? limit (earlier.map (Statement.rename f)) raw' =
      (lineFault? limit earlier raw).map (Cause.rename f) := by
  rw [lineFault?_of_short hraw, lineFault?_of_short hraw', h, definitions_rename,
    length_instructions_rename, Option.map_or, ← labelFault?_rename hf, ← bodyFault?_renameBody]
  rfl

theorem firstFault?_rename {limit : Nat} {ls ms : List Text}
    (h : List.Forall₂ (fun raw raw' => lineTokens raw' = renameTokens f (lineTokens raw)) ls ms)
    (hls : Within limit ls) (hms : Within limit ms) :
    ms.map Statement.ofSourceLine = (ls.map .ofSourceLine).map (Statement.rename f) ∧
      firstFault? limit ms = (firstFault? limit ls).map (Fault.rename f) := by
  induction ls using List.reverseRecOn generalizing ms with
  | nil =>
    cases h
    exact ⟨rfl, rfl⟩
  | append_singleton ls raw ih =>
    rcases List.eq_nil_or_concat ms with rfl | ⟨ms, raw', rfl⟩
    · simpa using h.length_eq
    · rw [List.concat_eq_append] at *
      rw [forall₂_concat_iff] at h
      rw [within_concat_iff] at hls hms
      obtain ⟨hstatements, hfault⟩ := ih h.1 hls.1 hms.1
      have hstatement : Statement.ofSourceLine raw' = (Statement.ofSourceLine raw).rename f :=
        (congrArg Statement.ofTokens h.2).trans (ofTokens_renameTokens f _)
      constructor
      · simp only [List.map_append, List.map_singleton, hstatements, hstatement]
      · rw [firstFault?_concat, firstFault?_concat, hfault, hstatements, h.1.length_eq,
          lineFault?_rename hf hls.2 hms.2 hstatement, Option.map_or, Option.map_map,
          Option.map_map]
        rfl

theorem undefinedFault?_rename (labels : LabelTable) (refs : List Reference) :
    undefinedFault? (labels.rename f) (refs.map (Reference.rename f)) =
      (undefinedFault? labels refs).map (Fault.rename f) := by
  unfold undefinedFault?
  rw [List.find?_map, Option.map_map, Option.map_map]
  simp only [Function.comp_def, Reference.rename, lookup_rename hf]
  rfl

theorem linked_rename (labels : LabelTable) (c : Command) :
    (c.rename f).linked (labels.rename f) = c.linked labels := by
  cases c with
  | jump op label => simp only [Command.rename, Command.linked, Command.label?, Command.word,
      slotOf, lookup_rename hf]
  | plain _ | arithmetic _ _ | move _ _ | jumpBy _ => rfl

theorem program_rename (ss : List Statement) :
    program (ss.map (Statement.rename f)) = (program ss).rename f := by
  have hword : ∀ body, wordOf (Command.linked ((definitions ss).rename f)) (renameBody f body) =
      wordOf (Command.linked (definitions ss)) body := by
    intro body
    rw [wordOf, wordOf, ofTokens?_renameBody, Option.map_map]
    simp only [Function.comp_def, linked_rename hf]
  simp only [program, Program.rename, definitions_rename, instructions_rename, List.map_map,
    Function.comp_def, hword]

end Injective

/-! ## Sources -/

namespace Renaming

variable (f : Renaming)

/-- As many lines, and on each the same tokens but for the names of labels. -/
def Renames (source other : Text) : Prop :=
  List.Forall₂ (fun raw raw' => lineTokens raw' = renameTokens f.apply (lineTokens raw))
    (Text.lines source) (Text.lines other)

/-- A program with renamed labels, or a fault that tells the new name. -/
def outcome (result : Except Fault Program) : Except Fault Program :=
  (result.map (Program.rename f.apply)).mapError (Fault.rename f.apply)

theorem isToken_of_mem_renameBody {body : List Text}
    (h : ∀ token ∈ body, token.IsToken) :
    ∀ token ∈ renameBody f.apply body, token.IsToken := by
  rcases renameBody_cases f.apply body with ⟨op, hop, label, rest, rfl⟩ | ⟨hbody, -⟩
  · rw [renameBody_jump f.apply hop]
    simp only [List.forall_mem_cons] at h ⊢
    obtain ⟨hop, hlabel, hrest⟩ := h
    rw [f.apply_of_isName hlabel.isName]
    exact ⟨hop, ⟨f.ne_nil _ hlabel.ne_nil, Subtype.property _⟩, hrest⟩
  · rwa [hbody]

theorem isToken_of_mem_renameTokens {ts : List Text}
    (h : ∀ token ∈ ts, token.IsToken) :
    ∀ token ∈ renameTokens f.apply ts, token.IsToken := by
  cases ts with
  | nil => exact h
  | cons token rest =>
    rw [renameTokens]
    split
    · next name hlabel =>
      obtain ⟨htoken, hrest⟩ := List.forall_mem_cons.mp h
      rw [labelName?_eq_some_iff.mp hlabel] at htoken
      have hname : (f.apply name).IsName :=
        f.isName_apply_iff.mpr fun c hc => htoken.isName c (List.mem_append_left _ hc)
      refine List.forall_mem_cons.mpr ⟨⟨by simp, ?_⟩, f.isToken_of_mem_renameBody hrest⟩
      exact List.forall_mem_append.mpr ⟨hname, Text.isName_colon⟩
    · exact f.isToken_of_mem_renameBody h

theorem exists_renames (source : Text) : ∃ other, f.Renames source other := by
  have htokens : ∀ raw, ∀ token ∈ renameTokens f.apply (lineTokens raw),
      token.IsToken := fun raw =>
    f.isToken_of_mem_renameTokens fun _ => isToken_of_mem_lineTokens
  refine ⟨Text.unlines ((Text.lines source).map fun raw =>
    Text.spell (renameTokens f.apply (lineTokens raw))), ?_⟩
  rw [Renames, Text.lines_unlines, List.forall₂_map_right_iff]
  · exact List.forall₂_same.mpr fun raw _ => lineTokens_spell (htokens raw)
  · simpa using Text.lines_ne_nil source
  · intro raw hraw
    obtain ⟨raw, -, rfl⟩ := List.mem_map.mp hraw
    exact Text.newline_notMem_spell (htokens raw)

end Renaming

/-- **Names of labels have no influence.** Sources that differ in these alone have the same words
and the same labels under other names, or the same fault on the same line. -/
theorem assemble_renames (config : Config) (f : Renaming) :
    (∀ source, ∃ other, f.Renames source other) ∧
    ∀ source other, f.Renames source other → Within config.maxLineLength (Text.lines source) →
      Within config.maxLineLength (Text.lines other) →
      assemble config other = f.outcome (assemble config source) := by
  refine ⟨f.exists_renames, ?_⟩
  intro source other h hsource hother
  obtain ⟨hstatements, hfault⟩ := firstFault?_rename f.apply_injective h hsource hother
  have hother : statements other = (statements source).map (Statement.rename f.apply) := hstatements
  rw [assemble_eq_okUnless, assemble_eq_okUnless, hfault, hother, definitions_rename,
    references_rename, undefinedFault?_rename f.apply_injective, program_rename f.apply_injective,
    ← Option.map_or, ← mapError_okUnless]
  cases Option.or _ _ <;> rfl

/-- A colon behind every name. -/
def Renaming.colon : Renaming where
  rename name := ⟨name.val ++ [':'], List.forall_mem_append.mpr ⟨name.property, Text.isName_colon⟩⟩
  injective _ _ h := Subtype.ext (List.append_cancel_right (Subtype.mk.inj h))
  ne_nil name _ := by simp

theorem assemble_renames_colon :
    let source := ": NOP\nACC: JMP 5\nMOV 5, ACC\n5: JEZ ACC".toList
    let other := ":: NOP\nACC:: JMP 5:\nMOV 5, ACC\n5:: JEZ ACC:".toList
    let twice := "NOP: JMP NOP\nJMP SWP\nNOP: SWP".toList
    let otherTwice := "NOP:: JMP NOP:\nJMP SWP:\nNOP:: SWP".toList
    Renaming.colon.Renames source other ∧
    assemble {} source = .ok ⟨[0x0000#16, 0x7003#16, 0x8805#16, 0x7041#16],
      [([], 0), ("ACC".toList, 1), ("5".toList, 3)]⟩ ∧
    assemble {} other = .ok ⟨[0x0000#16, 0x7003#16, 0x8805#16, 0x7041#16],
      [(":".toList, 0), ("ACC:".toList, 1), ("5:".toList, 3)]⟩ ∧
    Renaming.colon.Renames twice otherTwice ∧
    assemble {} twice = .error ⟨3, .duplicateLabel "NOP".toList⟩ ∧
    assemble {} otherTwice = .error ⟨3, .duplicateLabel "NOP:".toList⟩ := by
  intro source other twice otherTwice
  have hsource : assemble {} source = .ok ⟨[0x0000#16, 0x7003#16, 0x8805#16, 0x7041#16],
      [([], 0), ("ACC".toList, 1), ("5".toList, 3)]⟩ := by rfl
  have htwice : assemble {} twice = .error ⟨3, .duplicateLabel "NOP".toList⟩ := by rfl
  have hrenames : Renaming.colon.Renames source other :=
    .cons (by decide) (.cons (by decide) (.cons (by decide) (.cons (by decide) .nil)))
  have hrenamesTwice : Renaming.colon.Renames twice otherTwice :=
    .cons (by decide) (.cons (by decide) (.cons (by decide) .nil))
  have hok := (assemble_renames {} Renaming.colon).2 source other hrenames
    (by unfold Within; decide) (by unfold Within; decide)
  have herror := (assemble_renames {} Renaming.colon).2 twice otherTwice hrenamesTwice
    (by unfold Within; decide) (by unfold Within; decide)
  rw [hsource] at hok
  rw [htwice] at herror
  exact ⟨hrenames, hsource, hok.trans (by decide), hrenamesTwice, htwice,
    herror.trans (by decide)⟩

end Assembly

end ExecutionNode
