import ExecutionNode.Proofs.Marks
import ExecutionNode.Proofs.Storage
import ExecutionNode.Tool.Run

/-!
# The tools together

The assembler writes a file exactly if the source assembles and the format can hold the program.
What it writes is read back as the words of the program: an image by the loader, hexadecimal text
by the reader of literals. Every word is an instruction, so none of them is marked as invalid.
-/

namespace ExecutionNode

theorem Window.loadFile_bytes (path : Text) (i : Image) :
    loadFile {} path (some i.bytes) = .ok i := by
  have hload : loadFile {} path (some i.bytes) = (Image.ofBytes i.bytes).mapError .image := rfl
  rw [hload, i.ofBytes_bytes]
  rfl

namespace Tool

namespace Outcome

/-- Whether a text stands in anything that a run puts out. -/
def Shows (r : Outcome) (t : Text) : Prop :=
  t <:+: r.stdout ∨ t <:+: r.stderr ∨ ∃ written, r.file = some (Text.toUtf8 written) ∧ t <:+: written

/-- A run that succeeds and shows no word as invalid. -/
structure Clean (r : Outcome) : Prop where
  exitCode : r.exitCode = 0
  unmarked : ¬ r.Shows "<invalid>".toList

end Outcome

theorem clean_stdout {t : Text} (h : '<' ∉ t) :
    Outcome.Clean { exitCode := 0, stdout := t } := by
  refine ⟨rfl, ?_⟩
  rintro (hout | herr | ⟨written, hfile, -⟩)
  · exact mark_absent h hout
  · exact mark_absent List.not_mem_nil herr
  · cases hfile

theorem clean_file {t : Text} (h : '<' ∉ t) :
    Outcome.Clean { exitCode := 0, file := some (Text.toUtf8 t) } := by
  refine ⟨rfl, ?_⟩
  rintro (hout | herr | ⟨written, hfile, hmark⟩)
  · exact mark_absent List.not_mem_nil hout
  · exact mark_absent List.not_mem_nil herr
  · have hread := congrArg Text.ofUtf8? (Option.some.inj hfile)
    rw [Text.ofUtf8?_toUtf8, Text.ofUtf8?_toUtf8] at hread
    cases hread
    exact mark_absent h hmark

/-! ## Disassembling -/

theorem wordLine_of_decode {w : Word} {i : Instruction} (h : w.decode = .ok i) :
    wordLine w = w.hex ++ ": ".toList ++ i.render ++ ['\n'] := by
  rw [wordLine, Word.disassemble_of_decode h]

theorem wordLines_append {literals : List Text} {words : List Word}
    (h : literals.map Word.ofLiteral = words.map .ok) (later : List Text) :
    wordLines (literals ++ later) =
      (words.flatMap wordLine ++ (wordLines later).1, (wordLines later).2) := by
  induction literals generalizing words with
  | nil =>
    cases List.map_eq_nil_iff.mp h.symm
    rfl
  | cons literal rest ih =>
    obtain ⟨w, others, rfl, hw, hothers⟩ := List.map_eq_cons_iff.mp h.symm
    rw [List.cons_append, wordLines, ← hw, ih hothers.symm, List.flatMap_cons, List.append_assoc]

theorem wordLines_eq {literals : List Text} {words : List Word}
    (h : literals.map Word.ofLiteral = words.map .ok) :
    wordLines literals = (words.flatMap wordLine, none) := by
  simpa [wordLines] using wordLines_append h []

theorem clean_runWords {literals : List Text} {words : List Word}
    (h : literals.map Word.ofLiteral = words.map .ok) (hdecode : ∀ w ∈ words, ∃ i, w.decode = .ok i) :
    (runWords literals).Clean := by
  rw [runWords, wordLines_eq h]
  apply clean_stdout
  rw [List.mem_flatMap]
  rintro ⟨w, hw, hangle⟩
  obtain ⟨i, hi⟩ := hdecode w hw
  rw [wordLine_of_decode hi] at hangle
  simp [w.angle_notMem_hex, i.angle_notMem_render] at hangle

theorem clean_runListing {l : ListingOptions} {file : Option (List UInt8)} {img : Image}
    (h : l.window.loadFile l.input file = .ok img) (hdecode : ∀ w ∈ img.words, ∃ i, w.decode = .ok i) :
    (runListing l file).Clean := by
  have hangle : '<' ∉ renderListing l (.ofImage img) := by
    unfold renderListing
    split
    · exact Listing.angle_notMem_render hdecode l.showBytes
    · simp [(Listing.unmarked_json img).angle_notMem_indented]
  rw [runListing, h]
  dsimp only
  split
  · exact clean_file hangle
  · exact clean_stdout hangle

/-! ## Arguments -/

theorem ofText?_of_isValue {t : Text} (h : isValue t = true) (known : List KnownOption) :
    Argument.ofText? known t = some (.operand t) := by
  unfold Argument.ofText?
  split <;> first | rfl | cases h

theorem readMore?_operands {known : List KnownOption} {ts : List Text}
    (h : ∀ t ∈ ts, isValue t = true) (a : Arguments) :
    a.readMore? known ts = some (a.addOperands ts) := by
  induction ts generalizing a with
  | nil => simp [Arguments.readMore?, Arguments.addOperands]
  | cons t rest ih =>
    rw [List.forall_mem_cons] at h
    rw [Arguments.readMore?, ofText?_of_isValue h.1]
    simp [ih h.2, Arguments.addOperands]

theorem ofArguments?_operands {literals : List Text} (hne : literals ≠ [])
    (h : ∀ t ∈ literals, isValue t = true) :
    Invocation.ofArguments? ("words".toList :: literals) = some (.words literals) := by
  have hread : Arguments.read? [] literals = some ⟨[], literals⟩ := readMore?_operands h {}
  have hwords : Invocation.ofArguments? ("words".toList :: literals) =
      Invocation.ofWordsArguments? literals := rfl
  rw [hwords, Invocation.ofWordsArguments?, hread]
  simp [hne]

theorem ofArguments?_words {words : List Word} (h : words ≠ []) :
    Invocation.ofArguments? ("words".toList :: words.map Word.hex) =
      some (.words (words.map Word.hex)) := by
  have hvalues : ∀ t ∈ words.map Word.hex, isValue t = true := by
    rw [List.forall_mem_map]
    exact fun w _ => rfl
  exact ofArguments?_operands (mt List.map_eq_nil_iff.mp h) hvalues

/-! ## Assembling -/

theorem bind_eq_ok_iff {ε α β : Type} {x : Except ε α} {k : α → Except ε β} {b : β} :
    x >>= k = .ok b ↔ ∃ a, x = .ok a ∧ k a = .ok b := by
  cases x <;> simp [bind, Except.bind]

theorem mapError_eq_ok_iff {ε ε' α : Type} {x : Except ε α} {f : ε → ε'} {a : α} :
    x.mapError f = .ok a ↔ x = .ok a := by
  cases x <;> simp [Except.mapError]

theorem readSource_eq_ok_iff {path : Text} {file : Option (List UInt8)} {source : Text} :
    readSource path file = .ok source ↔
      ∃ bytes, file = some bytes ∧ Text.ofUtf8? bytes = some source := by
  cases file with
  | none => simp [readSource]
  | some bytes => cases h : Text.ofUtf8? bytes <;> simp [readSource, h]

/-- A run of the assembler has a program to write. Only an image needs an instruction. -/
structure Produces (o : AssembleOptions) (file : Option (List UInt8)) (p : Assembly.Program) :
    Prop where
  assembled : ∃ bytes source, file = some bytes ∧ Text.ofUtf8? bytes = some source ∧
    Assembly.assemble o.config source = .ok p
  writable : ¬ (o.format = .bin ∧ p.words = [])

theorem exists_renderProgram_iff {config : Assembly.Config} {source : Text} {p : Assembly.Program}
    (h : Assembly.assemble config source = .ok p) (format : ProgramFormat) :
    (∃ written, renderProgram p format = .ok written) ↔ ¬ (format = .bin ∧ p.words = []) := by
  -- A program fits into an image, so only an empty one is refused.
  have hfits : p.words.length ≤ slotCount := by
    rw [Assembly.length_words h]
    exact (Assembly.assembles_of_assemble h).1.encodable.fits
  cases format with
  | bin =>
    by_cases hwords : p.words = []
    · simp [renderProgram, Image.ofWords, hwords, Except.map]
    · simp [renderProgram, Image.ofWords, hwords, List.length_pos_iff.mpr hwords, hfits, Except.map]
  | hex | json => simp [renderProgram]

theorem assembleFile_eq_ok_iff {o : AssembleOptions} {file : Option (List UInt8)}
    {written : List UInt8} :
    assembleFile o file = .ok written ↔
      ∃ p, Produces o file p ∧ renderProgram p o.format = .ok written := by
  simp only [assembleFile, bind_eq_ok_iff, mapError_eq_ok_iff, readSource_eq_ok_iff]
  constructor
  · rintro ⟨source, ⟨bytes, hfile, hsource⟩, p, hp, hwritten⟩
    have hwritable := (exists_renderProgram_iff hp o.format).mp ⟨written, hwritten⟩
    exact ⟨p, ⟨⟨bytes, source, hfile, hsource, hp⟩, hwritable⟩, hwritten⟩
  · rintro ⟨p, ⟨⟨bytes, source, hfile, hsource, hp⟩, -⟩, hwritten⟩
    exact ⟨source, ⟨bytes, hfile, hsource⟩, p, hp, hwritten⟩

/-! ## Files that are read back -/

/-- The loader gets these words from a file, and its listings are clean. -/
structure ImageFile (words : List Word) (bytes : List UInt8) : Prop where
  loads : ∀ path, ∃ img, Window.loadFile {} path (some bytes) = .ok img ∧ img.words = words
  lists : ∀ l : ListingOptions, l.window = {} →
    ((Invocation.listing l).run (some bytes)).Clean

/-- The lines of a file are literals of these words, one for each, and nothing stands behind the last
line feed. If there are any, they can be typed to be disassembled, and the result is clean. -/
structure HexFile (words : List Word) (bytes : List UInt8) : Prop where
  lines : ∃ text literals, Text.ofUtf8? bytes = some text ∧ Text.lines text = literals ++ [[]] ∧
    literals.map Word.ofLiteral = words.map .ok ∧
    (words ≠ [] →
      Invocation.ofArguments? ("words".toList :: literals) = some (.words literals) ∧
      ((Invocation.words literals).run none).Clean)

theorem imageFile_of_render {p : Assembly.Program} {written : List UInt8}
    (hdecode : ∀ w ∈ p.words, ∃ i, w.decode = .ok i) (h : renderProgram p .bin = .ok written) :
    ImageFile p.words written := by
  obtain ⟨img, himg, rfl⟩ := Assembly.map_eq_ok_iff.mp h
  have hwords := Image.words_of_ofWords himg
  rw [← hwords] at hdecode ⊢
  refine ⟨fun path => ⟨img, Window.loadFile_bytes path img, rfl⟩, ?_⟩
  intro l hl
  refine clean_runListing ?_ hdecode
  rw [hl]
  exact Window.loadFile_bytes l.input img

theorem hexFile_of_render {p : Assembly.Program} {written : List UInt8}
    (hdecode : ∀ w ∈ p.words, ∃ i, w.decode = .ok i) (h : renderProgram p .hex = .ok written) :
    HexFile p.words written := by
  cases h
  have hnewline : ∀ l ∈ p.words.map Word.hex, '\n' ∉ l := by
    rw [List.forall_mem_map]
    intro w _ hmem
    exact absurd (w.token_hex.ink _ hmem) (by decide)
  have hliterals : (p.words.map Word.hex).map Word.ofLiteral = p.words.map .ok := by
    rw [List.map_map]
    exact List.map_congr_left fun w _ => w.ofLiteral_hex
  refine ⟨_, p.words.map Word.hex, Text.ofUtf8?_toUtf8 _, ?_, hliterals, ?_⟩
  · rw [← Text.lines_flatMap hnewline, List.flatMap_map]
  · exact fun hne => ⟨ofArguments?_words hne, clean_runWords hliterals hdecode⟩

theorem decode_of_produces {o : AssembleOptions} {file : Option (List UInt8)} {p : Assembly.Program}
    (h : Produces o file p) : ∀ w ∈ p.words, ∃ i, w.decode = .ok i := by
  obtain ⟨bytes, source, -, -, hp⟩ := h.assembled
  intro w hw
  obtain ⟨i, -, -, -, hi⟩ := Assembly.exists_instruction_of_mem_words hp hw
  exact ⟨i, hi⟩

theorem runAssemble_of_produces {o : AssembleOptions} {file : Option (List UInt8)}
    {p : Assembly.Program} (h : Produces o file p) :
    ∃ written, runAssemble o file = { exitCode := 0, file := some written } ∧
      renderProgram p o.format = .ok written := by
  obtain ⟨bytes, source, -, -, hp⟩ := h.assembled
  obtain ⟨written, hwritten⟩ := (exists_renderProgram_iff hp o.format).mpr h.writable
  rw [runAssemble, assembleFile_eq_ok_iff.mpr ⟨p, h, hwritten⟩]
  exact ⟨written, rfl, hwritten⟩

theorem runAssemble_of_not_produces {o : AssembleOptions} {file : Option (List UInt8)}
    (h : ¬ ∃ p, Produces o file p) : ∃ f, runAssemble o file = .failed f [] := by
  cases hfile : assembleFile o file with
  | ok written =>
    obtain ⟨p, hp, -⟩ := assembleFile_eq_ok_iff.mp hfile
    exact absurd ⟨p, hp⟩ h
  | error f =>
    rw [runAssemble, hfile]
    exact ⟨f, rfl⟩

/-- **The two tools agree.** The assembler succeeds and writes a file exactly if there is a program
to write, it fails without a file otherwise, and what it writes is read back. -/
theorem tools_agree (o : AssembleOptions) (file : Option (List UInt8)) :
    (((Invocation.assemble o).run file).exitCode = 0 ∧
        ((Invocation.assemble o).run file).file.isSome ↔ ∃ p, Produces o file p) ∧
    ((¬ ∃ p, Produces o file p) →
      ((Invocation.assemble o).run file).exitCode = 1 ∧
        ((Invocation.assemble o).run file).file = none) ∧
    ∀ p, Produces o file p →
      ∃ written, ((Invocation.assemble o).run file).file = some written ∧
        (o.format = .bin → ImageFile p.words written) ∧
        (o.format = .hex → HexFile p.words written) := by
  rw [Invocation.run]
  refine ⟨?_, ?_, ?_⟩
  · by_cases hproduces : ∃ p, Produces o file p
    · obtain ⟨p, hp⟩ := hproduces
      obtain ⟨written, hrun, -⟩ := runAssemble_of_produces hp
      rw [hrun]
      exact iff_of_true ⟨rfl, rfl⟩ ⟨p, hp⟩
    · obtain ⟨f, hrun⟩ := runAssemble_of_not_produces hproduces
      rw [hrun]
      exact iff_of_false (fun h => Nat.one_ne_zero h.1) hproduces
  · intro hproduces
    obtain ⟨f, hrun⟩ := runAssemble_of_not_produces hproduces
    rw [hrun]
    exact ⟨rfl, rfl⟩
  · intro p hp
    obtain ⟨written, hrun, hwritten⟩ := runAssemble_of_produces hp
    have hdecode := decode_of_produces hp
    rw [hrun]
    refine ⟨written, rfl, ?_, ?_⟩
    · intro hformat
      exact imageFile_of_render hdecode (hformat ▸ hwritten)
    · intro hformat
      exact hexFile_of_render hdecode (hformat ▸ hwritten)

theorem tools_agree_jump :
    let options (format : ProgramFormat) : AssembleOptions :=
      { input := "a".toList, output := "b".toList, format }
    let file (source : Text) : Option (List UInt8) := some (Text.toUtf8 source)
    let source := "L: ADD 5\nJMP L".toList
    let words : List Word := [0x0005#16, 0x7000#16]
    (∀ format, Produces (options format) (file source) ⟨words, [("L".toList, 0)]⟩) ∧
    (∃ written, ((Invocation.assemble (options .bin)).run (file source)).file = some written ∧
      ImageFile words written) ∧
    (∃ written, ((Invocation.assemble (options .hex)).run (file source)).file = some written ∧
      HexFile words written) ∧
    ((Invocation.assemble (options .bin)).run (file "L:".toList)).exitCode = 1 ∧
    ((Invocation.assemble (options .bin)).run (file "L:".toList)).file = none := by
  intro options file source words
  have hproduces : ∀ format, Produces (options format) (file source) ⟨words, [("L".toList, 0)]⟩ := by
    intro format
    exact ⟨⟨_, source, rfl, Text.ofUtf8?_toUtf8 source, by rfl⟩, by simp [words]⟩
  have hempty : ¬ ∃ p, Produces (options .bin) (file "L:".toList) p := by
    rintro ⟨p, ⟨bytes, source, hfile, hsource, hp⟩, hwritable⟩
    cases hfile
    rw [Text.ofUtf8?_toUtf8] at hsource
    cases hsource
    have hlabel : Assembly.assemble {} "L:".toList = .ok ⟨[], [("L".toList, 0)]⟩ := by rfl
    cases hlabel.symm.trans hp
    exact hwritable ⟨rfl, rfl⟩
  obtain ⟨image, himage, hbin, -⟩ := (tools_agree (options .bin) (file source)).2.2 _ (hproduces .bin)
  obtain ⟨text, htext, -, hhex⟩ := (tools_agree (options .hex) (file source)).2.2 _ (hproduces .hex)
  exact ⟨hproduces, ⟨image, himage, hbin rfl⟩, ⟨text, htext, hhex rfl⟩,
    (tools_agree (options .bin) (file "L:".toList)).2.1 hempty⟩

end Tool

end ExecutionNode
