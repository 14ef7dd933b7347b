import ExecutionNode.Proofs.Assembling
import ExecutionNode.Proofs.Refusal

/-!
# The fault that is reported

A fault of a line is the first one, and what follows the line has no influence on it. Jumps are
looked at only when all lines are taken, and then the first one without a label is the fault.
-/

namespace ExecutionNode.Assembly

/-! ## Faults of the lines -/

theorem firstFault?_eq_some_iff {limit : Nat} {ls : List Text} {f : Fault} :
    firstFault? limit ls = some f ↔ ∃ earlier raw later, ls = earlier ++ raw :: later ∧
      firstFault? limit earlier = none ∧
      lineFault? limit (earlier.map .ofSourceLine) raw = some f.cause ∧
      f.line = earlier.length + 1 := by
  obtain ⟨line, cause⟩ := f
  constructor
  · intro h
    induction ls using List.reverseRecOn with
    | nil => cases h
    | append_singleton ls raw ih =>
      rw [firstFault?_concat, Option.or_eq_some_iff] at h
      rcases h with h | ⟨hnone, h⟩
      · obtain ⟨earlier, bad, later, rfl, hearlier⟩ := ih h
        exact ⟨earlier, bad, later ++ [raw], by simp, hearlier⟩
      · obtain ⟨cause, hcause, hf⟩ := Option.map_eq_some_iff.mp h
        cases hf
        exact ⟨ls, raw, [], rfl, hnone, hcause, rfl⟩
  · rintro ⟨earlier, raw, later, rfl, hnone, hcause, rfl⟩
    have hconcat : firstFault? limit (earlier ++ [raw]) = some ⟨earlier.length + 1, cause⟩ := by
      rw [firstFault?_concat, hnone, hcause]
      rfl
    simpa using firstFault?_append_of_some hconcat later

theorem firstFault?_take_eq_some_iff {limit : Nat} {ls : List Text} {k : Nat} {f : Fault} :
    firstFault? limit (ls.take k) = some f ↔ firstFault? limit ls = some f ∧ f.line ≤ k := by
  constructor
  · intro h
    have happend := firstFault?_append_of_some h (ls.drop k)
    rw [List.take_append_drop] at happend
    refine ⟨happend, ?_⟩
    obtain ⟨earlier, raw, later, htake, -, -, hline⟩ := firstFault?_eq_some_iff.mp h
    have hlength := congrArg List.length htake
    rw [List.length_take, List.length_append, List.length_cons] at hlength
    omega
  · rintro ⟨h, hk⟩
    obtain ⟨earlier, raw, later, rfl, hearlier⟩ := firstFault?_eq_some_iff.mp h
    obtain ⟨n, rfl⟩ := Nat.exists_eq_add_of_le (hearlier.2.2 ▸ hk)
    refine firstFault?_eq_some_iff.mpr ⟨earlier, raw, later.take n, ?_, hearlier⟩
    rw [Nat.add_assoc, List.take_length_add_append, Nat.add_comm 1, List.take_succ_cons]

theorem firstFault?_take {limit : Nat} {ls : List Text} (h : firstFault? limit ls = none) (k : Nat) :
    firstFault? limit (ls.take k) = none := by
  rw [Option.eq_none_iff_forall_ne_some] at h ⊢
  intro f hf
  exact h f (firstFault?_take_eq_some_iff.mp hf).1

/-! ## Two kinds of causes -/

/-- Whether only the linker gives this cause. -/
def Cause.isUndefined : Cause → Bool
  | undefinedLabel _ => true
  | _ => false

theorem isUndefined_eq_false_iff {cause : Cause} :
    cause.isUndefined = false ↔ ∀ label, cause ≠ .undefinedLabel label := by
  cases cause <;> simp [Cause.isUndefined]

theorem isUndefined_of_labelFault? {labels : LabelTable} {next : Nat} {label : Option Text}
    {cause : Cause} (h : labelFault? labels next label = some cause) :
    cause.isUndefined = false := by
  cases labelFault?_eq_some_iff.mp h <;> rfl

theorem isUndefined_of_bodyFault? {next : Nat} {body : List Text} {cause : Cause}
    (h : bodyFault? next body = some cause) : cause.isUndefined = false := by
  cases bodyFault?_eq_some_iff.mp h with
  | unknown _ _ | full _ _ _ => rfl
  | operands _ hrefused => cases hrefused <;> rfl

theorem isUndefined_of_lineFault? {limit : Nat} {earlier : List Statement} {raw : Text}
    {cause : Cause} (h : lineFault? limit earlier raw = some cause) : cause.isUndefined = false := by
  unfold lineFault? at h
  dsimp only at h
  split at h
  · rw [Option.or_eq_some_iff] at h
    rcases h with h | ⟨-, h⟩
    · exact isUndefined_of_labelFault? h
    · exact isUndefined_of_bodyFault? h
  · cases h
    rfl

theorem isUndefined_of_firstFault? {limit : Nat} {ls : List Text} {f : Fault}
    (h : firstFault? limit ls = some f) : f.cause.isUndefined = false := by
  obtain ⟨_, _, _, _, _, hline, _⟩ := firstFault?_eq_some_iff.mp h
  exact isUndefined_of_lineFault? hline

theorem undefinedFault?_eq_some_iff {labels : LabelTable} {refs : List Reference} {f : Fault} :
    undefinedFault? labels refs = some f ↔ ∃ before r after, refs = before ++ r :: after ∧
      (∀ q ∈ before, q.label ∈ labels.names) ∧ r.label ∉ labels.names ∧
      f = ⟨r.line, .undefinedLabel r.label⟩ := by
  simp only [undefinedFault?, Option.map_eq_some_iff, List.find?_eq_some_iff_append,
    Option.isNone_iff_eq_none, lookup_eq_none_iff, Bool.not_eq_true', Option.isNone_eq_false_iff,
    lookup_isSome_iff]
  constructor
  · rintro ⟨r, ⟨hr, before, after, rfl, hbefore⟩, rfl⟩
    exact ⟨before, r, after, rfl, hbefore, hr, rfl⟩
  · rintro ⟨before, r, after, rfl, hbefore, hr, rfl⟩
    exact ⟨r, ⟨hr, before, after, rfl, hbefore⟩, rfl⟩

section Run

variable {config : Config} {source : Text} {f : Fault}

theorem assemble_eq_error_iff : assemble config source = .error f ↔
    firstFault? config.maxLineLength (Text.lines source) = some f ∨
      firstFault? config.maxLineLength (Text.lines source) = none ∧
        undefinedFault? (definitions (statements source)) (references (statements source)) =
          some f := by
  rw [assemble_eq_okUnless]
  cases firstFault? config.maxLineLength (Text.lines source) <;>
    cases undefinedFault? (definitions (statements source)) (references (statements source)) <;>
      simp

theorem firstFault?_of_assemble (h : assemble config source = .error f)
    (hcause : f.cause.isUndefined = false) :
    firstFault? config.maxLineLength (Text.lines source) = some f := by
  rcases assemble_eq_error_iff.mp h with h | ⟨-, h⟩
  · exact h
  · obtain ⟨_, _, _, _, _, _, rfl⟩ := undefinedFault?_eq_some_iff.mp h
    cases hcause

theorem undefinedFault?_of_assemble (h : assemble config source = .error f)
    (hcause : f.cause.isUndefined = true) :
    firstFault? config.maxLineLength (Text.lines source) = none ∧
      undefinedFault? (definitions (statements source)) (references (statements source)) =
        some f := by
  rcases assemble_eq_error_iff.mp h with h | h
  · rw [isUndefined_of_firstFault? h] at hcause
    cases hcause
  · exact h

end Run

/-! ## Prefixes of a source -/

/-- The source that ends after `k` lines. -/
def firstLines (k : Nat) (source : Text) : Text := Text.unlines ((Text.lines source).take k)

/-- Every line is taken: there is a program, or only a jump is wrong. -/
def LinesTaken (config : Config) (source : Text) : Prop :=
  (∃ p, assemble config source = .ok p) ∨
    ∃ line label, assemble config source = .error ⟨line, .undefinedLabel label⟩

theorem linesTaken_iff {config : Config} {source : Text} :
    LinesTaken config source ↔ firstFault? config.maxLineLength (Text.lines source) = none := by
  constructor
  · rintro (⟨p, h⟩ | ⟨line, label, h⟩)
    · rw [assemble_eq_okUnless, okUnless_eq_ok_iff, Option.or_eq_none_iff] at h
      exact h.1.1
    · exact (undefinedFault?_of_assemble h rfl).1
  · intro h
    cases hresult : assemble config source with
    | ok p => exact .inl ⟨p, hresult⟩
    | error f =>
      refine .inr ⟨f.line, ?_⟩
      rcases assemble_eq_error_iff.mp hresult with hf | ⟨-, hf⟩
      · rw [h] at hf
        cases hf
      · obtain ⟨_, r, _, _, _, _, rfl⟩ := undefinedFault?_eq_some_iff.mp hf
        exact ⟨r.label, hresult⟩

theorem lines_firstLines {k : Nat} (hk : 0 < k) (source : Text) :
    Text.lines (firstLines k source) = (Text.lines source).take k := by
  have hne : (Text.lines source).take k ≠ [] := by
    simp [List.take_eq_nil_iff, Nat.ne_of_gt hk, Text.lines_ne_nil]
  apply Text.lines_unlines hne
  intro raw hraw
  exact Text.newline_notMem_of_mem_lines (List.mem_of_mem_take hraw)

theorem firstFault?_firstLines {limit : Nat} {source : Text} {k : Nat}
    (h : firstFault? limit ((Text.lines source).take k) = none) :
    firstFault? limit (Text.lines (firstLines k source)) = none := by
  rcases Nat.eq_zero_or_pos k with rfl | hk
  · -- A source without lines still has one, which is empty.
    rfl
  · rw [lines_firstLines hk, h]

/-! ## The reported fault -/

/-- A fault of a line, found before any label was looked up. -/
structure FoundOnLine (config : Config) (source : Text) (f : Fault) : Prop where
  line_pos : 1 ≤ f.line
  line_le : f.line ≤ (Text.lines source).length
  earlier : ∀ k < f.line, LinesTaken config (firstLines k source)
  /-- Whatever follows the line, the fault stays the same. -/
  persists : ∀ other, (Text.lines other).take f.line = (Text.lines source).take f.line →
    assemble config other = .error f

/-- A jump that has no label, found when all lines were taken. -/
structure FoundByLinker (config : Config) (source : Text) (line : Nat) (label : Text) : Prop where
  taken : ∀ k, LinesTaken config (firstLines k source)
  jump : ∃ l ∈ located (statements source), l.line = line ∧ l.statement.JumpsTo label
  undefined : ∀ s ∈ statements source, s.label ≠ some label
  earlier : ∀ l ∈ located (statements source), l.line < line →
    ∀ target, l.statement.JumpsTo target → ∃ s ∈ statements source, s.label = some target

theorem foundOnLine {config : Config} {source : Text} {f : Fault}
    (h : firstFault? config.maxLineLength (Text.lines source) = some f) :
    FoundOnLine config source f := by
  obtain ⟨earlier, raw, later, hlines, hearlier, hcause, hline⟩ := firstFault?_eq_some_iff.mp h
  have hlength : (Text.lines source).length = earlier.length + 1 + later.length := by
    rw [hlines, List.length_append, List.length_cons]
    omega
  have htake : (Text.lines source).take f.line = earlier ++ [raw] := by
    rw [hlines, hline, List.take_length_add_append]
    rfl
  refine ⟨by omega, by omega, ?_, ?_⟩
  · intro k hk
    apply linesTaken_iff.mpr
    apply firstFault?_firstLines
    rw [hlines, List.take_append_of_le_length (by omega)]
    exact firstFault?_take hearlier k
  · intro other hother
    apply assemble_eq_error_iff.mpr
    left
    apply firstFault?_eq_some_iff.mpr
    refine ⟨earlier, raw, (Text.lines other).drop f.line, ?_, hearlier, hcause, hline⟩
    calc Text.lines other
        = (Text.lines other).take f.line ++ (Text.lines other).drop f.line :=
          (List.take_append_drop _ _).symm
      _ = earlier ++ raw :: (Text.lines other).drop f.line := by
          rw [hother, htake, List.append_assoc]
          rfl

theorem foundByLinker {config : Config} {source : Text} {line : Nat} {label : Text}
    (htaken : firstFault? config.maxLineLength (Text.lines source) = none)
    (h : undefinedFault? (definitions (statements source)) (references (statements source)) =
      some ⟨line, .undefinedLabel label⟩) :
    FoundByLinker config source line label := by
  obtain ⟨before, r, after, hrefs, hbefore, hr, hf⟩ := undefinedFault?_eq_some_iff.mp h
  cases hf
  have hmem : r ∈ references (statements source) := by simp [hrefs]
  refine ⟨?_, ?_, ?_, ?_⟩
  · intro k
    exact linesTaken_iff.mpr (firstFault?_firstLines (firstFault?_take htaken k))
  · obtain ⟨l, hl, hjump, -, hline⟩ := mem_references_iff.mp hmem
    exact ⟨l, hl, hline.symm, hjump⟩
  · intro s hs hlabel
    exact hr (mem_names_definitions_iff.mpr ⟨s, hs, hlabel⟩)
  · intro l hl hlt target hjump
    apply mem_names_definitions_iff.mp
    have hq : (⟨l.slot, target, l.line⟩ : Reference) ∈ references (statements source) :=
      mem_references_iff.mpr ⟨l, hl, hjump, rfl, rfl⟩
    apply hbefore ⟨l.slot, target, l.line⟩
    rw [← filter_references_line_lt hrefs, List.mem_filter]
    exact ⟨hq, by simpa using hlt⟩

/-- **The first fault is the one that is reported.** -/
theorem assemble_reports_first_fault {config : Config} {source : Text} {f : Fault}
    (h : assemble config source = .error f) :
    ((∀ label, f.cause ≠ .undefinedLabel label) → FoundOnLine config source f) ∧
    ∀ label, f.cause = .undefinedLabel label → FoundByLinker config source f.line label := by
  constructor
  · intro hcause
    exact foundOnLine (firstFault?_of_assemble h (isUndefined_eq_false_iff.mpr hcause))
  · intro label hcause
    obtain ⟨htaken, hundefined⟩ := undefinedFault?_of_assemble h (by rw [hcause]; rfl)
    apply foundByLinker htaken
    rw [hundefined, ← hcause]

theorem assemble_reports_first_fault_jumps :
    let late := "JMP X\nADD 1\nBAD\nJRO 5".toList
    let unlinked := "JMP E\nJMP X\nE: JEZ Y".toList
    assemble {} late = .error ⟨3, .unknownOpcode "BAD".toList⟩ ∧
    FoundOnLine {} late ⟨3, .unknownOpcode "BAD".toList⟩ ∧
    assemble {} unlinked = .error ⟨2, .undefinedLabel "X".toList⟩ ∧
    FoundByLinker {} unlinked 2 "X".toList := by
  intro late unlinked
  have hlate : assemble {} late = .error ⟨3, .unknownOpcode "BAD".toList⟩ := by rfl
  have hunlinked : assemble {} unlinked = .error ⟨2, .undefinedLabel "X".toList⟩ := by rfl
  refine ⟨hlate, ?_, hunlinked, ?_⟩
  · exact (assemble_reports_first_fault hlate).1 (by simp)
  · exact (assemble_reports_first_fault hunlinked).2 _ rfl

end ExecutionNode.Assembly
