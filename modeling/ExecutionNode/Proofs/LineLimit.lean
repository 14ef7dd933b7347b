import ExecutionNode.Proofs.FirstFault

/-!
# The limit of a line

The limit is compared with the length of each line and enters nothing else. So a line that is too
long hides what is wrong below it, and a result that is no such fault is the same under every
larger limit.
-/

namespace ExecutionNode.Assembly

/-! ## Lines within a limit -/

/-- No line has more characters than the limit, its carriage return not counted. -/
def Within (limit : Nat) (ls : List Text) : Prop :=
  ∀ raw ∈ ls, (Text.dropReturn raw).length ≤ limit

theorem Within.mono {m n : Nat} {ls : List Text} (h : Within m ls) (hle : m ≤ n) : Within n ls :=
  fun raw hraw => Nat.le_trans (h raw hraw) hle

theorem within_concat_iff {limit : Nat} {ls : List Text} {raw : Text} :
    Within limit (ls ++ [raw]) ↔
      Within limit ls ∧ (Text.dropReturn raw).length ≤ limit := by
  unfold Within
  rw [List.forall_mem_append, List.forall_mem_singleton]

theorem within_append_iff {limit : Nat} {xs ys : List Text} :
    Within limit (xs ++ ys) ↔ Within limit xs ∧ Within limit ys := List.forall_mem_append

theorem lineFault?_of_short {limit : Nat} {raw : Text} (h : (Text.dropReturn raw).length ≤ limit)
    (earlier : List Statement) :
    lineFault? limit earlier raw =
      (labelFault? (definitions earlier) (instructions earlier).length
        (Statement.ofSourceLine raw).label).or
      (bodyFault? (instructions earlier).length (Statement.ofSourceLine raw).body) := if_pos h

theorem lineFault?_congr {m n : Nat} {raw : Text} (hm : (Text.dropReturn raw).length ≤ m)
    (hn : (Text.dropReturn raw).length ≤ n) (earlier : List Statement) :
    lineFault? m earlier raw = lineFault? n earlier raw := by
  rw [lineFault?_of_short hm, lineFault?_of_short hn]

theorem lineFault?_of_long {limit : Nat} {raw : Text}
    (h : limit < (Text.dropReturn raw).length) (earlier : List Statement) :
    lineFault? limit earlier raw = some (.lineTooLong (Text.dropReturn raw).length limit) := by
  unfold lineFault?
  rw [if_neg (Nat.not_le_of_lt h)]

theorem firstFault?_congr {m n : Nat} {ls : List Text} (hm : Within m ls) (hn : Within n ls) :
    firstFault? m ls = firstFault? n ls := by
  induction ls using List.reverseRecOn with
  | nil => rfl
  | append_singleton ls raw ih =>
    rw [within_concat_iff] at hm hn
    rw [firstFault?_concat, firstFault?_concat, ih hm.1 hn.1, lineFault?_congr hm.2 hn.2]

theorem assemble_congr {m n : Nat} {source : Text} (hm : Within m (Text.lines source))
    (hn : Within n (Text.lines source)) : assemble ⟨m⟩ source = assemble ⟨n⟩ source := by
  rw [assemble_eq_okUnless, assemble_eq_okUnless, firstFault?_congr hm hn]

/-! ## The first line that is too long -/

/-- The first line above the limit, and its length. -/
def FirstLong (limit : Nat) (source : Text) (line length : Nat) : Prop :=
  ∃ earlier raw later, Text.lines source = earlier ++ raw :: later ∧ Within limit earlier ∧
    line = earlier.length + 1 ∧ length = (Text.dropReturn raw).length ∧ limit < length

theorem within_or_firstLong (limit : Nat) (source : Text) :
    Within limit (Text.lines source) ∨ ∃ line length, FirstLong limit source line length := by
  cases h : (Text.lines source).find? fun raw => limit < (Text.dropReturn raw).length with
  | none =>
    left
    simpa [Within] using h
  | some raw =>
    obtain ⟨hlong, earlier, later, hlines, hearlier⟩ := List.find?_eq_some_iff_append.mp h
    right
    refine ⟨_, _, earlier, raw, later, hlines, ?_, rfl, rfl, by simpa using hlong⟩
    simpa [Within] using hearlier

theorem firstFault?_of_long {limit : Nat} {raw : Text}
    (h : limit < (Text.dropReturn raw).length) (earlier later : List Text) :
    firstFault? limit (earlier ++ raw :: later) = (firstFault? limit earlier).or
      (some ⟨earlier.length + 1, .lineTooLong (Text.dropReturn raw).length limit⟩) := by
  have hline := firstFault?_concat limit earlier raw
  rw [lineFault?_of_long h] at hline
  cases hearlier : firstFault? limit earlier with
  | some f => exact firstFault?_append_of_some hearlier _
  | none =>
    rw [hearlier] at hline
    rw [List.append_cons]
    exact firstFault?_append_of_some hline later

/-- A line that is too long hides all that is wrong below it, and the faults of jumps. -/
theorem assemble_of_firstLong {m wide line length : Nat} {source : Text}
    (hwide : Within wide (Text.lines source)) (h : FirstLong m source line length) :
    (∀ f, assemble ⟨wide⟩ source = .error f → f.cause.isUndefined = false → f.line < line →
      assemble ⟨m⟩ source = .error f) ∧
    ((∀ f, assemble ⟨wide⟩ source = .error f → f.cause.isUndefined = false → line ≤ f.line) →
      assemble ⟨m⟩ source = .error ⟨line, .lineTooLong length m⟩) := by
  obtain ⟨earlier, raw, later, hlines, hearlier, rfl, rfl, hlong⟩ := h
  have hfirst := firstFault?_of_long hlong earlier later
  rw [← hlines] at hfirst
  have htake : (Text.lines source).take earlier.length = earlier := by rw [hlines, List.take_left]
  -- Above the long line the two limits agree.
  have hsame : firstFault? m earlier = firstFault? wide earlier := by
    rw [hlines, within_append_iff] at hwide
    exact firstFault?_congr hearlier hwide.1
  constructor
  · intro f hf hcause hline
    have hf := firstFault?_of_assemble hf hcause
    have hf := (firstFault?_take_eq_some_iff (k := earlier.length)).mpr ⟨hf, by omega⟩
    rw [htake, ← hsame] at hf
    rw [hf, Option.some_or] at hfirst
    exact assemble_eq_error_iff.mpr (.inl hfirst)
  · intro hlater
    have hnone : firstFault? m earlier = none := by
      rw [hsame, Option.eq_none_iff_forall_ne_some]
      intro f hf
      rw [← htake, firstFault?_take_eq_some_iff] at hf
      have hresult : assemble ⟨wide⟩ source = .error f := assemble_eq_error_iff.mpr (.inl hf.1)
      have := hlater f hresult (isUndefined_of_firstFault? hf.1)
      omega
    rw [hnone, Option.none_or] at hfirst
    exact assemble_eq_error_iff.mpr (.inl hfirst)

/-- A fault that is found above the first long line is the same under every larger limit. -/
theorem assemble_of_firstFault? {limit : Nat} {source : Text} {earlier later : List Text}
    {f : Fault} (hlines : Text.lines source = earlier ++ later)
    (hf : firstFault? limit earlier = some f) (hearlier : Within limit earlier) {larger : Nat}
    (hle : limit ≤ larger) : assemble ⟨larger⟩ source = .error f := by
  apply assemble_eq_error_iff.mpr
  left
  rw [hlines]
  apply firstFault?_append_of_some
  rw [← firstFault?_congr hearlier (hearlier.mono hle), hf]

theorem assemble_of_le {limit : Nat} {source : Text}
    (h : ∀ f, assemble ⟨limit⟩ source = .error f →
      ∀ length max, f.cause ≠ .lineTooLong length max) {larger : Nat} (hle : limit ≤ larger) :
    assemble ⟨larger⟩ source = assemble ⟨limit⟩ source := by
  rcases within_or_firstLong limit source with hwithin | ⟨line, length, hlong⟩
  · exact assemble_congr (hwithin.mono hle) hwithin
  · obtain ⟨earlier, raw, later, hlines, hearlier, rfl, rfl, hlong⟩ := hlong
    have hfirst := firstFault?_of_long hlong earlier later
    cases hf : firstFault? limit earlier with
    | none =>
      rw [hf, Option.none_or, ← hlines] at hfirst
      exact absurd rfl (h _ (assemble_eq_error_iff.mpr (.inl hfirst)) _ _)
    | some f =>
      rw [assemble_of_firstFault? hlines hf hearlier hle,
        assemble_of_firstFault? hlines hf hearlier (Nat.le_refl _)]

/-! ## The limit as a filter -/

/-- How the result under a limit follows from the one that a source has without a limit. -/
structure FilteredBy (limit : Nat) (source : Text) (unlimited : Except Fault Program) : Prop where
  within : Within limit (Text.lines source) → assemble ⟨limit⟩ source = unlimited
  exists_long : ¬ Within limit (Text.lines source) →
    ∃ line length, FirstLong limit source line length
  /-- A fault above the first long line stays. -/
  kept : ∀ line length, FirstLong limit source line length →
    ∀ f, unlimited = .error f → (∀ label, f.cause ≠ .undefinedLabel label) → f.line < line →
      assemble ⟨limit⟩ source = .error f
  /-- All else gives way to the long line: a program, a jump without a label, a fault of this line
  or of one below it. -/
  replaced : ∀ line length, FirstLong limit source line length →
    (∀ f, unlimited = .error f → (∀ label, f.cause ≠ .undefinedLabel label) → line ≤ f.line) →
      assemble ⟨limit⟩ source = .error ⟨line, .lineTooLong length limit⟩
  larger : (∀ f, assemble ⟨limit⟩ source = .error f →
      ∀ length max, f.cause ≠ .lineTooLong length max) →
    ∀ larger, limit ≤ larger → assemble ⟨larger⟩ source = assemble ⟨limit⟩ source

/-- **The limit only filters the result that a source has under a limit no line exceeds.** -/
theorem filteredBy_limit {wide : Nat} {source : Text} (hwide : Within wide (Text.lines source))
    (limit : Nat) : FilteredBy limit source (assemble ⟨wide⟩ source) := by
  refine ⟨?_, ?_, ?_, ?_, ?_⟩
  · intro hwithin
    exact assemble_congr hwithin hwide
  · intro hlong
    exact (within_or_firstLong limit source).resolve_left hlong
  · intro line length hlong f hf hcause hline
    exact (assemble_of_firstLong hwide hlong).1 f hf (isUndefined_eq_false_iff.mpr hcause) hline
  · intro line length hlong hlater
    apply (assemble_of_firstLong hwide hlong).2
    intro f hf hcause
    exact hlater f hf (isUndefined_eq_false_iff.mp hcause)
  · intro h larger hle
    exact assemble_of_le h hle

theorem filteredBy_limit_comment :
    let below := "JMP E\nNOP # skip\nBAD".toList
    let above := "BAD\nNOP # skip\nJMP E".toList
    Within 18 (Text.lines below) ∧ Within 18 (Text.lines above) ∧
    FirstLong 8 below 2 10 ∧ FirstLong 8 above 2 10 ∧
    assemble ⟨18⟩ below = .error ⟨3, .unknownOpcode "BAD".toList⟩ ∧
    assemble ⟨8⟩ below = .error ⟨2, .lineTooLong 10 8⟩ ∧
    assemble ⟨18⟩ above = .error ⟨1, .unknownOpcode "BAD".toList⟩ ∧
    assemble ⟨8⟩ above = .error ⟨1, .unknownOpcode "BAD".toList⟩ := by
  intro below above
  have hbelow : Within 18 (Text.lines below) := by unfold Within; decide
  have habove : Within 18 (Text.lines above) := by unfold Within; decide
  have hlongBelow : FirstLong 8 below 2 10 :=
    ⟨["JMP E".toList], _, ["BAD".toList], rfl, by unfold Within; decide, rfl, rfl, by decide⟩
  have hlongAbove : FirstLong 8 above 2 10 :=
    ⟨["BAD".toList], _, ["JMP E".toList], rfl, by unfold Within; decide, rfl, rfl, by decide⟩
  have hunknown : assemble ⟨18⟩ below = .error ⟨3, .unknownOpcode "BAD".toList⟩ := by rfl
  have hfirst : assemble ⟨18⟩ above = .error ⟨1, .unknownOpcode "BAD".toList⟩ := by rfl
  refine ⟨hbelow, habove, hlongBelow, hlongAbove, hunknown, ?_, hfirst, ?_⟩
  · apply (filteredBy_limit hbelow 8).replaced 2 10 hlongBelow
    intro f hf _
    rw [hunknown] at hf
    cases hf
    decide
  · exact (filteredBy_limit habove 8).kept 2 10 hlongAbove _ hfirst (by simp) (by decide)

end ExecutionNode.Assembly
