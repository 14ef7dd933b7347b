import ExecutionNode.Text.Blank

/-!
# Source lines and their tokens

A source is split at line feeds. A line may end in one carriage return, a comment runs from the
first `#`, and tokens are what stands between separators.
-/

namespace ExecutionNode.Text

theorem not_of_mem_splitOnP {p : Char → Bool} {t piece : Text} (h : piece ∈ t.splitOnP p) :
    ∀ c ∈ piece, p c = false := by
  induction t generalizing piece with
  | nil =>
    rw [List.splitOnP_nil, List.mem_singleton] at h
    subst h
    simp
  | cons c rest ih =>
    rw [List.splitOnP_cons_eq_if_modifyHead] at h
    split at h
    · rcases List.mem_cons.mp h with rfl | h
      · simp
      · exact ih h
    · next hc =>
      obtain ⟨first, others, heq⟩ := List.exists_cons_of_ne_nil (List.splitOnP_ne_nil p rest)
      rw [heq, List.modifyHead_cons] at h
      rcases List.mem_cons.mp h with rfl | h
      · intro d hd
        rcases List.mem_cons.mp hd with rfl | hd
        · simpa using hc
        · exact ih (heq ▸ List.mem_cons_self) d hd
      · exact ih (heq ▸ List.mem_cons_of_mem _ h)

/-! ## Lines -/

/-- The lines of a source. There is always one, and a final line feed opens an empty last line. -/
def lines (source : Text) : List Text := source.splitOn '\n'

def unlines (ls : List Text) : Text := ['\n'].intercalate ls

theorem unlines_lines (source : Text) : unlines (lines source) = source :=
  List.intercalate_splitOn '\n'

theorem lines_ne_nil (source : Text) : lines source ≠ [] :=
  List.splitOn_ne_nil '\n' source

theorem lines_append (source other : Text) :
    lines (source ++ '\n' :: other) = lines source ++ lines other :=
  List.splitOn_append_cons_self source other

theorem lines_unlines {ls : List Text} (hne : ls ≠ []) (h : ∀ l ∈ ls, '\n' ∉ l) :
    lines (unlines ls) = ls :=
  List.splitOn_intercalate '\n' h hne

theorem newline_notMem_of_mem_lines {source line : Text} (h : line ∈ lines source) :
    '\n' ∉ line := by
  intro hc
  rw [lines, List.splitOn_eq_splitOnP] at h
  simpa using not_of_mem_splitOnP h _ hc

/-- A line without its carriage return. Only the last character is looked at, so of two
carriage returns the first stays. -/
def dropReturn (line : Text) : Text :=
  if line.getLast? = some '\r' then line.dropLast else line

theorem dropReturn_append (line : Text) : dropReturn (line ++ ['\r']) = line := by
  simp [dropReturn]

/-! ## Code and tokens -/

/-- The part of a line before its comment. -/
def code (line : Text) : Text := line.takeWhile (· != '#')

theorem hash_notMem_code (line : Text) : '#' ∉ code line := by
  intro h
  have := List.all_takeWhile (p := (· != '#')) (l := line)
  simp only [List.all_eq_true] at this
  simpa using this '#' h

/-- Commas separate as blanks do. -/
def isSeparator (c : Char) : Bool := isBlank c || c == ','

/-- The longest runs without a separator, in order. -/
def tokens (t : Text) : List Text :=
  (t.splitOnP isSeparator).filter fun token => !token.isEmpty

theorem mem_tokens {t token : Text} (h : token ∈ tokens t) :
    token ≠ [] ∧ ∀ c ∈ token, isSeparator c = false := by
  obtain ⟨hmem, hne⟩ := List.mem_filter.mp h
  exact ⟨by simpa using hne, not_of_mem_splitOnP hmem⟩

theorem tokens_append_separator {c : Char} (hc : isSeparator c = true) (s t : Text) :
    tokens (s ++ c :: t) = tokens s ++ tokens t := by
  rw [tokens, List.splitOnP_append_cons s t hc, List.filter_append]
  rfl

theorem tokens_eq_singleton {t : Text} (hne : t ≠ []) (h : ∀ c ∈ t, isSeparator c = false) :
    tokens t = [t] := by
  rw [tokens, List.splitOnP_eq_singleton h]
  simp [hne]

end ExecutionNode.Text
