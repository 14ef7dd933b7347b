import ExecutionNode.Proofs.Reading
import Mathlib.Data.List.TakeWhile

/-!
# How a line is written

A line is laid out from its tokens: separators stand between them and perhaps around them, and a
comment may follow. What the line says depends on its tokens alone.
-/

namespace ExecutionNode

namespace Text

/-! ## Tokens -/

/-- Some text without a separator. -/
structure Unbroken (t : Text) : Prop where
  ne_nil : t ≠ []
  no_separator : ∀ c ∈ t, isSeparator c = false

/-- Tokens with separators between them, and perhaps around them. -/
inductive Spaced : List Text → Text → Prop
  | nil : Spaced [] []
  | separator {c : Char} (hc : isSeparator c = true) {ts : List Text} {t : Text}
    (h : Spaced ts t) : Spaced ts (c :: t)
  | last {token : Text} (h : token.Unbroken) : Spaced [token] token
  | token {token : Text} (h : token.Unbroken) {c : Char} (hc : isSeparator c = true)
    {ts : List Text} {t : Text} (ht : Spaced ts t) : Spaced (token :: ts) (token ++ c :: t)

theorem tokens_of_unbroken {t : Text} (h : t.Unbroken) : tokens t = [t] :=
  tokens_eq_singleton h.ne_nil h.no_separator

theorem tokens_of_spaced {ts : List Text} {t : Text} (h : Spaced ts t) : tokens t = ts := by
  induction h with
  | nil => rfl
  | @separator c hc ts t h ih => exact (tokens_append_separator hc [] t).trans ih
  | last h => exact tokens_of_unbroken h
  | @token token h c hc ts t ht ih =>
    rw [tokens_append_separator hc, tokens_of_unbroken h, ih]
    rfl

theorem Spaced.exists_cons {ts : List Text} {t : Text} (h : Spaced ts t) {c : Char}
    (hc : isSeparator c = false) : ∃ us, Spaced us (c :: t) := by
  have hsingle : Unbroken [c] := ⟨List.cons_ne_nil _ _, by simpa using hc⟩
  have hcons : ∀ {token : Text}, token.Unbroken → Unbroken (c :: token) := fun htoken =>
    ⟨List.cons_ne_nil _ _, List.forall_mem_cons.mpr ⟨hc, htoken.no_separator⟩⟩
  cases h with
  | nil => exact ⟨_, .last hsingle⟩
  | separator hd ht => exact ⟨_, .token hsingle hd ht⟩
  | last htoken => exact ⟨_, .last (hcons htoken)⟩
  | token htoken hd ht => exact ⟨_, .token (hcons htoken) hd ht⟩

theorem exists_spaced (t : Text) : ∃ ts, Spaced ts t := by
  induction t with
  | nil => exact ⟨[], .nil⟩
  | cons c t ih =>
    obtain ⟨ts, h⟩ := ih
    cases hc : isSeparator c with
    | true => exact ⟨ts, .separator hc h⟩
    | false => exact h.exists_cons hc

/-- **The tokens of a text are those that it is spaced from.** -/
theorem tokens_eq_iff {t : Text} {ts : List Text} : tokens t = ts ↔ Spaced ts t := by
  constructor
  · rintro rfl
    obtain ⟨ts, h⟩ := exists_spaced t
    rwa [tokens_of_spaced h]
  · exact tokens_of_spaced

/-- The tokens in a row, with a blank behind each. -/
def spell (ts : List Text) : Text := ts.flatMap (· ++ [' '])

theorem Spaced.length_spell_le {ts : List Text} {t : Text} (h : Spaced ts t) :
    (spell ts).length ≤ t.length + 1 := by
  induction h with
  | nil => exact Nat.zero_le 1
  | separator _ _ ih => exact Nat.le_succ_of_le ih
  | last _ => simp [spell]
  | @token token _ c _ ts t _ ih =>
    have hspell : spell (token :: ts) = token ++ ' ' :: spell ts := by simp [spell]
    rw [hspell]
    simp only [List.length_append, List.length_cons]
    omega

/-! ## Comments and carriage returns -/

theorem code_eq_self {t : Text} (h : '#' ∉ t) : code t = t := by
  apply List.takeWhile_eq_self_iff.mpr
  intro c hc
  rw [bne_iff_ne]
  rintro rfl
  exact h hc

theorem code_comment {t : Text} (h : '#' ∉ t) (comment : Text) :
    code (t ++ '#' :: comment) = t := by
  have ht := List.takeWhile_eq_self_iff.mp (code_eq_self h)
  exact (List.takeWhile_append_of_pos ht).trans (List.append_nil t)

/-- A line that is laid out from tokens, with a comment behind them or without. -/
inductive LaidOut (ts : List Text) : Text → Prop
  | plain {t : Text} (h : Spaced ts t) (hcode : '#' ∉ t) : LaidOut ts t
  | commented {t : Text} (h : Spaced ts t) (hcode : '#' ∉ t) (comment : Text) :
    LaidOut ts (t ++ '#' :: comment)

theorem tokens_code_eq_iff {line : Text} {ts : List Text} :
    tokens (code line) = ts ↔ LaidOut ts line := by
  constructor
  · intro h
    by_cases hmem : '#' ∈ line
    · obtain ⟨t, comment, rfl, hcode⟩ := List.eq_append_cons_of_mem hmem
      rw [code_comment hcode, tokens_eq_iff] at h
      exact .commented h hcode comment
    · rw [code_eq_self hmem, tokens_eq_iff] at h
      exact .plain h hmem
  · rintro (⟨h, hcode⟩ | ⟨h, hcode, comment⟩)
    · rw [code_eq_self hcode, tokens_of_spaced h]
    · rw [code_comment hcode, tokens_of_spaced h]

theorem tokens_code_dropReturn (line : Text) :
    tokens (code (dropReturn line)) = tokens (code line) := by
  by_cases hlast : line.getLast? = some '\r'
  · obtain ⟨t, rfl⟩ := List.getLast?_eq_some_iff.mp hlast
    rw [dropReturn_append]
    by_cases hmem : '#' ∈ t
    · obtain ⟨s, comment, rfl, hcode⟩ := List.eq_append_cons_of_mem hmem
      rw [List.append_assoc, List.cons_append, code_comment hcode, code_comment hcode]
    · have hcode : '#' ∉ t ++ ['\r'] := by simpa using hmem
      rw [code_eq_self hmem, code_eq_self hcode, tokens_append_separator (by decide)]
      exact (List.append_nil _).symm
  · rw [dropReturn, if_neg hlast]

end Text

namespace Assembly

/-! ## Statements -/

/-- The tokens of a line. -/
def lineTokens (raw : Text) : List Text := Text.tokens (Text.code (Text.dropReturn raw))

/-- **Every line is laid out from its tokens, and any other layout has the same tokens.** -/
theorem lineTokens_eq_iff {raw : Text} {ts : List Text} :
    lineTokens raw = ts ↔ Text.LaidOut ts raw := by
  rw [lineTokens, Text.tokens_code_dropReturn, Text.tokens_code_eq_iff]

/-- The tokens of a statement: a label with a colon behind it, if there is one, and the body. -/
inductive Statement.WrittenAs : Statement → List Text → Prop
  | blank : WrittenAs ⟨none, []⟩ []
  | labelled (name : Text) (body : List Text) :
    WrittenAs ⟨some name, body⟩ ((name ++ [':']) :: body)
  | unlabelled {token : Text} (h : ∀ name, token ≠ name ++ [':']) (rest : List Text) :
    WrittenAs ⟨none, token :: rest⟩ (token :: rest)

theorem ofTokens_eq_iff {ts : List Text} {s : Statement} :
    Statement.ofTokens ts = s ↔ s.WrittenAs ts := by
  constructor
  · rintro rfl
    unfold Statement.ofTokens
    split
    · exact .blank
    · next token rest =>
      split
      · next name hname =>
        rw [labelName?_eq_some_iff.mp hname]
        exact .labelled name rest
      · next hname =>
        apply Statement.WrittenAs.unlabelled
        intro name htoken
        rw [labelName?_eq_some_iff.mpr htoken] at hname
        cases hname
  · rintro (_ | ⟨name, body⟩ | ⟨hlabel, rest⟩)
    · rfl
    · simp [Statement.ofTokens, labelName?]
    · next token =>
      have hname : labelName? token = none := by
        rw [Option.eq_none_iff_forall_ne_some]
        intro name hname
        exact hlabel name (labelName?_eq_some_iff.mp hname)
      simp [Statement.ofTokens, hname]

theorem ofSourceLine_eq_iff {raw : Text} {s : Statement} :
    Statement.ofSourceLine raw = s ↔ s.WrittenAs (lineTokens raw) := ofTokens_eq_iff

end Assembly

end ExecutionNode
