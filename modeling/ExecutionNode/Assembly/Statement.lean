import ExecutionNode.Assembly.Fault
import ExecutionNode.Text.Source

/-!
# Statements

What a line says, token by token: perhaps a label, perhaps an instruction. Here only the length
of a line can be wrong.
-/

namespace ExecutionNode.Assembly

structure Statement where
  label : Option Text
  /-- The mnemonic and what follows it, or nothing. -/
  body : List Text
deriving DecidableEq, Repr

/-- The name that a token defines: the token without its last character, a colon. The name may be
empty and may itself end in a colon. -/
def labelName? (token : Text) : Option Text :=
  if token.getLast? = some ':' then some token.dropLast else none

theorem labelName?_eq_some_iff {token name : Text} :
    labelName? token = some name ↔ token = name ++ [':'] := by
  unfold labelName?
  constructor
  · intro h
    split at h
    · next hlast =>
      cases h
      obtain ⟨hne, hc⟩ := List.getLast?_eq_some_iff.mp hlast
      simp [hc]
    · cases h
  · rintro rfl
    simp

namespace Statement

def ofTokens : List Text → Statement
  | [] => ⟨none, []⟩
  | token :: rest =>
    match labelName? token with
    | some name => ⟨some name, rest⟩
    | none => ⟨none, token :: rest⟩

/-- What a line says, whatever its length. -/
def ofLine (line : Text) : Statement := ofTokens (Text.tokens (Text.code line))

/-- Reads a line. Its length counts the comment and not the carriage return. -/
def read (limit : Nat) (raw : Text) : Except Cause Statement :=
  let line := Text.dropReturn raw
  if line.length ≤ limit then .ok (ofLine line) else .error (.lineTooLong line.length limit)

end Statement

end ExecutionNode.Assembly
