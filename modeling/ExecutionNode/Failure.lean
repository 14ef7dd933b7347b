import ExecutionNode.Text.Basic

/-!
# Failures of a tool

What a tool tells its user when it gives up: a message, and the cause when there is one.
-/

namespace ExecutionNode

structure Failure where
  message : Text
  cause : Option Text := none
deriving DecidableEq, Repr

namespace Failure

/-- On one line. -/
def inline (f : Failure) : Text :=
  match f.cause with
  | none => f.message
  | some cause => f.message ++ ": ".toList ++ cause

/-- As a tool prints it before it exits. -/
def report (f : Failure) : Text :=
  "Error: ".toList ++ f.message ++
    match f.cause with
    | none => "\n".toList
    | some cause => "\n\nCaused by:\n    ".toList ++ cause ++ "\n".toList

/-- A file that does not exist. -/
def missingFile (path : Text) : Failure :=
  { message := "reading ".toList ++ path
    cause := some "No such file or directory (os error 2)".toList }

/-- A file that holds no text. -/
def invalidText (path : Text) : Failure :=
  { message := "reading ".toList ++ path
    cause := some "stream did not contain valid UTF-8".toList }

end Failure

end ExecutionNode
