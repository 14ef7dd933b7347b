import ExecutionNode.Failure

/-!
# Outcomes

What a run of a tool leaves behind: the two streams, the exit code, and the content of the file
that it writes.
-/

namespace ExecutionNode.Tool

structure Outcome where
  exitCode : Nat
  stdout : Text := []
  stderr : Text := []
  /-- The bytes for the output file. Without them no file is written. -/
  file : Option (List UInt8) := none
deriving DecidableEq, Repr

namespace Outcome

/-- A run that gives up. What is on the output stream stays there, and no file is written. -/
def failed (f : Failure) (stdout : Text) : Outcome :=
  { exitCode := 1, stdout := stdout, stderr := f.report }

end Outcome

end ExecutionNode.Tool
