/-!
# Instruction memory

A node holds its program in a small memory of numbered slots, one instruction word in each.
-/

namespace ExecutionNode

/-- The number of slots of a node. -/
def slotCount : Nat := 16

end ExecutionNode
