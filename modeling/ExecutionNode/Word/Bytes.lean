import ExecutionNode.Word.Basic

/-!
# Words as bytes

A word is stored as two bytes, the low one first.
-/

namespace ExecutionNode.Word

def lowByte (w : Word) : UInt8 := .ofBitVec (w.extractLsb' 0 8)

def highByte (w : Word) : UInt8 := .ofBitVec (w.extractLsb' 8 8)

def ofBytes (low high : UInt8) : Word := high.toBitVec ++ low.toBitVec

def bytes (w : Word) : List UInt8 := [w.lowByte, w.highByte]

@[simp] theorem ofBytes_lowByte_highByte (w : Word) : ofBytes w.lowByte w.highByte = w := by
  simp only [ofBytes, lowByte, highByte]
  exact (BitVec.extractLsb'_append_extractLsb'_eq_extractLsb' (by rfl)).trans
    BitVec.extractLsb'_eq_self

@[simp] theorem lowByte_ofBytes (low high : UInt8) : (ofBytes low high).lowByte = low := by
  rw [lowByte, ofBytes, BitVec.extractLsb'_append_eq_right]

@[simp] theorem highByte_ofBytes (low high : UInt8) : (ofBytes low high).highByte = high := by
  rw [highByte, ofBytes, BitVec.extractLsb'_append_eq_left]

end ExecutionNode.Word
