import ExecutionNode.Json
import ExecutionNode.Memory
import ExecutionNode.Word.Bytes

/-!
# Node images

An image is the content of a node's instruction memory: at least one word and at most as many as
there are slots. It is stored as the bytes of its words.
-/

namespace ExecutionNode

structure Image where
  words : List Word
  length_pos : 0 < words.length
  length_le : words.length ≤ slotCount
deriving DecidableEq

inductive ImageError
  | empty
  | tooLarge (count : Nat)
  | oddLength (length : Nat)
deriving DecidableEq, Repr

def ImageError.message : ImageError → Text
  | empty => "a node needs at least one instruction".toList
  | tooLarge count =>
    Numeral.decimal count ++ " instructions do not fit in ".toList ++
      Numeral.decimal slotCount ++ " slots".toList
  | oddLength length =>
    "image has an odd byte count (".toList ++ Numeral.decimal length ++ ")".toList

namespace Image

def ofWords (words : List Word) : Except ImageError Image :=
  if hpos : 0 < words.length then
    if hle : words.length ≤ slotCount then .ok ⟨words, hpos, hle⟩
    else .error (.tooLarge words.length)
  else .error .empty

theorem words_of_ofWords {words : List Word} {i : Image} (h : ofWords words = .ok i) :
    i.words = words := by
  unfold ofWords at h
  split at h
  · split at h <;> cases h
    rfl
  · cases h

@[simp] theorem ofWords_words (i : Image) : ofWords i.words = .ok i := by
  simp [ofWords, i.length_pos, i.length_le]

/-- An image as it stands in a JSON document, its size not looked at. -/
structure Raw where
  words : List Word
deriving DecidableEq, Repr

def ofRaw (raw : Raw) : Except ImageError Image := ofWords raw.words

def length (i : Image) : Nat := i.words.length

/-- The four bits of the register that tells a node how long its program is. -/
def configMask : Word := 0x000F#16

/-- The value of that register: 0 for one instruction, 15 for sixteen. -/
def config (i : Image) : Word := BitVec.ofNat 16 (i.length - 1) &&& configMask

def bytes (i : Image) : List UInt8 := i.words.flatMap Word.bytes

/-- The words of pairs of bytes. A byte without a partner is left out. -/
def pairs : List UInt8 → List Word
  | low :: high :: rest => Word.ofBytes low high :: pairs rest
  | _ => []

theorem pairs_flatMap_bytes (words : List Word) : pairs (words.flatMap Word.bytes) = words := by
  induction words with
  | nil => rfl
  | cons w rest ih => simp [Word.bytes, pairs, ih]

/-- The parity of the bytes is looked at before their number. -/
def ofBytes (bytes : List UInt8) : Except ImageError Image :=
  if bytes.length % 2 = 0 then ofWords (pairs bytes) else .error (.oddLength bytes.length)

def json (i : Image) : Json :=
  .object [("words".toList, .array (i.words.map fun w => .number w.toNat))]

end Image

end ExecutionNode
