import ExecutionNode.Image.Basic
import ExecutionNode.Instruction.Decode

/-!
# Listings

A listing goes through an image slot by slot. A word that is no instruction spoils its own entry
only.
-/

namespace ExecutionNode

/-- One slot of a listing. -/
structure Entry where
  slot : Nat
  word : Word
  /-- The canonical text, or why there is none. -/
  text : Except DecodeError Text

structure Listing where
  /-- The value of the length register. -/
  config : Word
  entries : List Entry

namespace Entry

def ofWord (slot : Nat) (w : Word) : Entry := ⟨slot, w, w.disassemble⟩

/-- The slot in two columns, a colon and a blank. -/
def label (slot : Nat) : Text :=
  let digits := Numeral.decimal slot
  List.replicate (2 - digits.length) ' ' ++ digits ++ ": ".toList

/-- The bytes of a word in the order of a file, each with a blank behind it, and a blank more. -/
def byteColumn (w : Word) : Text :=
  w.bytes.flatMap (fun b => Numeral.hexadecimal 2 b.toNat ++ [' ']) ++ [' ']

def content (e : Entry) : Text :=
  match e.text with
  | .ok t => t
  | .error _ => "<invalid> ".toList ++ e.word.hex

/-- One line, with its line feed. -/
def render (showBytes : Bool) (e : Entry) : Text :=
  label e.slot ++ (if showBytes then byteColumn e.word else []) ++ e.content ++ ['\n']

def json (e : Entry) : Json :=
  .object [("slot".toList, .number e.slot), ("word".toList, .number e.word.toNat),
    match e.text with
    | .ok t => ("text".toList, .string t)
    | .error error => ("error".toList, .string error.message)]

end Entry

namespace Listing

def ofImage (i : Image) : Listing :=
  { config := i.config
    entries := i.words.zipIdx.map fun (w, slot) => .ofWord slot w }

theorem length_entries (i : Image) : (ofImage i).entries.length = i.length := by
  simp [ofImage, Image.length]

theorem getElem?_entries (i : Image) (slot : Nat) :
    (ofImage i).entries[slot]? = i.words[slot]?.map (.ofWord slot) := by
  simp [ofImage, List.getElem?_zipIdx, Function.comp_def]

/-- The lines of all slots. -/
def render (showBytes : Bool) (l : Listing) : Text := l.entries.flatMap (Entry.render showBytes)

def json (l : Listing) : Json :=
  .object [("config".toList, .number l.config.toNat),
    ("slots".toList, .array (l.entries.map Entry.json))]

end Listing

end ExecutionNode
