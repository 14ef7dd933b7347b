import ExecutionNode.Numeral.Printer

/-!
# JSON documents

The documents that are written here hold natural numbers, strings, arrays and objects. A document
has a compact text and one that is indented by two blanks for each level.
-/

namespace ExecutionNode

inductive Json
  | number (n : Nat)
  | string (t : Text)
  | array (items : List Json)
  | object (members : List (Text × Json))

namespace Json

/-- Quotes, backslashes and control characters are escaped, with a letter where there is one. -/
def escape (c : Char) : Text :=
  match c with
  | '\x22' => ['\\', '\x22']
  | '\\' => ['\\', '\\']
  | '\x08' => ['\\', 'b']
  | '\t' => ['\\', 't']
  | '\n' => ['\\', 'n']
  | '\x0C' => ['\\', 'f']
  | '\r' => ['\\', 'r']
  | c => if c.toNat < 0x20 then "\\u".toList ++ Numeral.hexadecimal 4 c.toNat else [c]

def quote (t : Text) : Text := '\x22' :: t.flatMap escape ++ ['\x22']

mutual

def compact : Json → Text
  | number n => Numeral.decimal n
  | string t => quote t
  | array items => '[' :: compactItems items ++ [']']
  | object members => '\x7b' :: compactMembers members ++ ['\x7d']

def compactItems : List Json → Text
  | [] => []
  | [item] => item.compact
  | item :: rest => item.compact ++ ',' :: compactItems rest

def compactMembers : List (Text × Json) → Text
  | [] => []
  | [(key, value)] => quote key ++ ':' :: value.compact
  | (key, value) :: rest => quote key ++ ':' :: value.compact ++ ',' :: compactMembers rest

end

/-- Opens a line of a level. -/
def newline (level : Nat) : Text := '\n' :: List.replicate (2 * level) ' '

mutual

/-- The text of a document that stands at a level. Empty arrays and objects stay on one line. -/
def indented (level : Nat) : Json → Text
  | number n => Numeral.decimal n
  | string t => quote t
  | array [] => "[]".toList
  | array (item :: rest) =>
    '[' :: newline (level + 1) ++ item.indented (level + 1) ++ indentedItems (level + 1) rest ++
      newline level ++ [']']
  | object [] => ['\x7b', '\x7d']
  | object ((key, value) :: rest) =>
    '\x7b' :: newline (level + 1) ++ quote key ++ ": ".toList ++ value.indented (level + 1) ++
      indentedMembers (level + 1) rest ++ newline level ++ ['\x7d']

/-- The items after the first. -/
def indentedItems (level : Nat) : List Json → Text
  | [] => []
  | item :: rest => ',' :: newline level ++ item.indented level ++ indentedItems level rest

/-- The members after the first. -/
def indentedMembers (level : Nat) : List (Text × Json) → Text
  | [] => []
  | (key, value) :: rest =>
    ',' :: newline level ++ quote key ++ ": ".toList ++ value.indented level ++
      indentedMembers level rest

end

end Json

end ExecutionNode
