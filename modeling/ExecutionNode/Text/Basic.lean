/-!
# Text

Text is a list of code points, so its length is a count of characters.
-/

namespace ExecutionNode

abbrev Text := List Char

namespace Text

/-- A text between backquotes, as messages show it. -/
def quoted (t : Text) : Text := '\x60' :: t ++ ['\x60']

end Text

end ExecutionNode
