import GemLang.Text.Ranges

/-!
# Blank characters

Blanks separate the tokens of a program and the words of its bytecode. They are the characters
with the `White_Space` property, in every script, so a no-break space or a line separator parts two
words just as a space does.
-/

namespace GemLang.Text

/-- The code points with the `White_Space` property. -/
def blankRanges : List (Nat × Nat) :=
  [(9, 0xd), (0x20, 0x20), (0x85, 0x85), (0xa0, 0xa0), (0x1680, 0x1680), (0x2000, 0x200a),
   (0x2028, 0x2029), (0x202f, 0x202f), (0x205f, 0x205f), (0x3000, 0x3000)]

/-- Whether `c` is a blank. -/
def isBlank (c : Char) : Bool := inRanges blankRanges c

end GemLang.Text
