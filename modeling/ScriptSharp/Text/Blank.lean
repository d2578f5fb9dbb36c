/-!
# Blank characters

The characters with the Unicode property `White_Space`, and trimming by them. Text is
handled as a list of characters here, so that every statement is about lists.
-/

namespace ScriptSharp.Text

/-- The 25 characters of the Unicode property `White_Space`. -/
def isBlank (character : Char) : Bool :=
  let code := character.toNat
  (0x9 ≤ code && code ≤ 0xD) || code == 0x20 || code == 0x85 || code == 0xA0 ||
    code == 0x1680 || (0x2000 ≤ code && code ≤ 0x200A) || code == 0x2028 ||
    code == 0x2029 || code == 0x202F || code == 0x205F || code == 0x3000

/-- Drops the blank characters in front. -/
def trimStart (text : List Char) : List Char :=
  text.dropWhile isBlank

/-- Drops the blank characters at the end. -/
def trimEnd (text : List Char) : List Char :=
  (text.reverse.dropWhile isBlank).reverse

/-- Drops the blank characters at both ends. -/
def trim (text : List Char) : List Char :=
  trimEnd (trimStart text)

end ScriptSharp.Text
