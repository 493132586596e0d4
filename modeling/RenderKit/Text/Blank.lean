/-!
# Blank characters

The characters with Unicode's `White_Space` property, and text without them at either end. Names
are blank when every character of theirs is, and template lines lose the blanks around them.
-/

namespace RenderKit.Text

/-- Whether a character has the Unicode property `White_Space`. -/
def isBlank (c : Char) : Bool :=
  let n := c.toNat
  (0x9 ≤ n && n ≤ 0xD) || n == 0x20 || n == 0x85 || n == 0xA0 || n == 0x1680
    || (0x2000 ≤ n && n ≤ 0x200A) || n == 0x2028 || n == 0x2029 || n == 0x202F || n == 0x205F
    || n == 0x3000

/-- Text without the blanks before its first other character. -/
def trimStart (cs : List Char) : List Char :=
  cs.dropWhile isBlank

/-- Text without the blanks at either end. -/
def trim (cs : List Char) : List Char :=
  (trimStart (trimStart cs).reverse).reverse

/-- Whether a text has no character other than blanks. -/
def allBlank (s : String) : Bool :=
  s.toList.all isBlank

/-- The lines of a text that hold more than blanks, each without the blanks at its ends. -/
def trimmedLines (s : String) : List String :=
  (((s.toList.splitOn '\n').map trim).filter (!·.isEmpty)).map String.ofList

end RenderKit.Text
