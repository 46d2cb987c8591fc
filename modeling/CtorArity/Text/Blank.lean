/-!
# Blank characters

The characters with the property White_Space.
-/

namespace CtorArity.Text

def isBlank (c : Char) : Bool :=
  let n := c.toNat
  (9 ≤ n && n ≤ 13) || n == 0x20 || n == 0x85 || n == 0xA0 || n == 0x1680 ||
    (0x2000 ≤ n && n ≤ 0x200A) || n == 0x2028 || n == 0x2029 || n == 0x202F || n == 0x205F ||
    n == 0x3000

/-- Drops the blank characters at both ends. -/
def trim (s : List Char) : List Char :=
  ((s.dropWhile isBlank).reverse.dropWhile isBlank).reverse

/-- A word without the blanks around it, in small letters. Only the letters A
to Z have small ones here: no other letter's small form belongs to a word that
is compared with. -/
def plainWord (s : String) : String :=
  String.ofList ((trim s.toList).map Char.toLower)

end CtorArity.Text
