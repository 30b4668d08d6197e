/-!
# White space

The Unicode property `White_Space`, and texts without it at their ends.
-/

namespace EpicsDb.Text

/-- Whether the character has the property `White_Space`. -/
def isSpace (c : Char) : Bool :=
  let n := c.toNat
  (9 ≤ n && n ≤ 13) || n == 0x20 || n == 0x85 || n == 0xa0 || n == 0x1680 ||
    (0x2000 ≤ n && n ≤ 0x200a) || n == 0x2028 || n == 0x2029 || n == 0x202f || n == 0x205f ||
    n == 0x3000

/-- The list without the elements at either end that satisfy `p`. -/
def stripEnds (p : Char → Bool) (cs : List Char) : List Char :=
  ((cs.dropWhile p).reverse.dropWhile p).reverse

/-- The text without white space at either end. -/
def trim (s : String) : String :=
  String.ofList (stripEnds isSpace s.toList)

/-- Whether the text holds nothing but white space. -/
def isBlank (s : String) : Bool :=
  s.toList.all isSpace

end EpicsDb.Text
