/-!
# Searching and replacing

A pattern is a function that looks at a character and at what follows it.  Where it matches, it
gives the text to put there and the number of characters after the first one that it covers.
`replaceAll` replaces the matches from left to right; they never overlap.
-/

namespace EpicsDb.Text

/-- Whether the word stands somewhere in the text. -/
def occursIn (word : List Char) : List Char → Bool
  | [] => word.isEmpty
  | c :: cs => word.isPrefixOf (c :: cs) || occursIn word cs

/-- A match at the head of a text: what replaces it, and how long it is after its first
character. -/
abbrev Pattern := Char → List Char → Option (List Char × Nat)

/-- The text with every match replaced, from left to right. -/
def replaceAll (pattern : Pattern) : List Char → List Char
  | [] => []
  | c :: cs =>
    match pattern c cs with
    | some (replacement, n) => replacement ++ replaceAll pattern (cs.drop n)
    | none => c :: replaceAll pattern cs
termination_by cs => cs.length
decreasing_by all_goals simp only [List.length_drop, List.length_cons]; omega

/-- The pieces of a text between the characters that satisfy `p`, empty pieces left out. -/
def pieces (p : Char → Bool) (cs : List Char) : List (List Char) :=
  (cs.splitOnP p).filter (!·.isEmpty)

end EpicsDb.Text
