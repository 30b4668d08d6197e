/-!
# Lists in brackets

Formats write lists as items with commas between them and a closing bracket at the end.  They differ
in the items, in what may stand around them, and in whether a comma may follow the last one.
-/

namespace EpicsDb.Text

variable {α : Type}

/-- A way to read something at the head of a text: what is read, and the text after it. -/
abbrev Reader (α : Type) := List Char → Option (α × List Char)

/-- How lists are written. -/
structure ListStyle where
  /-- What the text is without the gap at its head. -/
  skipGap : List Char → List Char
  close : Char
  /-- Whether a comma may follow the last item. -/
  lastComma : Bool

/-- One or more items up to the closing bracket.  An item that takes no character cannot be read. -/
def items (style : ListStyle) (item : Reader α) (cs : List Char) : Option (List α × List Char) :=
  match item cs with
  | none => none
  | some (x, rest) =>
    match style.skipGap rest with
    | [] => none
    | c :: rest =>
      if c = style.close then some ([x], rest)
      else if c = ',' then
        let rest := style.skipGap rest
        if style.lastComma ∧ rest.head? = some style.close then some ([x], rest.tail)
        else if rest.length < cs.length then
          match items style item rest with
          | none => none
          | some (xs, rest) => some (x :: xs, rest)
        else none
      else none
termination_by cs.length

/-- The items of a list whose opening bracket has been read. -/
def enclosed (style : ListStyle) (item : Reader α) : Reader (List α) := fun cs =>
  let cs := style.skipGap cs
  if cs.head? = some style.close then some ([], cs.tail) else items style item cs

end EpicsDb.Text
