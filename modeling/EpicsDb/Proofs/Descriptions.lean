import EpicsDb.Content.Rules
import EpicsDb.Proofs.MacroExpansion

/-!
# How long a description is

A description may have any number of macros in round brackets.  They do not count for its length,
however long they are, and what stands between them counts character by character.

* `DescriptionPart` is a macro or a part without macros.  Brackets outside a macro belong to the
  plain parts, so that a part may look as if it closed a macro, or as if it opened one.
* `replaceAll_asNothing_text` says that a part is erased or kept as a whole, whatever follows, and
  `erase_parts` says it of a row of parts.
* `longDescriptions_append_cons` gives each record its own place in the report.
-/

namespace EpicsDb

namespace Macro

variable {name : List Char}

/-- A macro ends at the first bracket that closes it. -/
theorem asNothing_eq_some (hname : ')' ∉ name) (rest : List Char) :
    asNothing '$' ('(' :: (name ++ [')']) ++ rest) =
      some ([], ('(' :: (name ++ [')'])).length) := by
  have hopen : ∀ d ∈ name, (d == ')') = false := by
    intro d hd
    rw [beq_eq_false_iff_ne]
    rintro rfl
    exact hname hd
  have hupTo : upTo? (· == ')') (name ++ ')' :: rest) = some name :=
    upTo?_append hopen (beq_self_eq_true ')') rest
  simp only [List.cons_append, List.append_assoc, List.nil_append, asNothing, Macro.atDollar_cons,
    beq_self_eq_true, if_true, hupTo, Option.map_some, List.length_cons, List.length_append,
    List.length_nil]

end Macro

namespace Content

/-! ## Parts of a description -/

/-- A part of a description. -/
inductive DescriptionPart
  /-- Text without a dollar, which may have brackets. -/
  | plain (text : List Char) (htext : '$' ∉ text)
  /-- A macro in round brackets, which may hold anything but the bracket that closes it. -/
  | named (name : List Char) (hname : ')' ∉ name)

namespace DescriptionPart

/-- The part as it is written. -/
def text : DescriptionPart → List Char
  | plain text _ => text
  | named name _ => '$' :: '(' :: (name ++ [')'])

/-- What counts for the length. -/
def kept : DescriptionPart → List Char
  | plain text _ => text
  | named _ _ => []

end DescriptionPart

/-- Nothing is erased or kept across the end of a part. -/
theorem replaceAll_asNothing_text (part : DescriptionPart) (rest : List Char) :
    Text.replaceAll Macro.asNothing (part.text ++ rest) =
      part.kept ++ Text.replaceAll Macro.asNothing rest := by
  cases part with
  | plain text htext => exact Macro.replaceAll_atDollar_append htext rest
  | named name hname => exact Text.replaceAll_match_append (Macro.asNothing_eq_some hname rest)

theorem erase_parts (row : List DescriptionPart) :
    Macro.erase (row.flatMap DescriptionPart.text) = row.flatMap DescriptionPart.kept :=
  Text.replaceAll_flatMap replaceAll_asNothing_text row

/-! ## Records -/

theorem hasLongDescription_iff {r : Record} {row : List DescriptionPart}
    (h : r.fieldValue? "DESC" = some (String.ofList (row.flatMap DescriptionPart.text))) :
    hasLongDescription r = true ↔ maxDescription < (row.flatMap DescriptionPart.kept).length := by
  rw [hasLongDescription, h]
  dsimp only
  rw [decide_eq_true_eq, String.toList_ofList, erase_parts]

/-- Whether a record is reported does not depend on the others. -/
theorem longDescriptions_append_cons (source : String) (before after : List Record) (r : Record) :
    longDescriptions ⟨source, before ++ r :: after⟩ =
      longDescriptions ⟨source, before⟩ ++
        (if hasLongDescription r = true then [.descriptionTooLong r.name] else []) ++
        longDescriptions ⟨source, after⟩ := by
  simp only [longDescriptions, List.filter_append, List.filter_cons, List.map_append]
  split_ifs <;> simp

/-- A record is reported for its description if and only if the parts of it without macros have more
than forty characters together, however many macros there are and however long they are. -/
theorem longDescriptions_ignore_macros (source : String) (before after : List Record) (r : Record)
    (row : List DescriptionPart)
    (h : r.fieldValue? "DESC" = some (String.ofList (row.flatMap DescriptionPart.text))) :
    let messages := fun records => (longDescriptions ⟨source, records⟩).map (·.message)
    messages (before ++ r :: after) =
      messages before ++
        (if 40 < (row.flatMap DescriptionPart.kept).length then
          ["Description too long on " ++ r.name] else []) ++
        messages after := by
  intro messages
  have hlong := hasLongDescription_iff h
  rw [maxDescription] at hlong
  simp only [messages, longDescriptions_append_cons, List.map_append, hlong]
  split_ifs <;> rfl

/-- The theorem at a description of 40 characters with two macros and brackets outside them, and at
one with a further character.  A second description of the record does not count. -/
theorem longDescriptions_at_limit :
    let row : List DescriptionPart :=
      [.plain ") ".toList (by decide), .named "DEVICE=(".toList (by decide),
        .plain (List.replicate 20 'x') (by decide), .named [] (by decide),
        .plain ('(' :: List.replicate 17 'é') (by decide)]
    let longer := row ++ [.plain ['y'] (by decide)]
    let short : Record :=
      ⟨"ai", "A", [.of "DESC" (String.ofList (row.flatMap DescriptionPart.text)) false], [], []⟩
    let long : Record :=
      ⟨"ai", "B", [.of "DESC" (String.ofList (longer.flatMap DescriptionPart.text)) false,
        .of "DESC" "" false], [], []⟩
    short.fieldValue? "DESC" = some (String.ofList (row.flatMap DescriptionPart.text)) ∧
      long.fieldValue? "DESC" = some (String.ofList (longer.flatMap DescriptionPart.text)) ∧
      (longDescriptions ⟨"", [short, long]⟩).map (·.message) = ["Description too long on B"] := by
  intro row longer short long
  have hshort : short.fieldValue? "DESC" =
      some (String.ofList (row.flatMap DescriptionPart.text)) := by decide +kernel
  have hlong : long.fieldValue? "DESC" =
      some (String.ofList (longer.flatMap DescriptionPart.text)) := by decide +kernel
  refine ⟨hshort, hlong, ?_⟩
  have hfirst := longDescriptions_ignore_macros "" [] [long] short row hshort
  have hsecond := longDescriptions_ignore_macros "" [] [] long longer hlong
  have hlimit : (row.flatMap DescriptionPart.kept).length = 40 := by decide
  have hbeyond : (longer.flatMap DescriptionPart.kept).length = 41 := by decide
  simp only [List.nil_append, hlimit, hbeyond] at hfirst hsecond
  rw [hfirst, hsecond]
  rfl

end Content

end EpicsDb
