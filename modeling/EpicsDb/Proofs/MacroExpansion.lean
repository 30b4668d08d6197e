import EpicsDb.Proofs.Replacing
import Mathlib.Data.List.TakeWhile

/-!
# What is left after macros are expanded

Expansion goes over a text twice: the first pass puts in the defaults, the second one replaces the
macros that are left by a metre.  Neither pass reads again what it has written.  A default may bring
a dollar that makes up a new macro with the text behind it, so the first pass can leave macros that
were not there before; the second one leaves none, since what it writes neither opens nor closes a
macro.

* `IsMacro` says what a macro is, apart from the patterns, and `asMetre_eq_none_iff` that the second
  pattern matches where a macro starts and nowhere else.
* `macroFree_replaceAll` says that the second pass leaves no macro, and `replaceAll_of_macroFree`
  that neither pass changes a text without macros.
* `Piece` is a part of a text whose macros are not nested; `replaceAll_withDefault_text` and
  `replaceAll_asMetre_text` say what the two passes make of it, whatever follows.
-/

namespace EpicsDb.Macro

variable {c o : Char} {cs name default inner : List Char} {stop : Char → Bool}

/-! ## Macros in a text -/

/-- A macro with nothing before and nothing behind it.  Its brackets may be of two kinds. -/
inductive IsMacro : List Char → Prop
  | intro {opener closer : Char} {inner : List Char} (hopener : isOpener opener = true)
      (hinner : ∀ d ∈ inner, isCloser d = false) (hcloser : isCloser closer = true) :
      IsMacro ('$' :: opener :: (inner ++ [closer]))

/-- No macro stands in the text. -/
def MacroFree (cs : List Char) : Prop :=
  ∀ w, IsMacro w → ¬w <:+: cs

theorem upTo?_append (hinner : ∀ d ∈ inner, stop d = false) (hc : stop c = true)
    (rest : List Char) : upTo? stop (inner ++ c :: rest) = some inner := by
  have htext : (inner ++ c :: rest).takeWhile (!stop ·) = inner := by
    rw [List.takeWhile_append_of_pos (by simpa using hinner),
      List.takeWhile_cons_of_neg (by simp [hc]), List.append_nil]
  unfold upTo?
  rw [htext, if_pos]
  rw [List.length_append, List.length_cons]
  omega

/-- Either nothing stops the text, or it is cut at the first character that does. -/
theorem upTo?_cases (stop : Char → Bool) (cs : List Char) :
    (upTo? stop cs = none ∧ ∀ d ∈ cs, stop d = false) ∨
      ∃ inner c rest, upTo? stop cs = some inner ∧ cs = inner ++ c :: rest ∧ stop c = true ∧
        ∀ d ∈ inner, stop d = false := by
  cases hfind : cs.find? stop with
  | none =>
    have hall : ∀ d ∈ cs, stop d = false := by simpa using hfind
    have htext : cs.takeWhile (!stop ·) = cs := List.takeWhile_eq_self_iff.mpr (by simpa using hall)
    left
    refine ⟨?_, hall⟩
    unfold upTo?
    rw [htext, if_neg (Nat.lt_irrefl _)]
  | some c =>
    obtain ⟨hc, inner, rest, rfl, hbefore⟩ := List.find?_eq_some_iff_append.mp hfind
    have hinner : ∀ d ∈ inner, stop d = false := by simpa using hbefore
    exact .inr ⟨inner, c, rest, upTo?_append hinner hc rest, rfl, hc, hinner⟩

theorem upTo?_eq_none_iff : upTo? stop cs = none ↔ ∀ d ∈ cs, stop d = false := by
  rcases upTo?_cases stop cs with ⟨hnone, hall⟩ | ⟨inner, c, rest, hsome, rfl, hc, -⟩
  · exact iff_of_true hnone hall
  · refine iff_of_false (by simp [hsome]) fun hall => ?_
    have hstop : stop c = false := hall c (by simp)
    rw [hc] at hstop
    cases hstop

/-! ## Where the patterns match -/

theorem asMetre_eq_some (ho : isOpener o = true) (hinner : ∀ d ∈ inner, isCloser d = false)
    (hc : isCloser c = true) (rest : List Char) :
    asMetre '$' (o :: (inner ++ [c]) ++ rest) = some (['m'], (o :: (inner ++ [c])).length) := by
  have hupTo := upTo?_append hinner hc rest
  simp only [List.cons_append, List.append_assoc, List.nil_append, asMetre, atDollar_cons, ho,
    if_true, hupTo, Option.map_some, List.length_cons, List.length_append, List.length_nil]

/-- Where the second pattern does not match behind a dollar, there is no bracket or it is never
closed. -/
theorem asMetre_dollar_eq_none_iff :
    asMetre '$' (o :: cs) = none ↔ (isOpener o = true → ∀ d ∈ cs, isCloser d = false) := by
  cases ho : isOpener o with
  | false => simp [asMetre, atDollar_cons, ho]
  | true =>
    simp only [asMetre, atDollar_cons, ho, if_true, Option.map_eq_none_iff, upTo?_eq_none_iff,
      forall_const]

/-- The second pattern matches where a macro starts. -/
theorem asMetre_eq_none_iff : asMetre c cs = none ↔ ∀ w, IsMacro w → ¬w <+: c :: cs := by
  constructor
  · rintro hnone w ⟨ho, hinner, hc⟩ ⟨rest, htext⟩
    rw [List.cons_append, List.cons.injEq] at htext
    obtain ⟨rfl, rfl⟩ := htext
    rw [asMetre_eq_some ho hinner hc] at hnone
    cases hnone
  · intro h
    rw [Option.eq_none_iff_forall_ne_some]
    intro found hfound
    obtain ⟨rfl, o, ds, rfl, ho, hinside⟩ := atDollar_eq_some_iff.mp hfound
    obtain ⟨text, htext, -⟩ := Option.map_eq_some_iff.mp hinside
    rcases upTo?_cases isCloser ds with ⟨hnone, -⟩ | ⟨inner, d, rest, -, rfl, hd, hinner⟩
    · rw [hnone] at htext
      cases htext
    · exact h _ (.intro ho hinner hd) ⟨rest, by simp⟩

/-- A macro with a default is a macro. -/
theorem withDefault_eq_none_of_asMetre (h : asMetre c cs = none) : withDefault c cs = none := by
  rw [Option.eq_none_iff_forall_ne_some]
  intro found hfound
  obtain ⟨rfl, o, ds, rfl, ho, hinside⟩ := atDollar_eq_some_iff.mp hfound
  have hopen : ∀ d ∈ ds, isCloser d = false := asMetre_dollar_eq_none_iff.mp h ho
  dsimp only at hinside
  split at hinside
  · next rest hdrop =>
    have hrest : ∀ d ∈ rest, isCloser d = false := by
      intro d hd
      apply hopen d
      apply List.mem_of_mem_drop
      rw [hdrop]
      exact List.mem_cons_of_mem _ hd
    rw [upTo?_eq_none_iff.mpr hrest, Option.map_none] at hinside
    cases hinside
  · cases hinside

/-! ## Texts without macros -/

theorem macroFree_nil : MacroFree [] := by
  rintro w ⟨ho, hinner, hc⟩ hmem
  cases List.infix_nil.mp hmem

theorem macroFree_cons_iff : MacroFree (c :: cs) ↔ asMetre c cs = none ∧ MacroFree cs := by
  rw [asMetre_eq_none_iff]
  constructor
  · intro h
    refine ⟨fun w hw hhere => h w hw hhere.isInfix, fun w hw hlater => h w hw ?_⟩
    exact hlater.trans (List.suffix_cons c cs).isInfix
  · rintro ⟨hhere, hlater⟩ w hw hmem
    rcases List.infix_cons_iff.mp hmem with hmem | hmem
    · exact hhere w hw hmem
    · exact hlater w hw hmem

theorem macroFree_of_never_closed (h : ∀ d ∈ cs, isCloser d = false) : MacroFree cs := by
  rintro w (@⟨opener, closer, inner, ho, hinner, hc⟩) hmem
  have hcloser : isCloser closer = false := h closer (hmem.subset (by simp))
  rw [hc] at hcloser
  cases hcloser

/-- A pattern that matches macros only leaves a text without macros as it is. -/
theorem replaceAll_of_macroFree {pattern : Text.Pattern}
    (hpattern : ∀ {c cs}, asMetre c cs = none → pattern c cs = none) (h : MacroFree cs) :
    Text.replaceAll pattern cs = cs := by
  induction cs with
  | nil => exact Text.replaceAll_nil
  | cons c cs ih =>
    obtain ⟨hhere, hlater⟩ := macroFree_cons_iff.mp h
    rw [Text.replaceAll_cons_of_none (hpattern hhere), ih hlater]

theorem expand_of_macroFree (h : MacroFree cs) : expand cs = cs := by
  rw [expand, replaceAll_of_macroFree withDefault_eq_none_of_asMetre h,
    replaceAll_of_macroFree id h]

theorem replacement_of_asMetre {replacement : List Char} {n : Nat}
    (h : asMetre c cs = some (replacement, n)) : replacement = ['m'] := by
  obtain ⟨-, o, ds, -, -, hinside⟩ := atDollar_eq_some_iff.mp h
  obtain ⟨inner, -, hfound⟩ := Option.map_eq_some_iff.mp hinside
  exact (Prod.mk.inj hfound).1.symm

/-- A dollar that starts no macro does not start one with what the second pass puts behind it. -/
theorem asMetre_dollar_replaceAll (h : asMetre '$' cs = none) :
    asMetre '$' (Text.replaceAll asMetre cs) = none := by
  cases cs with
  | nil => rw [Text.replaceAll_nil, h]
  | cons o cs =>
    cases hmatch : asMetre o cs with
    | none =>
      rw [Text.replaceAll_cons_of_none hmatch, asMetre_dollar_eq_none_iff]
      intro ho
      -- nothing closes the bracket, so there is no macro behind it either
      have hopen : ∀ d ∈ cs, isCloser d = false := asMetre_dollar_eq_none_iff.mp h ho
      rw [replaceAll_of_macroFree id (macroFree_of_never_closed hopen)]
      exact hopen
    | some found =>
      obtain ⟨replacement, n⟩ := found
      obtain rfl : replacement = ['m'] := replacement_of_asMetre hmatch
      rw [Text.replaceAll_cons_of_some hmatch, List.singleton_append, asMetre_dollar_eq_none_iff]
      exact fun hm => absurd hm (by decide)

/-- The second pass leaves no macro. -/
theorem macroFree_replaceAll (cs : List Char) : MacroFree (Text.replaceAll asMetre cs) := by
  fun_induction Text.replaceAll asMetre cs with
  | case1 => exact macroFree_nil
  | case2 c cs replacement n hmatch ih =>
    obtain rfl : replacement = ['m'] := replacement_of_asMetre hmatch
    exact macroFree_cons_iff.mpr ⟨atDollar_eq_none (by decide) _, ih⟩
  | case3 c cs hmatch ih =>
    refine macroFree_cons_iff.mpr ⟨?_, ih⟩
    by_cases hc : c = '$'
    · subst hc
      exact asMetre_dollar_replaceAll hmatch
    · exact atDollar_eq_none hc _

/-- Expansion leaves no macro behind, and so a second expansion changes nothing.  The texts that
it leaves alone are those without macros. -/
theorem expand_removes_macros (cs : List Char) :
    MacroFree (expand cs) ∧ expand (expand cs) = expand cs ∧ (expand cs = cs ↔ MacroFree cs) := by
  have hfree : ∀ cs, MacroFree (expand cs) := fun cs => macroFree_replaceAll _
  refine ⟨hfree cs, expand_of_macroFree (hfree cs), ?_, expand_of_macroFree⟩
  intro hself
  rw [← hself]
  exact hfree cs

/-- The dollar of a default makes up a macro with the brackets behind it. -/
example : Text.replaceAll withDefault "$(A=$)(B)/s".toList = "$(B)/s".toList ∧
    expand "$(A=$)(B)/s".toList = "m/s".toList := by
  decide +kernel

/-! ## Texts whose macros are not nested -/

/-- The two kinds of brackets. -/
inductive Bracket
  | round
  | curly

namespace Bracket

def opener : Bracket → Char
  | round => '('
  | curly => '\x7b'

def closer : Bracket → Char
  | round => ')'
  | curly => '\x7d'

theorem isOpener_opener (b : Bracket) : isOpener b.opener = true := by
  cases b <;> rfl

theorem isCloser_closer (b : Bracket) : isCloser b.closer = true := by
  cases b <;> rfl

end Bracket

/-- Whether a character may stand in the default of a macro that is not nested. -/
def isDefaultChar (c : Char) : Bool :=
  c != '$' && !isCloser c

/-- Whether a character may stand in the name of a macro that is not nested. -/
def isNameChar (c : Char) : Bool :=
  c != '=' && isDefaultChar c

/-- A part of a text whose macros are not nested. -/
inductive Piece
  /-- Text without a dollar, which may have brackets. -/
  | plain (text : List Char) (htext : '$' ∉ text)
  /-- A macro without a default. -/
  | named (bracket : Bracket) (name : List Char) (hname : ∀ c ∈ name, isNameChar c = true)
  /-- A macro with a default, which may be empty and may have equals signs. -/
  | defaulted (bracket : Bracket) (name default : List Char)
      (hname : ∀ c ∈ name, isNameChar c = true) (hdefault : ∀ c ∈ default, isDefaultChar c = true)

namespace Piece

/-- The piece as it is written. -/
def text : Piece → List Char
  | plain text _ => text
  | named bracket name _ => '$' :: bracket.opener :: (name ++ [bracket.closer])
  | defaulted bracket name default _ _ =>
    '$' :: bracket.opener :: (name ++ '=' :: (default ++ [bracket.closer]))

/-- The piece after defaults are put in. -/
def withDefaults : Piece → List Char
  | defaulted _ _ default _ _ => default
  | piece => piece.text

/-- The piece after expansion. -/
def value : Piece → List Char
  | plain text _ => text
  | named _ _ _ => ['m']
  | defaulted _ _ default _ _ => default

end Piece

section Characters

variable (hname : ∀ c ∈ name, isNameChar c = true)
  (hdefault : ∀ c ∈ default, isDefaultChar c = true)

include hdefault in
theorem dollar_not_mem_default : '$' ∉ default := by
  intro hmem
  exact absurd (hdefault '$' hmem) (by decide)

include hdefault in
theorem default_never_closed : ∀ c ∈ default, isCloser c = false := by
  intro c hc
  have hchar := hdefault c hc
  simp only [isDefaultChar, Bool.and_eq_true, Bool.not_eq_true'] at hchar
  exact hchar.2

include hname in
theorem isDefaultChar_of_mem_name : ∀ c ∈ name, isDefaultChar c = true := by
  intro c hc
  have hchar := hname c hc
  rw [isNameChar, Bool.and_eq_true] at hchar
  exact hchar.2

include hname in
/-- The name of a macro is read up to the equals sign or the bracket behind it. -/
theorem takeWhile_name (hc : c = '=' ∨ isCloser c = true) (rest : List Char) :
    (name ++ c :: rest).takeWhile (fun d => d != '=' && !isCloser d) = name := by
  have hinside : ∀ d ∈ name, (d != '=' && !isCloser d) = true := by
    intro d hd
    have hopen := default_never_closed (isDefaultChar_of_mem_name hname) d hd
    have hchar := hname d hd
    rw [isNameChar, Bool.and_eq_true] at hchar
    rw [hchar.1, hopen]
    rfl
  have hstop : (c != '=' && !isCloser c) = false := by
    rcases hc with rfl | hc
    · decide
    · simp [hc]
  rw [List.takeWhile_append_of_pos hinside]
  simp [hstop]

include hname in
theorem withDefault_named (bracket : Bracket) (rest : List Char) :
    withDefault '$' (bracket.opener :: (name ++ [bracket.closer]) ++ rest) = none := by
  have hne : bracket.closer ≠ '=' := by cases bracket <;> decide
  have hread := takeWhile_name hname (.inr bracket.isCloser_closer) rest
  simp only [List.cons_append, List.append_assoc, List.nil_append, withDefault, atDollar_cons,
    bracket.isOpener_opener, if_true, hread, List.drop_left]
  split
  · next later hlater => exact absurd (List.cons.inj hlater).1 hne
  · rfl

include hname hdefault in
theorem withDefault_defaulted (bracket : Bracket) (rest : List Char) :
    let inner := bracket.opener :: (name ++ '=' :: (default ++ [bracket.closer]))
    withDefault '$' (inner ++ rest) = some (default, inner.length) := by
  intro inner
  have hlength : inner.length = name.length + default.length + 3 := by
    simp only [inner, List.length_cons, List.length_append, List.length_nil]
    omega
  have hread := takeWhile_name hname (.inl rfl) (default ++ bracket.closer :: rest)
  have hupTo := upTo?_append (default_never_closed hdefault) bracket.isCloser_closer rest
  rw [hlength]
  simp only [inner, List.cons_append, List.append_assoc, List.nil_append, withDefault,
    atDollar_cons, bracket.isOpener_opener, if_true, hread, List.drop_left, hupTo, Option.map_some]

end Characters

/-- The first pass puts in the default of a macro and leaves any other piece as it is. -/
theorem replaceAll_withDefault_text (piece : Piece) (rest : List Char) :
    Text.replaceAll withDefault (piece.text ++ rest) =
      piece.withDefaults ++ Text.replaceAll withDefault rest := by
  cases piece with
  | plain text htext => exact replaceAll_atDollar_append htext rest
  | named bracket name hname =>
    have hplain : '$' ∉ bracket.opener :: (name ++ [bracket.closer]) := by
      have hdollar := dollar_not_mem_default (isDefaultChar_of_mem_name hname)
      cases bracket <;> simpa [Bracket.opener, Bracket.closer] using hdollar
    show Text.replaceAll withDefault ('$' :: (_ ++ rest)) = '$' :: (_ ++ _)
    rw [Text.replaceAll_cons_of_none (withDefault_named hname bracket rest)]
    exact congrArg ('$' :: ·) (replaceAll_atDollar_append hplain rest)
  | defaulted bracket name default hname hdefault =>
    exact Text.replaceAll_match_append (withDefault_defaulted hname hdefault bracket rest)

/-- The second pass replaces the macros without a default. -/
theorem replaceAll_asMetre_text (piece : Piece) (rest : List Char) :
    Text.replaceAll asMetre (piece.withDefaults ++ rest) =
      piece.value ++ Text.replaceAll asMetre rest := by
  cases piece with
  | plain text htext => exact replaceAll_atDollar_append htext rest
  | named bracket name hname =>
    have hopen := default_never_closed (isDefaultChar_of_mem_name hname)
    exact Text.replaceAll_match_append
      (asMetre_eq_some bracket.isOpener_opener hopen bracket.isCloser_closer rest)
  | defaulted bracket name default hname hdefault =>
    exact replaceAll_atDollar_append (dollar_not_mem_default hdefault) rest

/-- A text of plain pieces and macros that are not nested is expanded piece by piece: a macro with a
default becomes the default, and one without becomes a metre. -/
theorem expand_piece_by_piece (row : List Piece) :
    expand (row.flatMap Piece.text) = row.flatMap Piece.value := by
  rw [expand, Text.replaceAll_flatMap replaceAll_withDefault_text,
    Text.replaceAll_flatMap replaceAll_asMetre_text]

/-- Closers outside macros, an empty default, and a default with an equals sign and a bracket. -/
example : expand "1)=$(A)/$\x7bB=\x7d$\x7bC==(k\x7dm".toList = "1)=m/=(km".toList := by
  decide +kernel

end EpicsDb.Macro
