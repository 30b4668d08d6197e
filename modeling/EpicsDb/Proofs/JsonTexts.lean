import EpicsDb.Json.Printer
import EpicsDb.Json.Reader
import EpicsDb.Proofs.SpacedTexts

/-!
# JSON texts

A JSON text is made of pieces with blanks between them.  Reading it gives the value that it was
written for, however the blanks are chosen; the printer makes one such choice.

* `escapeChar_cases` says how a character is written, and `unescape?_escape` that escapes can be
  undone.
* `pieces` are the pieces of a value, and `Writes` says that a text is made of them.
* `Plain.reads` is the induction over values, and `parse_of_writes` is the result for whole texts.
  Numbers are left out: nothing that is written here has any.
* `Plain.writes_pretty` says this of the printer, so that `Plain.parse_pretty` follows.
-/

namespace EpicsDb.Json

open Text (Spaced Reads listPieces ne_nil_of_mem_listPieces)

variable {c : Char} {cs text rest : List Char} {j : Json} {n : Nat}

/-! ## Escapes -/

/-- The characters that have a short escape, and the letters of their escapes. -/
def shortEscapes : List (Char × Char) :=
  [('"', '"'), ('\\', '\\'), ('\x08', 'b'), ('\x0c', 'f'), ('\n', 'n'), ('\r', 'r'), ('\t', 't')]

/-- The four digits of the escape of a control character. -/
def controlDigits (n : Nat) : List Char :=
  ['0', '0', Text.hexDigit (n / 16), Text.hexDigit (n % 16)]

/-- The characters that are written as they are. -/
def IsPlain (c : Char) : Prop :=
  c ≠ '"' ∧ c ≠ '\\' ∧ 0x20 ≤ c.toNat

instance : DecidablePred IsPlain :=
  fun c => inferInstanceAs (Decidable (c ≠ '"' ∧ c ≠ '\\' ∧ 0x20 ≤ c.toNat))

/-- The three ways in which a character is written inside a string. -/
theorem escapeChar_cases (c : Char) :
    (∃ e, (c, e) ∈ shortEscapes ∧ escapeChar c = ['\\', e]) ∨
      (c.toNat < 0x20 ∧ escapeChar c = '\\' :: 'u' :: controlDigits c.toNat) ∨
      (IsPlain c ∧ escapeChar c = [c]) := by
  unfold escapeChar
  split_ifs with hquote hslash hback hform hline hreturn htab hcontrol
  · exact .inl ⟨'"', by simp [hquote, shortEscapes], rfl⟩
  · exact .inl ⟨'\\', by simp [hslash, shortEscapes], rfl⟩
  · exact .inl ⟨'b', by simp [hback, shortEscapes], rfl⟩
  · exact .inl ⟨'f', by simp [hform, shortEscapes], rfl⟩
  · exact .inl ⟨'n', by simp [hline, shortEscapes], rfl⟩
  · exact .inl ⟨'r', by simp [hreturn, shortEscapes], rfl⟩
  · exact .inl ⟨'t', by simp [htab, shortEscapes], rfl⟩
  · exact .inr (.inl ⟨hcontrol, rfl⟩)
  · exact .inr (.inr ⟨⟨hquote, hslash, Nat.le_of_not_lt hcontrol⟩, rfl⟩)

theorem escapeChar_of_isPlain (hc : IsPlain c) : escapeChar c = [c] := by
  rcases escapeChar_cases c with ⟨e, hmem, -⟩ | ⟨hcontrol, -⟩ | ⟨-, hescape⟩
  · have hnone : ∀ p ∈ shortEscapes, ¬IsPlain p.1 := by decide
    exact absurd hc (hnone _ hmem)
  · exact absurd hcontrol (Nat.not_lt.mpr hc.2.2)
  · exact hescape

theorem escape_of_isPlain (h : ∀ c ∈ text, IsPlain c) : escape text = text := by
  rw [escape, List.flatMap_congr fun c hc => escapeChar_of_isPlain (h c hc)]
  exact List.flatMap_singleton' text

theorem all_isDigitOf_controlDigits :
    ∀ n < 0x20, (controlDigits n).all (Text.isDigitOf 16) = true := by
  decide

theorem ofDigits_controlDigits : ∀ n < 0x20, Text.ofDigits 16 (controlDigits n) = n := by
  decide

theorem fixedDigits?_controlDigits (hn : n < 0x20) (rest : List Char) :
    Text.fixedDigits? 16 4 (controlDigits n ++ rest) = some (n, rest) := by
  have hdigits := all_isDigitOf_controlDigits n hn
  have hvalue := ofDigits_controlDigits n hn
  show (if _ then some (Text.ofDigits 16 (controlDigits n), rest) else none) = _
  rw [if_pos ⟨rfl, hdigits⟩, hvalue]

/-! ## Strings -/

theorem stringBody_escapeChar (c : Char) (rest : List Char) :
    stringBody (escapeChar c ++ rest) = consRaw (escapeChar c) (stringBody rest) := by
  rcases escapeChar_cases c with ⟨e, hmem, hescape⟩ | ⟨hcontrol, hescape⟩ | ⟨hplain, hescape⟩
  · rw [hescape]
    simp only [shortEscapes, List.mem_cons, Prod.mk.injEq, List.not_mem_nil, or_false] at hmem
    rcases hmem with h | h | h | h | h | h | h <;> (rw [h.2]; rfl)
  · rw [hescape]
    have hdigits := all_isDigitOf_controlDigits c.toNat hcontrol
    exact if_pos hdigits
  · obtain ⟨hquote, hslash, hlarge⟩ := hplain
    have hsmall : ¬c.toNat < 0x20 := Nat.not_lt.mpr hlarge
    simp [hescape, stringBody, hslash, hsmall]

theorem stringBody_escape (text rest : List Char) :
    stringBody (escape text ++ '"' :: rest) = some (escape text, rest) := by
  induction text with
  | nil => rfl
  | cons c text ih =>
    rw [escape, List.flatMap_cons, List.append_assoc, stringBody_escapeChar]
    change consRaw _ (stringBody (escape text ++ '"' :: rest)) = _
    rw [ih]
    rfl

theorem unescapeFrom_escapeChar (c : Char) (rest : List Char) :
    unescapeFrom none (escapeChar c ++ rest) = consText c (unescapeFrom none rest) := by
  rcases escapeChar_cases c with ⟨e, hmem, hescape⟩ | ⟨hcontrol, hescape⟩ | ⟨hplain, hescape⟩
  · rw [hescape]
    simp only [shortEscapes, List.mem_cons, Prod.mk.injEq, List.not_mem_nil, or_false] at hmem
    rcases hmem with h | h | h | h | h | h | h <;> (rw [h.1, h.2]; rfl)
  · have hdigits := fixedDigits?_controlDigits hcontrol []
    have hhigh : isHighSurrogate c.toNat = false := by
      simp only [isHighSurrogate, Bool.and_eq_false_iff, decide_eq_false_iff_not]
      omega
    have hlow : isLowSurrogate c.toNat = false := by
      simp only [isLowSurrogate, Bool.and_eq_false_iff, decide_eq_false_iff_not]
      omega
    rw [List.append_nil, controlDigits] at hdigits
    rw [controlDigits] at hescape
    rw [hescape, unescapeFrom.eq_def]
    simp [hdigits, hhigh, hlow, Char.ofNat_toNat]
  · obtain ⟨-, hslash, -⟩ := hplain
    simp [hescape, unescapeFrom, hslash]

theorem unescape?_escape (text : List Char) : unescape? (escape text) = some text := by
  rw [unescape?]
  induction text with
  | nil => rfl
  | cons c text ih =>
    rw [escape, List.flatMap_cons, unescapeFrom_escapeChar]
    change consText c (unescapeFrom none (escape text)) = _
    rw [ih]
    rfl

theorem escape_injective : Function.Injective escape := by
  intro a b hab
  have hread := unescape?_escape a
  rw [hab, unescape?_escape] at hread
  exact (Option.some.inj hread).symm

/-! ## The pieces of a value -/

mutual

/-- The pieces that a value is written with: marks, words, and strings with their quotes. -/
def pieces : Json → List (List Char)
  | .null => ["null".toList]
  | .bool b => [(if b then "true" else "false").toList]
  | .number raw => [raw]
  | .string raw => [quote raw]
  | .array items => ['['] :: listPieces ']' (itemPieces items)
  | .object members => ['\x7b'] :: listPieces '\x7d' (memberPieces members)

/-- The pieces of each item of an array. -/
def itemPieces : List Json → List (List (List Char))
  | [] => []
  | x :: xs => pieces x :: itemPieces xs

/-- The pieces of each member of an object. -/
def memberPieces : List (List Char × Json) → List (List (List Char))
  | [] => []
  | (key, x) :: ms => (quote key :: [':'] :: pieces x) :: memberPieces ms

end

/-- A value without numbers, in which every string is the escaped form of a text. -/
inductive Plain : Json → Prop where
  | null : Plain .null
  | bool (b : Bool) : Plain (.bool b)
  | string (text : List Char) : Plain (.string (escape text))
  | array {items : List Json} (hitems : ∀ x ∈ items, Plain x) : Plain (.array items)
  | object {members : List (List Char × Json)} (hkeys : ∀ m ∈ members, ∃ text, m.1 = escape text)
      (hvalues : ∀ m ∈ members, Plain m.2) : Plain (.object members)

theorem plain_ofText (s : String) : Plain (.ofText s) :=
  .string s.toList

theorem plain_ofMembers {members : List (String × Json)} (h : ∀ m ∈ members, Plain m.2) :
    Plain (.ofMembers members) := by
  refine .object ?_ ?_
  · intro m hm
    obtain ⟨member, -, rfl⟩ := List.mem_map.mp hm
    exact ⟨member.1.toList, rfl⟩
  · intro m hm
    obtain ⟨member, hmember, rfl⟩ := List.mem_map.mp hm
    exact h member hmember

theorem plain_array_map {α : Type} {f : α → Json} {xs : List α} (h : ∀ x, Plain (f x)) :
    Plain (.array (xs.map f)) := by
  refine .array ?_
  intro j hj
  obtain ⟨x, -, rfl⟩ := List.mem_map.mp hj
  exact h x

/-- The text is made of the pieces of the value, with blanks between and around them. -/
def Writes (j : Json) (text : String) : Prop :=
  ∃ v gap, text.toList = v ++ gap ∧ Spaced isBlank j.pieces v ∧ ∀ c ∈ gap, isBlank c = true

/-! ## Reading -/

theorem value_closing (n : Nat) (cs : List Char) : value n (']' :: cs) = none := by
  cases n with
  | zero => rfl
  | succ n => rfl

theorem itemPieces_eq_map (items : List Json) : itemPieces items = items.map pieces := by
  induction items with
  | nil => rfl
  | cons x xs ih => rw [itemPieces, ih, List.map_cons]

theorem memberPieces_eq_map (members : List (List Char × Json)) :
    memberPieces members = members.map fun m => quote m.1 :: [':'] :: m.2.pieces := by
  induction members with
  | nil => rfl
  | cons m ms ih => rw [memberPieces, ih, List.map_cons]

theorem reads_string (inner : List Char) (n : Nat) :
    Reads isBlank (value (n + 1)) (.string (escape inner)) [quote (escape inner)] := by
  intro text rest htext
  obtain ⟨later, hlater, hskip⟩ := Spaced.skip_quoted htext (by decide) rest
  obtain rfl := hlater.eq_nil
  rw [hskip]
  show (stringBody (escape inner ++ '"' :: rest)).map _ = _
  rw [stringBody_escape]
  rfl

/-- A key and a value with a colon between them. -/
theorem reads_member {valueReader : Text.Reader Json} (key : List Char)
    (h : Reads isBlank valueReader j j.pieces) :
    Reads isBlank (member valueReader) (escape key, j)
      (quote (escape key) :: [':'] :: j.pieces) := by
  intro text rest htext
  obtain ⟨afterKey, hafterKey, hskip⟩ := Spaced.skip_quoted htext (by decide) rest
  obtain ⟨afterColon, hafterColon, hskip'⟩ := hafterKey.skip (by decide) rest
  have hvalue := h afterColon rest hafterColon
  rw [List.nil_append] at hskip'
  rw [hskip, member, stringBody_escape]
  simp [skipBlanks, hskip', hvalue]

theorem forall₂_reads_items {items : List Json}
    (h : ∀ x ∈ items, Reads isBlank (value n) x x.pieces) :
    List.Forall₂ (Reads isBlank (value n)) items (itemPieces items) := by
  rw [itemPieces_eq_map, List.forall₂_map_right_iff, List.forall₂_same]
  exact h

theorem forall₂_reads_members {members : List (List Char × Json)}
    (hkeys : ∀ m ∈ members, ∃ text, m.1 = escape text)
    (h : ∀ m ∈ members, Reads isBlank (value n) m.2 m.2.pieces) :
    List.Forall₂ (Reads isBlank (member (value n))) members (memberPieces members) := by
  rw [memberPieces_eq_map, List.forall₂_map_right_iff, List.forall₂_same]
  intro m hm
  obtain ⟨key, hkey⟩ := hkeys m hm
  have hmember := reads_member key (h m hm)
  rw [← hkey] at hmember
  exact hmember

/-- Reading a value that is written with blanks before its pieces. -/
theorem Plain.reads (h : Plain j) (hn : j.pieces.length ≤ n) :
    Reads isBlank (value n) j j.pieces := by
  induction h generalizing n with
  | null =>
    obtain ⟨n, rfl⟩ := Nat.exists_eq_add_one.mpr hn
    intro text rest htext
    rw [Spaced.skip_last htext (by decide)]
    rfl
  | bool b =>
    obtain ⟨n, rfl⟩ := Nat.exists_eq_add_one.mpr hn
    intro text rest htext
    cases b with
    | true =>
      rw [Spaced.skip_last htext (by decide)]
      rfl
    | false =>
      rw [Spaced.skip_last htext (by decide)]
      rfl
  | string inner =>
    obtain ⟨n, rfl⟩ := Nat.exists_eq_add_one.mpr hn
    exact reads_string inner n
  | @array items hitems ih =>
    rw [pieces, List.length_cons] at hn
    obtain ⟨n, rfl⟩ := Nat.exists_eq_add_one.mpr (Nat.lt_of_lt_of_le (Nat.succ_pos _) hn)
    have hreads := forall₂_reads_items fun x hx => by
      have hmem : x.pieces ∈ itemPieces items := by
        rw [itemPieces_eq_map]
        exact List.mem_map_of_mem hx
      have hlt := Text.length_lt_listPieces ']' hmem
      exact ih x hx (by omega : x.pieces.length ≤ n)
    exact Reads.bracketed (by decide) (by decide) (by decide) (by decide) (value_closing n)
      (fun _ => rfl) hreads
  | @object members hkeys hvalues ih =>
    rw [pieces, List.length_cons] at hn
    obtain ⟨n, rfl⟩ := Nat.exists_eq_add_one.mpr (Nat.lt_of_lt_of_le (Nat.succ_pos _) hn)
    have hreads := forall₂_reads_members hkeys fun m hm => by
      have hmem : quote m.1 :: [':'] :: m.2.pieces ∈ memberPieces members := by
        rw [memberPieces_eq_map]
        exact List.mem_map_of_mem hm
      have hlt := Text.length_lt_listPieces '\x7d' hmem
      simp only [List.length_cons] at hlt
      exact ih m hm (by omega : m.2.pieces.length ≤ n)
    exact Reads.bracketed (by decide) (by decide) (by decide) (by decide) (fun _ => rfl)
      (fun _ => rfl) hreads

theorem Plain.piece_ne_nil (h : Plain j) : ∀ p ∈ j.pieces, p ≠ [] := by
  induction h with
  | null => simp [pieces]
  | bool b => cases b <;> simp [pieces]
  | string inner => simp [pieces, quote]
  | @array items hitems ih =>
    have hlist : ∀ ps ∈ itemPieces items, ∀ p ∈ ps, p ≠ [] := by
      rw [itemPieces_eq_map, List.forall_mem_map]
      exact ih
    exact List.forall_mem_cons.mpr ⟨List.cons_ne_nil _ _, fun _ => ne_nil_of_mem_listPieces hlist⟩
  | @object members hkeys hvalues ih =>
    have hlist : ∀ ps ∈ memberPieces members, ∀ p ∈ ps, p ≠ [] := by
      rw [memberPieces_eq_map, List.forall_mem_map]
      intro m hm
      simpa [quote] using ih m hm
    exact List.forall_mem_cons.mpr ⟨List.cons_ne_nil _ _, fun _ => ne_nil_of_mem_listPieces hlist⟩

/-- Reading a text gives the value that it is written for. -/
theorem parse_of_writes (h : Plain j) {text : String} (htext : j.Writes text) :
    parse text = some j := by
  obtain ⟨v, gap, hsplit, hv, hgap⟩ := htext
  have hfuel : j.pieces.length ≤ text.toList.length := by
    rw [hsplit, List.length_append]
    exact Nat.le_add_right_of_le (hv.length_le h.piece_ne_nil)
  have hvalue : value text.toList.length (skipBlanks text.toList) = some (j, gap) := by
    rw [hsplit] at hfuel ⊢
    exact h.reads hfuel v gap hv
  have hempty : skipBlanks gap = [] := List.dropWhile_eq_nil_iff.mpr hgap
  simp [parse, hvalue, hempty]

/-! ## Printing -/

theorem isBlank_indent (level : Nat) : ∀ c ∈ indent level, isBlank c = true := by
  intro c hc
  rcases List.mem_cons.mp hc with rfl | hc
  · rfl
  · rw [List.eq_of_mem_replicate hc]
    rfl

theorem pieces_ne_nil (j : Json) : j.pieces ≠ [] := by
  cases j <;> simp [pieces]

theorem renderItems_eq_flatMap (level : Nat) (items : List Json) :
    renderItems level items =
      (items.map (render level)).flatMap fun t => [','] ++ (indent level ++ t) := by
  induction items with
  | nil => rfl
  | cons x xs ih => simp [renderItems, ih]

theorem renderMembers_eq_flatMap (level : Nat) (members : List (List Char × Json)) :
    renderMembers level members =
      (members.map fun m => quote m.1 ++ ([':', ' '] ++ render level m.2)).flatMap
        fun t => [','] ++ (indent level ++ t) := by
  induction members with
  | nil => rfl
  | cons m ms ih => simp [renderMembers, ih]

theorem spaced_member (key : List Char) {level : Nat}
    (h : Spaced isBlank j.pieces (render level j)) :
    Spaced isBlank (quote key :: [':'] :: j.pieces)
      (quote key ++ ([':', ' '] ++ render level j)) := by
  have hvalue : Spaced isBlank j.pieces ([' '] ++ render level j) :=
    h.prepend (by simp [isBlank]) (pieces_ne_nil j)
  exact (hvalue.cons_piece [':']).cons_piece (quote key)

/-- The printer puts blanks between pieces. -/
theorem Plain.spaced_render (h : Plain j) (level : Nat) :
    Spaced isBlank j.pieces (render level j) := by
  induction h generalizing level with
  | null => exact Spaced.nil.cons_piece _
  | bool b => cases b <;> exact Spaced.nil.cons_piece _
  | string inner =>
    have hstring : Spaced isBlank [quote (escape inner)] (quote (escape inner) ++ []) :=
      Spaced.nil.cons_piece _
    rwa [List.append_nil] at hstring
  | @array items hitems ih =>
    cases items with
    | nil => exact (Spaced.nil.cons_piece [']']).cons_piece ['[']
    | cons x xs =>
      have hlater : List.Forall₂ (fun ps t => ps ≠ [] ∧ Spaced isBlank ps t) (itemPieces xs)
          (xs.map (render (level + 1))) := by
        rw [itemPieces_eq_map, List.forall₂_map_left_iff, List.forall₂_map_right_iff,
          List.forall₂_same]
        intro y hy
        exact ⟨pieces_ne_nil y, ih y (List.mem_cons_of_mem x hy) (level + 1)⟩
      have hfirst := (ih x List.mem_cons_self (level + 1)).prepend (isBlank_indent (level + 1))
        (pieces_ne_nil x)
      have hlist := hfirst.list ']' (isBlank_indent (level + 1)) (isBlank_indent level) hlater
      rw [← renderItems_eq_flatMap] at hlist
      simpa [render, pieces, itemPieces] using hlist.cons_piece ['[']
  | @object members hkeys hvalues ih =>
    cases members with
    | nil => exact (Spaced.nil.cons_piece ['\x7d']).cons_piece ['\x7b']
    | cons m ms =>
      have hlater : List.Forall₂ (fun ps t => ps ≠ [] ∧ Spaced isBlank ps t) (memberPieces ms)
          (ms.map fun m => quote m.1 ++ ([':', ' '] ++ render (level + 1) m.2)) := by
        rw [memberPieces_eq_map, List.forall₂_map_left_iff, List.forall₂_map_right_iff,
          List.forall₂_same]
        intro m' hm'
        have hvalue := ih m' (List.mem_cons_of_mem m hm') (level + 1)
        exact ⟨List.cons_ne_nil _ _, spaced_member _ hvalue⟩
      have hfirst := (spaced_member m.1 (ih m List.mem_cons_self (level + 1))).prepend
        (isBlank_indent (level + 1)) (List.cons_ne_nil _ _)
      have hlist := hfirst.list '\x7d' (isBlank_indent (level + 1)) (isBlank_indent level) hlater
      rw [← renderMembers_eq_flatMap] at hlist
      simpa [render, pieces, memberPieces] using hlist.cons_piece ['\x7b']

theorem Plain.writes_pretty (h : Plain j) : j.Writes j.pretty := by
  refine ⟨render 0 j, [], ?_, h.spaced_render 0, by simp⟩
  rw [pretty, String.toList_ofList, List.append_nil]

/-- Reading what was printed gives the value back. -/
theorem Plain.parse_pretty (h : Plain j) : parse j.pretty = some j :=
  parse_of_writes h h.writes_pretty

end EpicsDb.Json
