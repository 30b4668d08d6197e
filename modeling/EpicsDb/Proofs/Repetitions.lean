import EpicsDb.Content.Rules
import EpicsDb.Proofs.ByteOrder
import Mathlib.Data.Finset.Sort
import Mathlib.Data.List.Forall2
import Mathlib.Data.List.Sort

/-!
# What is found as repeated

Names of records and names of fields are gone through with the names before in mind.  A name is found
where it occurs for the second time, and so it is found once however often it occurs after that.

* `mem_repeated_iff` and `nodup_repeated` say which names are found, whatever came before.
* `scanOnce` and `scanAgain` find names with sets in mind.  `Marks` is what the two sets of the
  first hold, with one lemma for each way of a step, and `scanOnce_eq_repeated` is the run.
  `repeatedRecords_eq_scanOnce` and `sort_scanAgain` say that records and fields are found so.
* `pairwise_repeated` is the order in which they are found.  `SecondBefore` is about all names, those
  before included, so that it is the same at every step along the names.
* `pairwise_repeatedFieldNames` is the order in which the fields of a record are listed.
* `repeatedFields_eq_map` says that the records with repeated fields are found in their order.
-/

namespace EpicsDb.Content

variable {seen names : List String} {name : String}

/-! ## Names -/

/-- A name is found if its second occurrence is not among the names before. -/
theorem mem_repeated_iff :
    name ∈ repeated seen names ↔
      seen.count name ≤ 1 ∧ 2 ≤ seen.count name + names.count name := by
  induction names generalizing seen with
  | nil =>
    simp only [repeated, List.not_mem_nil, List.count_nil, false_iff]
    omega
  | cons first names ih =>
    have hlater : name ∈ repeated (first :: seen) names ↔ _ := ih
    unfold repeated
    by_cases hfirst : first = name
    · subst hfirst
      rw [List.count_cons_self] at hlater ⊢
      split_ifs with hcount
      · simp only [List.mem_cons, true_or, true_iff]
        omega
      · rw [hlater]
        omega
    · rw [List.count_cons_of_ne hfirst] at hlater ⊢
      split_ifs
      · rw [List.mem_cons, hlater]
        simp [Ne.symm hfirst]
      · exact hlater

theorem nodup_repeated (seen names : List String) : (repeated seen names).Nodup := by
  induction names generalizing seen with
  | nil => exact List.nodup_nil
  | cons first names ih =>
    unfold repeated
    split_ifs with hcount
    · refine List.nodup_cons.mpr ⟨?_, ih _⟩
      -- the name has been seen twice now
      rw [mem_repeated_iff, List.count_cons_self]
      omega
    · exact ih _

theorem mem_repeated_nil_iff : name ∈ repeated [] names ↔ 2 ≤ names.count name := by
  rw [mem_repeated_iff, List.count_nil]
  omega

theorem messages_repeatedRecords (db : Database) :
    (repeatedRecords db).map (·.message) =
      (repeated [] (db.records.map (·.name))).map ("Multiple instances of " ++ ·) :=
  List.map_map

/-! ## Names in sets -/

/-- The names that are found with two sets in mind: those that have been seen, and those that have
been reported. -/
def scanOnce (seen reported : Finset String) : List String → List String
  | [] => []
  | name :: names =>
    if name ∈ seen ∧ name ∉ reported then
      name :: scanOnce (insert name seen) (insert name reported) names
    else scanOnce (insert name seen) reported names

/-- Every occurrence of a name but its first one, with the set of those that have been seen in
mind. -/
def scanAgain (seen : Finset String) : List String → List String
  | [] => []
  | name :: names =>
    if name ∈ seen then name :: scanAgain seen names else scanAgain (insert name seen) names

/-- The sets hold what has occurred before, once and twice at least. -/
structure Marks (before : List String) (seen reported : Finset String) : Prop where
  seen : ∀ name, name ∈ seen ↔ 1 ≤ before.count name
  reported : ∀ name, name ∈ reported ↔ 2 ≤ before.count name

section Marks

variable {before : List String} {marked reported : Finset String}

theorem marks_nil : Marks [] ∅ ∅ :=
  ⟨by simp, by simp⟩

/-- A name that has been seen and not reported occurs for the second time. -/
theorem Marks.second_iff (h : Marks before marked reported) (name : String) :
    name ∈ marked ∧ name ∉ reported ↔ before.count name = 1 := by
  rw [h.seen, h.reported]
  omega

theorem Marks.mem_insert_iff (h : Marks before marked reported) (other : String) :
    other ∈ insert name marked ↔ 1 ≤ (name :: before).count other := by
  by_cases hother : other = name
  · simp [hother]
  · simp [hother, h.seen, List.count_cons_of_ne (Ne.symm hother)]

theorem Marks.report (h : Marks before marked reported) (hsecond : before.count name = 1) :
    Marks (name :: before) (insert name marked) (insert name reported) := by
  refine ⟨h.mem_insert_iff, fun other => ?_⟩
  by_cases hother : other = name
  · simp [hother, hsecond]
  · simp [hother, h.reported, List.count_cons_of_ne (Ne.symm hother)]

theorem Marks.skip (h : Marks before marked reported) (hnot : before.count name ≠ 1) :
    Marks (name :: before) (insert name marked) reported := by
  refine ⟨h.mem_insert_iff, fun other => ?_⟩
  rw [h.reported]
  by_cases hother : other = name
  · subst hother
    rw [List.count_cons_self]
    omega
  · rw [List.count_cons_of_ne (Ne.symm hother)]

/-- With the two sets in mind, the same names are found. -/
theorem scanOnce_eq_repeated (h : Marks before marked reported) (names : List String) :
    scanOnce marked reported names = repeated before names := by
  induction names generalizing before marked reported with
  | nil => rfl
  | cons name names ih =>
    rw [scanOnce, repeated]
    simp only [h.second_iff]
    split_ifs with hsecond
    · rw [ih (h.report hsecond)]
    · exact ih (h.skip hsecond)

/-- Records are gone through once, with two sets that are empty at first. -/
theorem repeatedRecords_eq_scanOnce (db : Database) :
    repeatedRecords db = (scanOnce ∅ ∅ (db.records.map (·.name))).map .repeatedRecord := by
  rw [repeatedRecords, scanOnce_eq_repeated marks_nil]

end Marks

/-- What is found again is what occurs twice, names that have been seen counted once more. -/
theorem mem_scanAgain_iff {marked : Finset String} :
    name ∈ scanAgain marked names ↔
      2 ≤ (if name ∈ marked then 1 else 0) + names.count name := by
  induction names generalizing marked with
  | nil =>
    simp only [scanAgain, List.not_mem_nil, List.count_nil, false_iff]
    split_ifs <;> omega
  | cons first names ih =>
    rw [scanAgain]
    by_cases hfirst : first = name
    · subst hfirst
      rw [List.count_cons_self]
      split_ifs with hseen
      · simp only [List.mem_cons, true_or, true_iff]
        omega
      · rw [ih, if_pos (Finset.mem_insert_self first marked)]
        omega
    · rw [List.count_cons_of_ne hfirst]
      have hinsert : name ∈ insert first marked ↔ name ∈ marked := by
        simp [Ne.symm hfirst]
      split
      · rw [List.mem_cons, or_iff_right (Ne.symm hfirst), ih]
      · simp only [ih, hinsert]

/-! ## The order of the names -/

/-- At the given index the name occurs, after `n` occurrences before. -/
def OccursAt (n : Nat) (names : List String) (i : Nat) (name : String) : Prop :=
  names[i]? = some name ∧ (names.take i).count name = n

instance (n : Nat) (names : List String) (i : Nat) (name : String) :
    Decidable (OccursAt n names i name) :=
  inferInstanceAs (Decidable (_ ∧ _))

section Order

variable {a b : String} {m n i j : Nat}

namespace OccursAt

theorem count_take_succ (h : OccursAt n names i name) :
    (names.take (i + 1)).count name = n + 1 := by
  obtain ⟨hname, hcount⟩ := h
  rw [List.take_add_one, hname, List.count_append, hcount, Option.toList_some,
    List.count_singleton_self]

theorem lt_of_lt (hi : OccursAt m names i name) (hj : OccursAt n names j name) (hij : i < j) :
    m < n := by
  have hle : (names.take (i + 1)).count name ≤ (names.take j).count name :=
    (List.take_prefix_take_left hij).sublist.count_le name
  rw [hi.count_take_succ, hj.2] at hle
  exact hle

theorem index_unique (hi : OccursAt n names i name) (hj : OccursAt n names j name) : i = j := by
  have hnot : ¬n < n := Nat.lt_irrefl n
  rcases Nat.lt_trichotomy i j with hij | hij | hij
  · exact absurd (hi.lt_of_lt hj hij) hnot
  · exact hij
  · exact absurd (hj.lt_of_lt hi hij) hnot

theorem mem_repeated (h : OccursAt 1 names i name) : name ∈ repeated [] names := by
  have hle : (names.take (i + 1)).count name ≤ names.count name :=
    (List.take_sublist _ _).count_le name
  rw [h.count_take_succ] at hle
  exact mem_repeated_nil_iff.mpr hle

end OccursAt

/-- The second occurrence of the first name comes before that of the other one. -/
def SecondBefore (names : List String) (a b : String) : Prop :=
  ∀ i j, OccursAt 1 names i a → OccursAt 1 names j b → i < j

/-- What is still to be found does not occur a second time among the names before. -/
theorem length_le_of_mem_repeated (hmem : name ∈ repeated seen names)
    (h : OccursAt 1 (seen.reverse ++ names) i name) : seen.length ≤ i := by
  by_contra hlt
  have hle : ((seen.reverse ++ names).take (i + 1)).count name ≤ seen.reverse.count name := by
    rw [List.take_append_of_le_length (by rw [List.length_reverse]; omega)]
    exact (List.take_sublist _ _).count_le name
  rw [h.count_take_succ, List.count_reverse] at hle
  have hseen := (mem_repeated_iff.mp hmem).1
  omega

/-- Names are found in the order of their second occurrences. -/
theorem pairwise_repeated (seen names : List String) :
    (repeated seen names).Pairwise (SecondBefore (seen.reverse ++ names)) := by
  induction names generalizing seen with
  | nil => exact .nil
  | cons first names ih =>
    have hall : (first :: seen).reverse ++ names = seen.reverse ++ first :: names := by
      rw [List.reverse_cons, List.append_assoc, List.singleton_append]
    have hlater := ih (first :: seen)
    rw [hall] at hlater
    unfold repeated
    split_ifs with hcount
    · refine List.pairwise_cons.mpr ⟨?_, hlater⟩
      intro b hb i j hi hj
      have hhere : OccursAt 1 (seen.reverse ++ first :: names) seen.length first :=
        ⟨by simp, by simpa using hcount⟩
      have hbehind := length_le_of_mem_repeated hb (hall ▸ hj)
      rw [hi.index_unique hhere]
      exact hbehind
    · exact hlater

/-- One of two different members of a list comes before the other. -/
theorem pair_sublist_or {l : List String} (ha : a ∈ l) (hb : b ∈ l) (hne : a ≠ b) :
    [a, b].Sublist l ∨ [b, a].Sublist l := by
  obtain ⟨front, back, rfl⟩ := List.append_of_mem ha
  rcases List.mem_append.mp hb with hb | hb
  · right
    exact (List.singleton_sublist.mpr hb).append (List.singleton_sublist.mpr List.mem_cons_self)
  · left
    have hback : b ∈ back := (List.mem_cons.mp hb).resolve_left hne.symm
    have hpair : [a, b].Sublist (a :: back) := (List.singleton_sublist.mpr hback).cons_cons a
    exact hpair.trans (List.sublist_append_right front _)

theorem pair_sublist_repeated_iff (ha : OccursAt 1 names i a) (hb : OccursAt 1 names j b) :
    [a, b].Sublist (repeated [] names) ↔ i < j := by
  have horder : ∀ {a b}, [a, b].Sublist (repeated [] names) → SecondBefore names a b :=
    List.pairwise_iff_forall_sublist.mp (pairwise_repeated [] names)
  constructor
  · exact fun hsub => horder hsub i j ha hb
  · intro hij
    have hne : a ≠ b := by
      rintro rfl
      exact absurd (ha.index_unique hb) hij.ne
    rcases pair_sublist_or ha.mem_repeated hb.mem_repeated hne with hsub | hsub
    · exact hsub
    · exact absurd (horder hsub j i hb ha) hij.asymm

end Order

/-- Of two names that several records have, the message about one comes before the message about the
other if and only if its second record does.  Which of them has the first record does not count. -/
theorem repeatedRecords_in_order_of_second (db : Database) (a b : String) (i j : Nat)
    (ha : OccursAt 1 (db.records.map (·.name)) i a)
    (hb : OccursAt 1 (db.records.map (·.name)) j b) :
    ["Multiple instances of " ++ a, "Multiple instances of " ++ b].Sublist
      ((repeatedRecords db).map (·.message)) ↔ i < j := by
  rw [← pair_sublist_repeated_iff ha hb, messages_repeatedRecords]
  constructor
  · intro hsub
    obtain ⟨pair, hpair, hmessages⟩ := List.sublist_map_iff.mp hsub
    have hinj : Function.Injective ("Multiple instances of " ++ ·) :=
      fun _ _ h => (String.append_right_inj _).mp h
    obtain rfl : [a, b] = pair := hinj.list_map hmessages
    exact hpair
  · exact fun hsub => hsub.map _

/-- The theorem at names that are declared in turn. -/
theorem repeatedRecords_declared_in_turn :
    let db : Database := ⟨"", ["B", "A", "B", "A", "B"].map (.bare "ai")⟩
    OccursAt 1 (db.records.map (·.name)) 2 "B" ∧ OccursAt 1 (db.records.map (·.name)) 3 "A" ∧
      ["Multiple instances of B", "Multiple instances of A"].Sublist
        ((repeatedRecords db).map (·.message)) := by
  intro db
  have hb : OccursAt 1 (db.records.map (·.name)) 2 "B" := by decide
  have ha : OccursAt 1 (db.records.map (·.name)) 3 "A" := by decide
  exact ⟨hb, ha, (repeatedRecords_in_order_of_second db "B" "A" 2 3 hb ha).mpr (by decide)⟩

/-- A name whose first record comes before all others, and whose message comes last. -/
theorem repeatedRecords_not_in_order_of_first :
    let db : Database := ⟨"", ["A", "B", "B", "A"].map (.bare "ai")⟩
    OccursAt 0 (db.records.map (·.name)) 0 "A" ∧ OccursAt 0 (db.records.map (·.name)) 1 "B" ∧
      (repeatedRecords db).map (·.message) =
        ["Multiple instances of B", "Multiple instances of A"] := by
  decide

/-! ## Fields -/

theorem mem_repeatedFieldNames_iff {r : Record} :
    name ∈ repeatedFieldNames r ↔ 2 ≤ (r.fields.map (·.name)).count name := by
  rw [repeatedFieldNames, List.mem_mergeSort, mem_repeated_nil_iff, Record.fieldNames]

theorem sorted_repeatedFieldNames (r : Record) : (repeatedFieldNames r).Pairwise (· ≤ ·) :=
  List.pairwise_mergeSort' (· ≤ ·) (repeated [] r.fieldNames)

theorem nodup_repeatedFieldNames (r : Record) : (repeatedFieldNames r).Nodup :=
  (List.mergeSort_perm _ _).nodup_iff.mpr (nodup_repeated [] r.fieldNames)

/-- The fields of a record are listed in the order of their bytes, each once. -/
theorem pairwise_repeatedFieldNames (r : Record) :
    (repeatedFieldNames r).Pairwise (Text.bytes · < Text.bytes ·) := by
  refine ((sorted_repeatedFieldNames r).and (nodup_repeatedFieldNames r)).imp ?_
  rintro a b ⟨hle, hne⟩
  exact Text.lt_iff_bytes_lt.mp (lt_of_le_of_ne hle hne)

/-- The fields that are found again, as an ordered set of names. -/
theorem sort_scanAgain (r : Record) :
    (scanAgain ∅ (r.fields.map (·.name))).toFinset.sort = repeatedFieldNames r := by
  have hset : (scanAgain ∅ (r.fields.map (·.name))).toFinset = (repeatedFieldNames r).toFinset := by
    ext name
    rw [List.mem_toFinset, List.mem_toFinset, mem_scanAgain_iff, mem_repeatedFieldNames_iff,
      if_neg (Finset.notMem_empty name), Nat.zero_add]
  rw [hset]
  exact (List.toFinset_sort (· ≤ ·) (nodup_repeatedFieldNames r)).mpr (sorted_repeatedFieldNames r)

/-- Whether a record sets some field more than once. -/
def setsFieldTwice (r : Record) : Bool :=
  decide (∃ f ∈ r.fields, 2 ≤ (r.fields.map (·.name)).count f.name)

theorem setsFieldTwice_iff {r : Record} : setsFieldTwice r = true ↔ repeatedFieldNames r ≠ [] := by
  rw [setsFieldTwice, decide_eq_true_eq]
  constructor
  · rintro ⟨f, -, hcount⟩
    exact List.ne_nil_of_mem (mem_repeatedFieldNames_iff.mpr hcount)
  · intro hne
    obtain ⟨name, hname⟩ := List.exists_mem_of_ne_nil _ hne
    have hcount : 2 ≤ (r.fields.map (·.name)).count name := mem_repeatedFieldNames_iff.mp hname
    have hmem : name ∈ r.fields.map (·.name) := List.count_pos_iff.mp (by omega)
    obtain ⟨f, hf, rfl⟩ := List.mem_map.mp hmem
    exact ⟨f, hf, hcount⟩

theorem repeatedFields_eq_map (db : Database) :
    repeatedFields db =
      (db.records.filter setsFieldTwice).map fun r =>
        .repeatedFields (repeatedFieldNames r) r.name := by
  rw [repeatedFields, ← List.filterMap_eq_map, List.filterMap_filter]
  apply List.filterMap_congr
  intro r _
  cases hnames : repeatedFieldNames r with
  | nil =>
    have hnot : ¬setsFieldTwice r = true := fun h => setsFieldTwice_iff.mp h hnames
    rw [if_neg hnot]
  | cons name names =>
    have htwice : setsFieldTwice r = true := setsFieldTwice_iff.mpr (by simp [hnames])
    rw [if_pos htwice, Function.comp_apply, hnames]

/-- The message lists the fields that the record sets more than once, each once and in the order of
their bytes. -/
def ListsRepeatedFields (r : Record) (message : String) : Prop :=
  ∃ names : List String, (∀ name, name ∈ names ↔ 2 ≤ (r.fields.map (·.name)).count name) ∧
    names.Pairwise (Text.bytes · < Text.bytes ·) ∧
    message = "Multiple instances of fields " ++ ",".intercalate names ++ " on " ++ r.name

/-- Of each name that several records have there is one message, and of no other name.  Of each record
that sets fields more than once there is one message, in the order of the records, and it lists these
fields. -/
theorem repetitions_reported_once (db : Database) :
    let names := db.records.map (·.name)
    let messages := (repeatedRecords db).map (·.message)
    (messages.Nodup ∧ ∀ message, message ∈ messages ↔
      ∃ name, 2 ≤ names.count name ∧ message = "Multiple instances of " ++ name) ∧
    List.Forall₂ ListsRepeatedFields (db.records.filter setsFieldTwice)
      ((repeatedFields db).map (·.message)) := by
  intro names messages
  have hmessages : messages = (repeated [] names).map ("Multiple instances of " ++ ·) :=
    messages_repeatedRecords db
  refine ⟨⟨?_, ?_⟩, ?_⟩
  · rw [hmessages]
    -- the message tells the name
    exact List.Nodup.map (fun _ _ h => (String.append_right_inj _).mp h) (nodup_repeated [] names)
  · intro message
    rw [hmessages, List.mem_map]
    constructor
    · rintro ⟨name, hname, rfl⟩
      exact ⟨name, mem_repeated_nil_iff.mp hname, rfl⟩
    · rintro ⟨name, hcount, rfl⟩
      exact ⟨name, mem_repeated_nil_iff.mpr hcount, rfl⟩
  · rw [repeatedFields_eq_map, List.map_map, List.forall₂_map_right_iff, List.forall₂_same]
    intro r _
    exact ⟨repeatedFieldNames r, fun _ => mem_repeatedFieldNames_iff,
      pairwise_repeatedFieldNames r, rfl⟩

/-- A name that occurs three times is found once, before one whose second occurrence comes later. -/
example : repeated [] ["B", "A", "B", "A", "B", "C"] = ["B", "A"] := by
  decide

end EpicsDb.Content
