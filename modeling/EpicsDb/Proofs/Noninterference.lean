import EpicsDb.Check
import Mathlib.Data.List.Forall2

/-!
# What a check looks at

A check looks at the type, the name and the aliases of a record, at the names of its entries, and at
three values: the first description, the first unit and the first access group.  Nothing else has a
say in what it finds: not the label of the database, the macros before entries, the values of info
entries, of other fields, or of fields that have been set before.

* `Record.CheckedAlike` compares what is looked at, and `Record.ReadsChecked` says of a function on
  records that it looks at nothing else.
* `map_eq_of_alike`, `filterMap_eq_of_alike`, `flatMap_eq_of_alike` and `alike_filter` carry this
  from records to the lists of records that the rules go through.  `named_eq_of_alike` is for the
  rules that name the records with some property.
* `alike_byName` follows the records into their order by name, and `groups_eq_of_alike` into the
  groups.
* `namingFindings_eq_of_alike` and `contentReport_eq_of_alike` are the two halves of a check.
-/

namespace EpicsDb

/-! ## Records -/

/-- The records agree on all that a check looks at. -/
structure Record.CheckedAlike (r s : Record) : Prop where
  type : r.type = s.type
  name : r.name = s.name
  aliases : r.aliases = s.aliases
  fieldNames : r.fieldNames = s.fieldNames
  description : r.fieldValue? "DESC" = s.fieldValue? "DESC"
  unit : r.fieldValue? "EGU" = s.fieldValue? "EGU"
  access : r.fieldValue? "ASG" = s.fieldValue? "ASG"
  infoNames : r.infos.map (·.name) = s.infos.map (·.name)

/-- The function looks at nothing but what a check looks at. -/
def Record.ReadsChecked {α : Type} (f : Record → α) : Prop :=
  ∀ {r s : Record}, r.CheckedAlike s → f r = f s

namespace Record

theorem hasField_eq_isSome (r : Record) (name : String) :
    r.hasField name = (r.fieldValue? name).isSome := by
  rw [hasField, fieldValue?, Option.isSome_map]

theorem readsChecked_isInterest : ReadsChecked isInterest := by
  intro r s h
  have hany : ∀ x : Record, x.isInterest = (x.infos.map (·.name)).any (· == "INTEREST") := by
    intro x
    rw [List.any_map]
    rfl
  rw [hany, hany, h.infoNames]

theorem readsChecked_isDisable : ReadsChecked isDisable := by
  intro r s h
  rw [isDisable, isDisable, h.name]

end Record

/-! ## Lists of records -/

section Lists

variable {α : Type} {rs ss : List Record} (h : List.Forall₂ Record.CheckedAlike rs ss)
include h

theorem map_eq_of_alike {f : Record → α} (hf : Record.ReadsChecked f) : rs.map f = ss.map f := by
  induction h with
  | nil => rfl
  | cons hrecord _ ih => rw [List.map_cons, List.map_cons, hf hrecord, ih]

theorem filterMap_eq_of_alike {f : Record → Option α} (hf : Record.ReadsChecked f) :
    rs.filterMap f = ss.filterMap f := by
  have hmap : rs.map f = ss.map f := map_eq_of_alike h hf
  calc rs.filterMap f = (rs.map f).filterMap id := by rw [List.filterMap_map, Function.id_comp]
    _ = (ss.map f).filterMap id := by rw [hmap]
    _ = ss.filterMap f := by rw [List.filterMap_map, Function.id_comp]

theorem flatMap_eq_of_alike {f : Record → List α} (hf : Record.ReadsChecked f) :
    rs.flatMap f = ss.flatMap f := by
  rw [List.flatMap_def, List.flatMap_def, map_eq_of_alike h hf]

theorem alike_filter {p : Record → Bool} (hp : Record.ReadsChecked p) :
    List.Forall₂ Record.CheckedAlike (rs.filter p) (ss.filter p) := by
  refine List.rel_filter ?_ h
  intro r s hrecord
  dsimp only
  rw [hp hrecord]

/-- A rule that names the records with some property. -/
theorem named_eq_of_alike {p : Record → Bool} (hp : Record.ReadsChecked p) (f : String → α) :
    (rs.filter p).map (fun r => f r.name) = (ss.filter p).map fun r => f r.name :=
  map_eq_of_alike (alike_filter h hp) fun hrecord => congrArg f hrecord.name

end Lists

/-! ## Records by name and groups -/

theorem alike_insertByName {r s : Record} {rs ss : List Record} (hrecord : r.CheckedAlike s)
    (h : List.Forall₂ Record.CheckedAlike rs ss) :
    List.Forall₂ Record.CheckedAlike (insertByName r rs) (insertByName s ss) := by
  induction h with
  | nil => exact .cons hrecord .nil
  | cons hother hrest ih =>
    rw [insertByName, insertByName, hrecord.name, hother.name]
    split_ifs
    · exact .cons hrecord hrest
    · exact .cons hrecord (.cons hother hrest)
    · exact .cons hother ih

variable {db other : Database} {records others : List Record}

theorem alike_byName (h : List.Forall₂ Record.CheckedAlike db.records other.records) :
    List.Forall₂ Record.CheckedAlike db.byName other.byName := by
  refine List.rel_foldl ?_ .nil h
  intro rs ss hrest r s hrecord
  exact alike_insertByName hrecord hrest

theorem readsChecked_offerRecord (gs : List Group) : Record.ReadsChecked (offerRecord gs) := by
  intro r s h
  rw [offerRecord, offerRecord, h.name, h.aliases]

theorem foldl_offerRecord_eq_of_alike (h : List.Forall₂ Record.CheckedAlike records others)
    (gs : List Group) : records.foldl offerRecord gs = others.foldl offerRecord gs := by
  induction h generalizing gs with
  | nil => rfl
  | cons hrecord _ ih =>
    rw [List.foldl_cons, List.foldl_cons, readsChecked_offerRecord gs hrecord, ih]

theorem groups_eq_of_alike (h : List.Forall₂ Record.CheckedAlike db.byName other.byName) :
    db.groups = other.groups := by
  have hnames : db.byName.map (·.name) = other.byName.map (·.name) :=
    map_eq_of_alike h fun hrecord => hrecord.name
  rw [Database.groups, Database.groups, hnames, foldl_offerRecord_eq_of_alike h]

/-! ## Findings about names -/

namespace Naming

/-- The first record sets the rule, and every record is compared with it by its name. -/
theorem colonFindings_eq_of_alike
    (h : List.Forall₂ Record.CheckedAlike db.records other.records) :
    colonFindings db = colonFindings other := by
  unfold colonFindings
  cases hdb : db.records with
  | nil =>
    rw [hdb, List.forall₂_nil_left_iff] at h
    rw [h]
  | cons first rest =>
    rw [hdb] at h
    obtain ⟨first', rest', hfirst, -, hother⟩ := List.forall₂_cons_left_iff.mp h
    rw [hother] at h ⊢
    dsimp only
    rw [hfirst.name]
    refine filterMap_eq_of_alike h ?_
    intro r s hrecord
    dsimp only
    rw [hrecord.name]

theorem isAliasOf_eq_of_alike (h : List.Forall₂ Record.CheckedAlike records others)
    (name newName : String) : isAliasOf records name newName = isAliasOf others name newName := by
  induction h with
  | nil => rfl
  | @cons r s rs ss hrecord _ ih =>
    unfold isAliasOf at ih ⊢
    rw [List.find?_cons, List.find?_cons, hrecord.name]
    cases s.name == name with
    | true => exact congrArg (List.contains · newName) hrecord.aliases
    | false => exact ih

theorem familyFindings_eq_of_alike (h : List.Forall₂ Record.CheckedAlike records others)
    (g : Group) : familyFindings records g = familyFindings others g := by
  have hset : setpointFindings records g = setpointFindings others g := by
    simp only [setpointFindings, isAliasOf_eq_of_alike h]
  rw [familyFindings, familyFindings, hset]

end Naming

theorem namingFindings_eq_of_alike
    (h : List.Forall₂ Record.CheckedAlike db.records other.records) :
    db.namingFindings = other.namingFindings := by
  have hbyName : List.Forall₂ Record.CheckedAlike db.byName other.byName := alike_byName h
  have hgroup : Naming.groupFindings db.byName = Naming.groupFindings other.byName := by
    funext g
    rw [Naming.groupFindings, Naming.groupFindings, Naming.familyFindings_eq_of_alike hbyName]
  rw [Database.namingFindings, Database.namingFindings, Naming.colonFindings_eq_of_alike h,
    groups_eq_of_alike hbyName, hgroup]

/-! ## Findings about contents -/

namespace Content

section Rules

variable (h : List.Forall₂ Record.CheckedAlike db.records other.records)
include h

theorem repeatedRecords_eq_of_alike : repeatedRecords db = repeatedRecords other := by
  rw [repeatedRecords, repeatedRecords, map_eq_of_alike h fun hrecord => hrecord.name]

theorem repeatedFields_eq_of_alike : repeatedFields db = repeatedFields other := by
  refine filterMap_eq_of_alike h ?_
  intro r s hrecord
  dsimp only
  rw [repeatedFieldNames, repeatedFieldNames, hrecord.fieldNames, hrecord.name]

theorem alike_interestRecords :
    List.Forall₂ Record.CheckedAlike (interestRecords db) (interestRecords other) := by
  refine alike_filter h ?_
  intro r s hrecord
  dsimp only
  rw [Record.readsChecked_isInterest hrecord, Record.readsChecked_isDisable hrecord]

theorem missingDescriptions_eq_of_alike :
    missingDescriptions db = missingDescriptions other := by
  have hmissing : Record.ReadsChecked (!·.hasField "DESC") := by
    intro r s hrecord
    dsimp only
    rw [Record.hasField_eq_isSome, Record.hasField_eq_isSome, hrecord.description]
  exact named_eq_of_alike (alike_interestRecords h) hmissing _

theorem missingUnits_eq_of_alike : missingUnits db = missingUnits other := by
  have hmissing : Record.ReadsChecked fun r => unitTypes.contains r.type && lacksUnit r := by
    intro r s hrecord
    dsimp only
    rw [lacksUnit, lacksUnit, hrecord.type, hrecord.unit]
  exact named_eq_of_alike (alike_interestRecords h) hmissing _

theorem invalidUnits_eq_of_alike : invalidUnits db = invalidUnits other := by
  refine filterMap_eq_of_alike h ?_
  intro r s hrecord
  dsimp only
  rw [hrecord.unit, hrecord.name]

theorem longDescriptions_eq_of_alike : longDescriptions db = longDescriptions other := by
  have hlong : Record.ReadsChecked hasLongDescription := by
    intro r s hrecord
    rw [hasLongDescription, hasLongDescription, hrecord.description]
  exact named_eq_of_alike h hlong _

theorem unrestrictedCalculations_eq_of_alike :
    unrestrictedCalculations db = unrestrictedCalculations other := by
  have hunrestricted : Record.ReadsChecked fun r =>
      r.type == "calc" && r.isInterest && r.fieldValue? "ASG" != some "READONLY" := by
    intro r s hrecord
    dsimp only
    rw [hrecord.type, Record.readsChecked_isInterest hrecord, hrecord.access]
  exact named_eq_of_alike h hunrestricted _

/-- Logging tags are told by the names of info entries. -/
theorem logTags_eq_of_alike : logTags db = logTags other := by
  refine flatMap_eq_of_alike h ?_
  intro r s hrecord
  have htags : ∀ x : Record,
      x.infos.map (fun info => tagOf info.name) = (x.infos.map (·.name)).map tagOf := by
    intro x
    rw [List.map_map]
    rfl
  dsimp only
  rw [htags, htags, hrecord.infoNames, hrecord.name]

end Rules

end Content

theorem contentReport_eq_of_alike
    (h : List.Forall₂ Record.CheckedAlike db.records other.records) :
    db.contentReport = other.contentReport := by
  have hwarnings : db.contentWarnings = other.contentWarnings :=
    Content.repeatedRecords_eq_of_alike h
  have herrors : db.contentErrors = other.contentErrors := by
    rw [Database.contentErrors, Database.contentErrors, Content.missingDescriptions_eq_of_alike h,
      Content.invalidUnits_eq_of_alike h, Content.longDescriptions_eq_of_alike h,
      Content.unrestrictedCalculations_eq_of_alike h, Content.missingUnits_eq_of_alike h,
      Content.repeatedFields_eq_of_alike h, Content.inconsistentLogTags,
      Content.inconsistentLogTags, Content.logTags_eq_of_alike h]
  rw [Database.contentReport, Database.contentReport, hwarnings, herrors]

/-! ## Whole checks -/

/-- Databases whose records agree one by one on what a check looks at get the same report. -/
theorem check_depends_on_checked_parts (db other : Database) (config : Config)
    (h : List.Forall₂ Record.CheckedAlike db.records other.records) :
    db.check config = other.check config := by
  have hnames : db.namingReport config.strict = other.namingReport config.strict := by
    rw [Database.namingReport, Database.namingReport, namingFindings_eq_of_alike h]
  rw [Database.check, Database.check, hnames, contentReport_eq_of_alike h]

/-- The theorem at two databases that differ in all that a check does not look at. -/
theorem check_hidden_values :
    let r : Record := ⟨"calc", "$(P):a",
      [⟨"DESC", "a", false⟩, ⟨"EGU", "foot", false⟩, ⟨"DESC", "b", false⟩, ⟨"VAL", "1", false⟩],
      [⟨"INTEREST", "HIGH", false⟩, ⟨"log1", "x", false⟩, ⟨"LOG1", "y", false⟩], ["$(P):A:SP"]⟩
    let s : Record := ⟨"calc", "$(P):a",
      [⟨"DESC", "a", true⟩, ⟨"EGU", "foot", true⟩, ⟨"DESC", "", false⟩, ⟨"VAL", "2", true⟩],
      [⟨"INTEREST", "", true⟩, ⟨"log1", "", true⟩, ⟨"LOG1", "x", false⟩], ["$(P):A:SP"]⟩
    let db : Database := ⟨"a.db", [r, .bare "ai" "$(P)B"]⟩
    let other : Database := ⟨"b.db", [s, .bare "ai" "$(P)B"]⟩
    List.Forall₂ Record.CheckedAlike db.records other.records ∧
      (db.check .default).warnings.length = 1 ∧ (db.check .default).errors.length = 5 ∧
      db.check .default = other.check .default := by
  intro r s db other
  have hfirst : r.CheckedAlike s := by constructor <;> decide +kernel
  have hsecond : (Record.bare "ai" "$(P)B").CheckedAlike (.bare "ai" "$(P)B") := by
    constructor <;> rfl
  have h : List.Forall₂ Record.CheckedAlike db.records other.records :=
    .cons hfirst (.cons hsecond .nil)
  exact ⟨h, by decide +kernel, by decide +kernel,
    check_depends_on_checked_parts db other .default h⟩

end EpicsDb
