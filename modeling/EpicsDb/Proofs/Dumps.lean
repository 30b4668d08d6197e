import EpicsDb.Dump
import EpicsDb.Proofs.JsonTexts

/-!
# Dumps

Nothing of a database is lost in its dump.  The text of a dump can be read back as JSON, and the
value tells which database it was made from, whatever characters the database holds.

* `Database.plain_toJson` says that the value of a dump is one of those that reading gives back.
* `Field.toJson_inj`, `Record.toJson_inj` and `Database.recordsJson_inj` go from values back to what
  they were made from.
-/

namespace EpicsDb

namespace Json

theorem ofText_inj {s t : String} : ofText s = ofText t ↔ s = t := by
  rw [ofText, ofText, Json.string.injEq, escape_injective.eq_iff, String.toList_inj]

theorem array_map_inj {α : Type} {f : α → Json} (hf : ∀ x y, f x = f y ↔ x = y) {xs ys : List α} :
    Json.array (xs.map f) = .array (ys.map f) ↔ xs = ys := by
  have hinjective : Function.Injective f := fun x y => (hf x y).mp
  rw [Json.array.injEq, (List.map_injective_iff.mpr hinjective).eq_iff]

end Json

theorem Field.plain_toJson (f : Field) : Json.Plain f.toJson := by
  apply Json.plain_ofMembers
  simp [Json.plain_ofText, Json.Plain.bool]

theorem Record.plain_toJson (r : Record) : Json.Plain r.toJson := by
  apply Json.plain_ofMembers
  simp [Json.plain_ofText, Json.plain_array_map, Field.plain_toJson]

theorem Group.plain_toJson (g : Group) : Json.Plain g.toJson := by
  apply Json.plain_ofMembers
  simp [Json.plain_ofText]

theorem Database.plain_toJson (db : Database) : Json.Plain db.toJson := by
  have hrecords : Json.Plain db.recordsJson := by
    apply Json.plain_ofMembers
    simp [Json.plain_ofText, Json.plain_array_map, Record.plain_toJson]
  have hgroups : Json.Plain (.ofMembers (db.groups.map fun g => (g.stem, g.toJson))) := by
    apply Json.plain_ofMembers
    simp [Group.plain_toJson]
  apply Json.plain_ofMembers
  simp [hrecords, hgroups]

theorem Field.toJson_inj (f g : Field) : f.toJson = g.toJson ↔ f = g := by
  refine ⟨fun h => ?_, congrArg Field.toJson⟩
  obtain ⟨name, value, hasMacro⟩ := f
  obtain ⟨name', value', hasMacro'⟩ := g
  obtain ⟨rfl, rfl, rfl⟩ : hasMacro = hasMacro' ∧ name = name' ∧ value = value' := by
    simpa [Field.toJson, Json.ofMembers, Json.ofText_inj] using h
  rfl

theorem Record.toJson_inj (r s : Record) : r.toJson = s.toJson ↔ r = s := by
  refine ⟨fun h => ?_, congrArg Record.toJson⟩
  obtain ⟨type, name, fields, infos, aliases⟩ := r
  obtain ⟨type', name', fields', infos', aliases'⟩ := s
  have hfields : Json.array (fields.map (·.toJson)) = .array (fields'.map (·.toJson)) ↔
      fields = fields' := Json.array_map_inj Field.toJson_inj
  have hinfos : Json.array (infos.map (·.toJson)) = .array (infos'.map (·.toJson)) ↔
      infos = infos' := Json.array_map_inj Field.toJson_inj
  have haliases : Json.array (aliases.map .ofText) = .array (aliases'.map .ofText) ↔
      aliases = aliases' := Json.array_map_inj fun _ _ => Json.ofText_inj
  obtain ⟨rfl, rfl, rfl, rfl, rfl⟩ : aliases = aliases' ∧ fields = fields' ∧ infos = infos' ∧
      name = name' ∧ type = type' := by
    simpa [Record.toJson, Json.ofMembers, Json.ofText_inj, hfields, hinfos, haliases,
      -Json.array.injEq] using h
  rfl

theorem Database.recordsJson_inj (db db' : Database) :
    db.recordsJson = db'.recordsJson ↔ db = db' := by
  refine ⟨fun h => ?_, congrArg Database.recordsJson⟩
  obtain ⟨source, records⟩ := db
  obtain ⟨source', records'⟩ := db'
  have hrecords : Json.array (records.map (·.toJson)) = .array (records'.map (·.toJson)) ↔
      records = records' := Json.array_map_inj Record.toJson_inj
  obtain ⟨rfl, rfl⟩ : records = records' ∧ source = source' := by
    simpa [Database.recordsJson, Json.ofMembers, Json.ofText_inj, hrecords,
      -Json.array.injEq] using h
  rfl

/-- Two databases have the same dump only if they are the same: the label, and of every record the
type, the name, the fields and info entries with their macros, and the aliases. -/
theorem dump_eq_iff (db db' : Database) : db.dump = db'.dump ↔ db = db' := by
  refine ⟨fun h => ?_, congrArg Database.dump⟩
  have hread : Json.parse db.dump = some db.toJson := db.plain_toJson.parse_pretty
  have hread' : Json.parse db'.dump = some db'.toJson := db'.plain_toJson.parse_pretty
  have hvalue : db.toJson = db'.toJson := by
    rw [h, hread'] at hread
    exact (Option.some.inj hread).symm
  have hrecords : db.recordsJson = db'.recordsJson := by
    simp only [Database.toJson, Json.ofMembers, Json.object.injEq, List.map_cons, List.cons.injEq,
      Prod.mk.injEq, true_and] at hvalue
    exact hvalue.1
  exact (Database.recordsJson_inj db db').mp hrecords

end EpicsDb
