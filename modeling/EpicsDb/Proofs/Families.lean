import EpicsDb.Naming.Rules
import EpicsDb.Proofs.Groups

/-!
# Families without findings

The rules for families look at the members of a group and at the records by name.  Since a group
holds what the database has of its family, they can be read off the names alone.

* `find?_byName` looks up a record by its name, and `isAliasOf_byName_iff` one of its aliases.
* `Group.IsFamily.main_eq_stem_iff` tells the rule for readbacks from the other two.
* `setpointFindings_eq_nil_iff` and `readbackFindings_eq_nil_iff` are the two rules that can be met.
  A main member that is a setpoint readback always gives a finding.
* `familyFindings_eq_nil_iff_isComplete` puts the rules together, and counts the findings.
-/

namespace EpicsDb

variable {db : Database} {g : Group} {name : String}

/-! ## Looking up records -/

theorem find?_byName (db : Database) (name : String) :
    db.byName.find? (·.name == name) = db.named? name := by
  have hfound : ∀ {r}, db.byName.find? (·.name == name) = some r → db.named? name = some r := by
    intro r hr
    have hname : r.name = name := by simpa using List.find?_some hr
    exact hname ▸ mem_byName_iff.mp (List.mem_of_find?_eq_some hr)
  cases hnamed : db.named? name with
  | none =>
    rw [Option.eq_none_iff_forall_ne_some]
    intro r hr
    rw [hfound hr] at hnamed
    exact Option.some_ne_none r hnamed
  | some r =>
    obtain ⟨-, hname⟩ := mem_of_named? hnamed
    have hmem : r ∈ db.byName := mem_byName_iff.mpr (hname ▸ hnamed)
    obtain ⟨s, hs⟩ : ∃ s, db.byName.find? (·.name == name) = some s := by
      rw [← Option.isSome_iff_exists, List.find?_isSome]
      exact ⟨r, hmem, by simpa using hname⟩
    rw [hs, ← hfound hs, hnamed]

/-- The name is an alias of the record that counts under the other one. -/
def Database.IsAlias (db : Database) (name other : String) : Prop :=
  ∃ r, db.named? other = some r ∧ name ∈ r.aliases

theorem isAliasOf_byName_iff {other : String} :
    Naming.isAliasOf db.byName other name = true ↔ db.IsAlias name other := by
  rw [Naming.isAliasOf, find?_byName, Database.IsAlias]
  cases db.named? other with
  | none => simp
  | some r => simp

/-! ## Members -/

namespace Group.IsFamily

theorem split?_member (h : g.IsFamily db) (suffix : Suffix) (hname : g.member? suffix = some name) :
    PvName.split? name = some (g.stem, suffix) := by
  rw [h.member_eq] at hname
  simpa using (List.mem_filter.mp (List.mem_of_getLast? hname)).2

theorem main_eq_stem_iff (h : g.IsFamily db) : g.main = g.stem ↔ PvName.split? g.main = none := by
  rw [← PvName.stem_eq_self_iff, h.main_stem, eq_comm]

/-- An alias of a record of the family that is the stem makes the stem the readback. -/
theorem readback_of_isAlias {other : String} (h : g.IsFamily db)
    (hother : PvName.stem other = g.stem) (halias : db.IsAlias g.stem other) :
    g.readback = some g.stem := by
  obtain ⟨r, hr, hmem⟩ := halias
  obtain ⟨-, rfl⟩ := mem_of_named? hr
  rw [h.readback_eq, if_pos]
  exact .inr ⟨r, mem_byName_iff.mpr hr, hother, hmem⟩

end Group.IsFamily

/-! ## The rules -/

namespace Group

/-- The stem is an alias of the main member, or of the setpoint readback if there is one. -/
def AliasesStem (g : Group) (db : Database) : Prop :=
  db.IsAlias g.stem g.main ∨ ∃ name, g.setpointReadback = some name ∧ db.IsAlias g.stem name

/-- Setpoint and setpoint readback are both missing, or both there in their proper spelling. -/
def IsPaired (g : Group) : Prop :=
  g.setpoint = none ∧ g.setpointReadback = none ∨
    g.setpoint = some (g.stem ++ ":SP") ∧ g.setpointReadback = some (g.stem ++ ":SP:RBV")

/-- Setpoint and setpoint readback are both there, and neither is in its proper spelling. -/
def IsMisspelled (g : Group) : Prop :=
  ∃ setpoint setpointReadback, g.setpoint = some setpoint ∧
    g.setpointReadback = some setpointReadback ∧
    setpoint ≠ g.stem ++ ":SP" ∧ setpointReadback ≠ g.stem ++ ":SP:RBV"

/-- A readback with both further members or none, or a setpoint that the readback is an alias of. -/
def IsComplete (g : Group) (db : Database) : Prop :=
  g.main = g.stem ∧ g.IsPaired ∨
    (∃ stem, PvName.split? g.main = some (stem, .setpoint)) ∧ g.AliasesStem db

end Group

namespace Naming

theorem setpointFindings_eq_nil_iff (h : g.IsFamily db) :
    setpointFindings db.byName g = [] ↔ g.AliasesStem db := by
  have hany : (g.main :: g.setpointReadback.toList).any (isAliasOf db.byName · g.stem) = true ↔
      g.AliasesStem db := by
    rw [List.any_cons, Bool.or_eq_true, isAliasOf_byName_iff, List.any_eq_true]
    simp only [Option.mem_toList, isAliasOf_byName_iff, Group.AliasesStem]
  have hreadback : g.AliasesStem db → g.readback = some g.stem := by
    rintro (hmain | ⟨name, hname, halias⟩)
    · exact h.readback_of_isAlias h.main_stem hmain
    · exact h.readback_of_isAlias
        (PvName.stem_of_split? (h.split?_member .setpointReadback hname)) halias
  rw [setpointFindings]
  cases hslot : g.readback with
  | none =>
    have hnot : ¬g.AliasesStem db := fun halias => by simp [hreadback halias] at hslot
    simp [hnot]
  | some readback =>
    have hstem : readback = g.stem := by
      have := h.readback_eq
      rw [hslot] at this
      split_ifs at this
      exact Option.some.inj this
    rw [hstem, ← hany]
    dsimp only
    split_ifs with hcond
    · simp [hcond]
    · simp [hcond]

theorem length_setpointFindings_le (records : List Record) (g : Group) :
    (setpointFindings records g).length ≤ 1 := by
  rw [setpointFindings]
  split
  · simp
  · split_ifs <;> simp

/-- Both further members are there.  Each gives a finding if it is not in its proper spelling. -/
theorem readbackFindings_of_some {setpoint setpointReadback : String} (h : g.IsFamily db)
    (hset : g.setpoint = some setpoint) (hread : g.setpointReadback = some setpointReadback) :
    readbackFindings g =
      (if setpoint = g.stem ++ ":SP" then [] else [.setpointMisspelled g.stem]) ++
        if setpointReadback = g.stem ++ ":SP:RBV" then []
        else [.setpointReadbackMisspelled g.stem] := by
  have hsplit := h.split?_member .setpoint hset
  have hsplit' := h.split?_member .setpointReadback hread
  rw [readbackFindings, hset, hread]
  dsimp only
  simp only [List.isSuffixOf_iff_suffix, PvName.suffix_setpoint_iff hsplit,
    PvName.suffix_setpointReadback_iff hsplit']

theorem readbackFindings_eq_nil_iff (h : g.IsFamily db) :
    readbackFindings g = [] ↔ g.IsPaired := by
  rw [Group.IsPaired]
  cases hset : g.setpoint with
  | none => cases hread : g.setpointReadback <;> simp [readbackFindings, hset, hread]
  | some setpoint =>
    cases hread : g.setpointReadback with
    | none => simp [readbackFindings, hset, hread]
    | some setpointReadback =>
      rw [readbackFindings_of_some h hset hread]
      simp

theorem length_readbackFindings_le (g : Group) : (readbackFindings g).length ≤ 2 := by
  rw [readbackFindings]
  split
  · simp
  · simp
  · simp
  · split_ifs <;> simp

theorem length_readbackFindings_eq_two_iff (h : g.IsFamily db) :
    (readbackFindings g).length = 2 ↔ g.IsMisspelled := by
  rw [Group.IsMisspelled]
  cases hset : g.setpoint with
  | none => cases hread : g.setpointReadback <;> simp [readbackFindings, hset, hread]
  | some setpoint =>
    cases hread : g.setpointReadback with
    | none => simp [readbackFindings, hset, hread]
    | some setpointReadback =>
      rw [readbackFindings_of_some h hset hread]
      split_ifs with hsp hrbv hrbv <;> simp [hsp, hrbv]

theorem familyFindings_eq_nil_iff (h : g.IsFamily db) :
    familyFindings db.byName g = [] ↔ g.IsComplete db := by
  rw [familyFindings, Group.mainSuffix?, Group.IsComplete, h.main_eq_stem_iff]
  cases hmain : PvName.split? g.main with
  | none => simpa using readbackFindings_eq_nil_iff h
  | some pair =>
    obtain ⟨stem, suffix⟩ := pair
    cases suffix with
    | setpoint => simpa using setpointFindings_eq_nil_iff h
    | setpointReadback => simp

theorem length_familyFindings_le (records : List Record) (g : Group) :
    (familyFindings records g).length ≤ 2 := by
  rw [familyFindings]
  split
  · exact (length_setpointFindings_le records g).trans (by decide)
  · simp
  · exact length_readbackFindings_le g

/-- Only the rule for readbacks gives two findings. -/
theorem length_familyFindings_eq_two_iff (h : g.IsFamily db) :
    (familyFindings db.byName g).length = 2 ↔ g.main = g.stem ∧ g.IsMisspelled := by
  rw [familyFindings, Group.mainSuffix?, h.main_eq_stem_iff]
  cases hmain : PvName.split? g.main with
  | none => simpa using length_readbackFindings_eq_two_iff h
  | some pair =>
    obtain ⟨stem, suffix⟩ := pair
    cases suffix with
    | setpoint =>
      have hle := length_setpointFindings_le db.byName g
      simp only [Option.map_some, reduceCtorEq, false_and, iff_false]
      omega
    | setpointReadback => simp

/-- A group has no finding if and only if it is complete.  Otherwise it has one, or two if both of
its further members are misspelled. -/
theorem familyFindings_eq_nil_iff_isComplete (db : Database) (g : Group) (hg : g ∈ db.groups) :
    (familyFindings db.byName g = [] ↔ g.IsComplete db) ∧
      (¬g.IsComplete db →
        (familyFindings db.byName g).length = 1 ∨ (familyFindings db.byName g).length = 2) ∧
      ((familyFindings db.byName g).length = 2 ↔ g.main = g.stem ∧ g.IsMisspelled) := by
  have hfamily : g.IsFamily db := isFamily_of_mem_groups hg
  refine ⟨familyFindings_eq_nil_iff hfamily, ?_, length_familyFindings_eq_two_iff hfamily⟩
  intro hnot
  rw [← familyFindings_eq_nil_iff hfamily, ← List.length_eq_zero_iff] at hnot
  have hle := length_familyFindings_le db.byName g
  omega

/-- The theorem at a push button: a setpoint that has its readback as an alias. -/
theorem familyFindings_push_button :
    let db : Database := ⟨"", [⟨"bo", "P:GO:SP", [], [], ["P:GO"]⟩]⟩
    let g : Group := ⟨"P:GO", "P:GO:SP", some "P:GO", some "P:GO:SP", none⟩
    g ∈ db.groups ∧ g.IsComplete db := by
  intro db g
  have hg : g ∈ db.groups := by decide +kernel
  have hnone : familyFindings db.byName g = [] := by decide +kernel
  exact ⟨hg, (familyFindings_eq_nil_iff_isComplete db g hg).1.mp hnone⟩

end Naming

end EpicsDb
