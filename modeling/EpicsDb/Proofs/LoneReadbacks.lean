import EpicsDb.Proofs.NameFindings

/-!
# Setpoint readbacks on their own

A group whose main member is a setpoint readback is reported as one that stands on its own.  The
main member is the least record name of the family.  So the report does not say that the family has
no setpoint: a setpoint that is spelled in another way may come later in the order of names, and a
setpoint that is an alias is no record name at all.

* `Database.InFamily` lists the names of a family, and `Group.IsFamily.member?_eq_none_iff` says
  that a group lacks a member if and only if none of them has its ending.
* `mem_groupFindings_loneSetpointReadback_iff` says when a group is reported, and
  `Group.IsFamily.split?_main_iff` what this means for the records.
* `Database.SpelledAlike` is what makes the report right: the setpoints of the family are records,
  and its setpoint readbacks begin with them.
-/

namespace EpicsDb

variable {db : Database} {g : Group} {name stem main : String}

/-! ## The names of a family -/

/-- The name is that of a record of the family, or an alias of one that counts. -/
def Database.InFamily (db : Database) (stem name : String) : Prop :=
  (∃ r ∈ db.records, r.name = name ∧ PvName.stem r.name = stem) ∨
    ∃ r ∈ db.byName, PvName.stem r.name = stem ∧ name ∈ r.aliases

theorem mem_familyNames_iff (hmain : ∃ r ∈ db.records, r.name = main)
    (hstem : PvName.stem main = stem) :
    name ∈ db.familyNames stem main ↔ db.InFamily stem name := by
  rw [Database.familyNames, List.mem_cons, List.mem_flatMap, Database.InFamily]
  constructor
  · rintro (rfl | ⟨r, hr, hname⟩)
    · obtain ⟨r, hr, rfl⟩ := hmain
      exact .inl ⟨r, hr, rfl, hstem⟩
    · obtain ⟨hr, hrstem⟩ := List.mem_filter.mp hr
      have hrstem : PvName.stem r.name = stem := by simpa using hrstem
      rcases List.mem_append.mp hname with halias | hown
      · exact .inr ⟨r, hr, hrstem, halias⟩
      · split_ifs at hown
        · simp at hown
        · obtain rfl := List.mem_singleton.mp hown
          exact .inl ⟨r, (mem_of_named? (mem_byName_iff.mp hr)).1, rfl, hrstem⟩
  · rintro (⟨r, hr, rfl, hrstem⟩ | ⟨r, hr, hrstem, halias⟩)
    · obtain ⟨s, hs, hsame⟩ := exists_mem_byName_iff.mpr ⟨r, hr, rfl⟩
      by_cases heq : r.name = main
      · exact .inl heq
      · refine .inr ⟨s, List.mem_filter.mpr ⟨hs, by simpa [hsame] using hrstem⟩, ?_⟩
        simp [hsame, heq]
    · exact .inr ⟨r, List.mem_filter.mpr ⟨hr, by simpa using hrstem⟩,
        List.mem_append_left _ halias⟩

namespace Group.IsFamily

/-- A group lacks a member if and only if no name of the family has its ending. -/
theorem member?_eq_none_iff (h : g.IsFamily db) (suffix : Suffix) :
    g.member? suffix = none ↔
      ∀ name, db.InFamily g.stem name → PvName.split? name ≠ some (g.stem, suffix) := by
  rw [h.member_eq, List.getLast?_eq_none_iff, List.filter_eq_nil_iff]
  simp only [mem_familyNames_iff h.main_mem h.main_stem, decide_eq_true_eq, ne_eq]

/-- The ending of the main member is in the group, though another name may have replaced it. -/
theorem exists_member?_of_main (h : g.IsFamily db) {suffix : Suffix}
    (hmain : PvName.split? g.main = some (g.stem, suffix)) :
    ∃ member, g.member? suffix = some member := by
  rw [← Option.ne_none_iff_exists']
  intro hnone
  obtain ⟨r, hr, hname⟩ := h.main_mem
  exact (h.member?_eq_none_iff suffix).mp hnone g.main
    (.inl ⟨r, hr, hname, hname ▸ h.main_stem⟩) hmain

theorem mainSuffix?_eq_some_iff (h : g.IsFamily db) (suffix : Suffix) :
    g.mainSuffix? = some suffix ↔ PvName.split? g.main = some (g.stem, suffix) := by
  rw [mainSuffix?]
  cases hmain : PvName.split? g.main with
  | none => simp
  | some pair =>
    obtain ⟨stem, other⟩ := pair
    obtain rfl : stem = g.stem := (PvName.stem_of_split? hmain).symm.trans h.main_stem
    simp

/-- The main member has an ending if and only if the least record name of the family has it. -/
theorem split?_main_iff (h : g.IsFamily db) (suffix : Suffix) :
    PvName.split? g.main = some (g.stem, suffix) ↔
      ∃ r ∈ db.records, PvName.split? r.name = some (g.stem, suffix) ∧
        ∀ s ∈ db.records, PvName.stem s.name = g.stem → Text.bytes r.name ≤ Text.bytes s.name := by
  obtain ⟨first, hfirst, hname⟩ := h.main_mem
  constructor
  · intro hmain
    exact ⟨first, hfirst, hname ▸ hmain, hname ▸ h.main_le⟩
  · rintro ⟨r, hr, hsplit, hleast⟩
    have hle : g.main ≤ r.name :=
      Text.le_iff_bytes_le.mpr (h.main_le r hr (PvName.stem_of_split? hsplit))
    have hge : r.name ≤ g.main := by
      rw [← hname]
      exact Text.le_iff_bytes_le.mpr (hleast first hfirst (hname ▸ h.main_stem))
    rwa [le_antisymm hle hge]

end Group.IsFamily

/-! ## The finding -/

namespace Naming

theorem loneSetpointReadback_not_mem_setpointFindings (records : List Record) (g : Group) :
    .loneSetpointReadback name ∉ setpointFindings records g := by
  intro h
  rw [setpointFindings] at h
  split at h
  · cases List.mem_singleton.mp h
  · cases eq_of_mem_ite h

theorem loneSetpointReadback_not_mem_readbackFindings (g : Group) :
    .loneSetpointReadback name ∉ readbackFindings g := by
  intro h
  rw [readbackFindings] at h
  split at h
  · cases h
  · cases List.mem_singleton.mp h
  · cases List.mem_singleton.mp h
  · rcases List.mem_append.mp h with h | h
    · cases eq_of_mem_ite h
    · cases eq_of_mem_ite h

/-- The main member alone decides whether a group is reported. -/
theorem mem_groupFindings_loneSetpointReadback_iff {records : List Record} :
    .loneSetpointReadback name ∈ groupFindings records g ↔
      g.mainSuffix? = some .setpointReadback ∧ g.setpointReadback.getD "" = name := by
  have hcasing : .loneSetpointReadback name ∉ casingFindings g := by
    simp [mem_casingFindings_iff]
  have hcharacter : .loneSetpointReadback name ∉ characterFindings g := by
    simp [mem_characterFindings_iff]
  simp only [groupFindings, List.mem_append, hcasing, hcharacter, false_or]
  rw [familyFindings]
  split
  · next hmain =>
    simp [hmain, loneSetpointReadback_not_mem_setpointFindings]
  · next hmain => simp [hmain, eq_comm]
  · next hmain =>
    simp [hmain, loneSetpointReadback_not_mem_readbackFindings]

theorem message_loneSetpointReadback (name : String) :
    (NamingFinding.loneSetpointReadback name).message =
      "FORMAT ERROR: " ++ ("cannot have a SP:RBV on its own (" ++ name ++ ")") := by
  have htitle : "FORMAT ERROR: " = Category.format.title ++ ": " := by decide +kernel
  rw [htitle]
  rfl

/-- What is found about a group is in the report on the database. -/
theorem message_mem_namingReport (hg : g ∈ db.groups)
    (h : .loneSetpointReadback name ∈ groupFindings db.byName g) (strict : Bool) :
    "FORMAT ERROR: " ++ ("cannot have a SP:RBV on its own (" ++ name ++ ")") ∈
      (db.namingReport strict).messages .error := by
  have hfinding : .loneSetpointReadback name ∈ db.namingFindings :=
    List.mem_append_right _ (List.mem_flatMap.mpr ⟨g, hg, h⟩)
  exact mem_namingReport_iff.mpr ⟨_, hfinding, rfl, message_loneSetpointReadback name⟩

/-- A group is reported if and only if the least record name of its family is a setpoint readback.
The report names the setpoint readback of the group. -/
theorem mem_groupFindings_iff_least (h : g.IsFamily db) :
    .loneSetpointReadback name ∈ groupFindings db.byName g ↔
      g.setpointReadback = some name ∧
        ∃ r ∈ db.records, PvName.split? r.name = some (g.stem, .setpointReadback) ∧
          ∀ s ∈ db.records, PvName.stem s.name = g.stem →
            Text.bytes r.name ≤ Text.bytes s.name := by
  rw [mem_groupFindings_loneSetpointReadback_iff, h.mainSuffix?_eq_some_iff, ← h.split?_main_iff,
    and_comm]
  refine and_congr_left fun hmain => ?_
  obtain ⟨member, hmember⟩ := h.exists_member?_of_main hmain
  have hslot : g.setpointReadback = some member := hmember
  simp [hslot]

end Naming

/-! ## Where the report is right -/

/-- The setpoints of the family are records, and its setpoint readbacks begin with them. -/
structure Database.SpelledAlike (db : Database) (stem : String) : Prop where
  records : ∀ r ∈ db.byName, PvName.stem r.name = stem → ∀ name ∈ r.aliases,
    PvName.split? name ≠ some (stem, .setpoint)
  starts : ∀ r ∈ db.records, ∀ s ∈ db.records, PvName.split? r.name = some (stem, .setpoint) →
    PvName.split? s.name = some (stem, .setpointReadback) → r.name.toList <+: s.name.toList

theorem Group.IsFamily.setpoint_eq_none (h : g.IsFamily db) (hspelled : db.SpelledAlike g.stem)
    (hmain : PvName.split? g.main = some (g.stem, .setpointReadback)) : g.setpoint = none := by
  refine (h.member?_eq_none_iff .setpoint).mpr ?_
  rintro name (⟨r, hr, rfl, hstem⟩ | ⟨r, hr, hstem, halias⟩) hsplit
  · -- the setpoint starts the main member, so it would be the main member itself
    obtain ⟨first, hfirst, hname⟩ := h.main_mem
    have hle : r.name ≤ g.main := by
      rw [← hname] at hmain ⊢
      exact Text.le_of_prefix (hspelled.starts r hr first hfirst hsplit hmain)
    have hge : g.main ≤ r.name := Text.le_iff_bytes_le.mpr (h.main_le r hr hstem)
    rw [le_antisymm hle hge, hmain] at hsplit
    simp at hsplit
  · exact hspelled.records r hr hstem name halias hsplit

/-- A group is reported for a lone setpoint readback if and only if the least record name of its
family is one.  It has no setpoint if and only if no name of the family is one.  The first implies
the second if the family is spelled alike. -/
theorem lone_readback_is_least_name (db : Database) (g : Group) (hg : g ∈ db.groups)
    (name : String) :
    (.loneSetpointReadback name ∈ Naming.groupFindings db.byName g ↔
      g.setpointReadback = some name ∧
        ∃ r ∈ db.records, PvName.split? r.name = some (g.stem, .setpointReadback) ∧
          ∀ s ∈ db.records, PvName.stem s.name = g.stem →
            Text.bytes r.name ≤ Text.bytes s.name) ∧
    (g.setpoint = none ↔
      ∀ other, db.InFamily g.stem other → PvName.split? other ≠ some (g.stem, .setpoint)) ∧
    (.loneSetpointReadback name ∈ Naming.groupFindings db.byName g →
      (∀ strict, "FORMAT ERROR: " ++ ("cannot have a SP:RBV on its own (" ++ name ++ ")") ∈
        (db.namingReport strict).errors) ∧
      (db.SpelledAlike g.stem → g.setpoint = none)) := by
  have hfamily : g.IsFamily db := isFamily_of_mem_groups hg
  refine ⟨Naming.mem_groupFindings_iff_least hfamily, hfamily.member?_eq_none_iff .setpoint, ?_⟩
  intro hreported
  refine ⟨Naming.message_mem_namingReport hg hreported, ?_⟩
  intro hspelled
  obtain ⟨-, hleast⟩ := (Naming.mem_groupFindings_iff_least hfamily).mp hreported
  exact hfamily.setpoint_eq_none hspelled ((hfamily.split?_main_iff .setpointReadback).mpr hleast)

/-- The theorem at a family with a setpoint readback and an alias for the readback, beside a
setpoint of another family. -/
theorem lone_readback_without_setpoint :
    let db : Database := ⟨"", [⟨"ai", "A:SP:RBV", [], [], ["A"]⟩, .bare "ao" "A:B:SP"]⟩
    let g : Group := ⟨"A", "A:SP:RBV", some "A", none, some "A:SP:RBV"⟩
    g ∈ db.groups ∧ .loneSetpointReadback "A:SP:RBV" ∈ Naming.groupFindings db.byName g ∧
      db.SpelledAlike g.stem ∧ g.setpoint = none := by
  intro db g
  have hg : g ∈ db.groups := by decide +kernel
  have hreported : .loneSetpointReadback "A:SP:RBV" ∈ Naming.groupFindings db.byName g := by
    decide +kernel
  have hspelled : db.SpelledAlike g.stem := ⟨by decide +kernel, by decide +kernel⟩
  obtain ⟨-, -, hright⟩ := lone_readback_is_least_name db g hg "A:SP:RBV"
  exact ⟨hg, hreported, hspelled, (hright hreported).2 hspelled⟩

/-- A setpoint readback is reported as standing on its own beside a setpoint: one that is spelled in
another way and comes after it, or one that is its own alias. -/
theorem lone_readback_beside_setpoint :
    let db : Database := ⟨"", [⟨"ai", "A:SP:RBV", [], [], ["A"]⟩, .bare "ao" "A_SP"]⟩
    let g : Group := ⟨"A", "A:SP:RBV", some "A", some "A_SP", some "A:SP:RBV"⟩
    let other : Database := ⟨"", [⟨"ai", "A:SP:RBV", [], [], ["A:SP", "A"]⟩]⟩
    let h : Group := ⟨"A", "A:SP:RBV", some "A", some "A:SP", some "A:SP:RBV"⟩
    (g ∈ db.groups ∧ .loneSetpointReadback "A:SP:RBV" ∈ Naming.groupFindings db.byName g ∧
      (db.namingReport false).errors =
        ["FORMAT ERROR: cannot have a SP:RBV on its own (A:SP:RBV)"]) ∧
    h ∈ other.groups ∧ .loneSetpointReadback "A:SP:RBV" ∈ Naming.groupFindings other.byName h ∧
      (other.namingReport false).errors =
        ["FORMAT ERROR: cannot have a SP:RBV on its own (A:SP:RBV)"] := by
  decide +kernel

end EpicsDb
