import EpicsDb.Group
import EpicsDb.Proofs.ByteOrder
import EpicsDb.Proofs.PvName
import Mathlib.Data.List.Induction

/-!
# What is in the groups of a database

The groups are made by two passes that overwrite what earlier steps have put in place.  This module
says what is left at the end, in terms of the records alone.

* `pairwise_byName` and `mem_byName_iff` describe the records by name: they are in ascending order,
  and of several records of one name the last is there.
* `Started` is the invariant of the first pass.  A group is started from the least name of its
  family, since names come in ascending order and only the first one of a family starts a group.
* `offer_member?` and `offer_readback` say what one offer does to a group; `foldl_offer_member?` and
  `foldl_offer_readback` what any number of them do: the last name with a fitting ending stays.
* `foldl_offerRecord` turns the second pass into one list of names for each group, so that groups
  can be looked at one by one.
* `Group.IsFamily` is the closed form of a group, and `groups_eq_families` the result.
-/

namespace EpicsDb

/-! ## Records by name -/

variable {r x : Record} {rs : List Record}

theorem mem_insertByName (h : rs.Pairwise (·.name < ·.name)) :
    x ∈ insertByName r rs ↔ x = r ∨ x ∈ rs ∧ x.name ≠ r.name := by
  induction rs with
  | nil => simp [insertByName]
  | cons y ys ih =>
    obtain ⟨hy, hys⟩ := List.pairwise_cons.mp h
    rw [insertByName]
    split_ifs with heq hlt
    · -- the record of the same name goes, and all later names differ from it
      have hlater : ∀ z ∈ ys, z.name ≠ r.name := fun z hz => heq ▸ (hy z hz).ne'
      constructor
      · rintro (_ | ⟨_, hx⟩)
        · exact .inl rfl
        · exact .inr ⟨List.mem_cons_of_mem y hx, hlater x hx⟩
      · rintro (rfl | ⟨_ | ⟨_, hx⟩, hne⟩)
        · exact List.mem_cons_self
        · exact absurd heq.symm hne
        · exact List.mem_cons_of_mem r hx
    · have hgreater : ∀ z ∈ y :: ys, z.name ≠ r.name := by
        rintro z (_ | ⟨_, hz⟩)
        · exact hlt.ne'
        · exact (hlt.trans (hy z hz)).ne'
      rw [List.mem_cons]
      exact or_congr_right ⟨fun hx => ⟨hx, hgreater x hx⟩, And.left⟩
    · rw [List.mem_cons, List.mem_cons, ih hys]
      constructor
      · rintro (rfl | rfl | ⟨hx, hne⟩)
        · exact .inr ⟨.inl rfl, Ne.symm heq⟩
        · exact .inl rfl
        · exact .inr ⟨.inr hx, hne⟩
      · rintro (rfl | ⟨rfl | hx, hne⟩)
        · exact .inr (.inl rfl)
        · exact .inl rfl
        · exact .inr (.inr ⟨hx, hne⟩)

theorem pairwise_insertByName (h : rs.Pairwise (·.name < ·.name)) :
    (insertByName r rs).Pairwise (·.name < ·.name) := by
  induction rs with
  | nil => exact List.pairwise_singleton _ r
  | cons y ys ih =>
    obtain ⟨hy, hys⟩ := List.pairwise_cons.mp h
    rw [insertByName]
    split_ifs with heq hlt
    · exact List.pairwise_cons.mpr ⟨fun z hz => heq ▸ hy z hz, hys⟩
    · refine List.pairwise_cons.mpr ⟨?_, h⟩
      rintro z (_ | ⟨_, hz⟩)
      · exact hlt
      · exact hlt.trans (hy z hz)
    · refine List.pairwise_cons.mpr ⟨?_, ih hys⟩
      intro z hz
      rcases (mem_insertByName hys).mp hz with rfl | ⟨hz, -⟩
      · exact lt_of_le_of_ne (not_lt.mp hlt) (Ne.symm heq)
      · exact hy z hz

/-- The record that counts under a name: the last one of that name. -/
def Database.named? (db : Database) (name : String) : Option Record :=
  (db.records.filter (·.name == name)).getLast?

theorem byName_concat (source : String) (rs : List Record) (r : Record) :
    Database.byName ⟨source, rs ++ [r]⟩ = insertByName r (Database.byName ⟨source, rs⟩) := by
  rw [Database.byName, List.foldl_append]
  rfl

theorem named?_concat (source : String) (rs : List Record) (r : Record) (name : String) :
    Database.named? ⟨source, rs ++ [r]⟩ name =
      if r.name = name then some r else Database.named? ⟨source, rs⟩ name := by
  rw [Database.named?, Database.named?, List.filter_append]
  split_ifs with heq
  · simp [heq]
  · simp [heq]

theorem pairwise_byName (db : Database) : db.byName.Pairwise (·.name < ·.name) := by
  obtain ⟨source, rs⟩ := db
  induction rs using List.reverseRecOn with
  | nil => exact .nil
  | append_singleton rs r ih =>
    rw [byName_concat]
    exact pairwise_insertByName ih

/-- Of several records of one name the last counts. -/
theorem mem_byName_iff {db : Database} : r ∈ db.byName ↔ db.named? r.name = some r := by
  obtain ⟨source, rs⟩ := db
  induction rs using List.reverseRecOn with
  | nil => simp [Database.byName, Database.named?]
  | append_singleton rs s ih =>
    rw [byName_concat, mem_insertByName (pairwise_byName _), named?_concat, ih]
    split_ifs with hname
    · constructor
      · rintro (rfl | ⟨-, hne⟩)
        · rfl
        · exact absurd hname.symm hne
      · intro h
        exact .inl (Option.some.inj h).symm
    · constructor
      · rintro (rfl | ⟨h, -⟩)
        · exact absurd rfl hname
        · exact h
      · intro h
        exact .inr ⟨h, Ne.symm hname⟩

theorem mem_of_named? {db : Database} {name : String} (h : db.named? name = some r) :
    r ∈ db.records ∧ r.name = name := by
  have hmem := List.mem_of_getLast? h
  simpa using hmem

theorem exists_named? {db : Database} (h : r ∈ db.records) : ∃ s, db.named? r.name = some s := by
  have hmem : r ∈ db.records.filter (·.name == r.name) := by simp [h]
  exact ⟨_, List.getLast?_eq_some_getLast (List.ne_nil_of_mem hmem)⟩

/-- Which names there are does not depend on which records count. -/
theorem exists_mem_byName_iff {db : Database} {name : String} :
    (∃ r ∈ db.byName, r.name = name) ↔ ∃ r ∈ db.records, r.name = name := by
  constructor
  · rintro ⟨r, hr, hname⟩
    exact ⟨r, (mem_of_named? (mem_byName_iff.mp hr)).1, hname⟩
  · rintro ⟨r, hr, rfl⟩
    obtain ⟨s, hs⟩ := exists_named? hr
    obtain ⟨-, hsame⟩ := mem_of_named? hs
    exact ⟨s, mem_byName_iff.mpr (hsame ▸ hs), hsame⟩

/-! ## The first pass -/

variable {g : Group} {gs : List Group} {name : String} {names : List String}

namespace Group

@[simp]
theorem assign_stem (g : Group) (suffix : Suffix) (name : String) :
    (g.assign suffix name).stem = g.stem := by
  cases suffix <;> rfl

@[simp]
theorem assign_main (g : Group) (suffix : Suffix) (name : String) :
    (g.assign suffix name).main = g.main := by
  cases suffix <;> rfl

@[simp]
theorem start_stem (main : String) : (start main).stem = PvName.stem main := by
  cases h : PvName.split? main <;> simp [start, PvName.stem, h]

@[simp]
theorem start_main (main : String) : (start main).main = main := by
  cases h : PvName.split? main <;> simp [start, h]

end Group

theorem mem_insertByStem {x : Group} : x ∈ insertByStem g gs ↔ x = g ∨ x ∈ gs := by
  induction gs with
  | nil => simp [insertByStem]
  | cons y ys ih =>
    rw [insertByStem]
    split_ifs
    · exact List.mem_cons
    · rw [List.mem_cons, ih, List.mem_cons, or_left_comm]

theorem pairwise_insertByStem (h : gs.Pairwise (·.stem < ·.stem))
    (hnew : ∀ x ∈ gs, x.stem ≠ g.stem) : (insertByStem g gs).Pairwise (·.stem < ·.stem) := by
  induction gs with
  | nil => exact List.pairwise_singleton _ g
  | cons y ys ih =>
    obtain ⟨hy, hys⟩ := List.pairwise_cons.mp h
    rw [insertByStem]
    split_ifs with hlt
    · refine List.pairwise_cons.mpr ⟨?_, h⟩
      rintro z (_ | ⟨_, hz⟩)
      · exact hlt
      · exact hlt.trans (hy z hz)
    · refine List.pairwise_cons.mpr ⟨?_, ih hys fun x hx => hnew x (List.mem_cons_of_mem y hx)⟩
      intro z hz
      rcases mem_insertByStem.mp hz with rfl | hz
      · exact lt_of_le_of_ne (not_lt.mp hlt) (hnew y List.mem_cons_self)
      · exact hy z hz

/-- The groups that names in ascending order have started. -/
structure Started (names : List String) (gs : List Group) : Prop where
  sorted : gs.Pairwise (·.stem < ·.stem)
  start : ∀ g ∈ gs, g = .start g.main
  mem : ∀ g ∈ gs, g.main ∈ names
  least : ∀ g ∈ gs, ∀ name ∈ names, PvName.stem name = g.stem → g.main ≤ name
  complete : ∀ name ∈ names, ∃ g ∈ gs, g.stem = PvName.stem name

theorem Started.startGroup (h : Started names gs) (hname : ∀ earlier ∈ names, earlier ≤ name) :
    Started (names ++ [name]) (startGroup gs name) := by
  have hmem : ∀ g ∈ gs, g.main ∈ names ++ [name] :=
    fun g hg => List.mem_append_left _ (h.mem g hg)
  have hleast : ∀ g ∈ gs, ∀ n ∈ names ++ [name], PvName.stem n = g.stem → g.main ≤ n := by
    intro g hg n hn hstem
    rcases List.mem_append.mp hn with hn | hn
    · exact h.least g hg n hn hstem
    · rw [List.mem_singleton.mp hn]
      exact hname g.main (h.mem g hg)
  rw [EpicsDb.startGroup]
  split_ifs with hany
  · obtain ⟨old, hold, hstem⟩ : ∃ old ∈ gs, old.stem = PvName.stem name := by simpa using hany
    refine ⟨h.sorted, h.start, hmem, hleast, ?_⟩
    intro n hn
    rcases List.mem_append.mp hn with hn | hn
    · exact h.complete n hn
    · rw [List.mem_singleton.mp hn]
      exact ⟨old, hold, hstem⟩
  · have hnew : ∀ x ∈ gs, x.stem ≠ (Group.start name).stem := by simpa using hany
    refine ⟨pairwise_insertByStem h.sorted hnew, ?_, ?_, ?_, ?_⟩
    · intro g hg
      rcases mem_insertByStem.mp hg with rfl | hg
      · rw [Group.start_main]
      · exact h.start g hg
    · intro g hg
      rcases mem_insertByStem.mp hg with rfl | hg
      · simp
      · exact hmem g hg
    · intro g hg n hn hstem
      rcases mem_insertByStem.mp hg with rfl | hg
      · rw [Group.start_main]
        rcases List.mem_append.mp hn with hn | hn
        · -- an earlier name of the family would have started the group
          obtain ⟨old, hold, hold_stem⟩ := h.complete n hn
          exact absurd (hold_stem.trans hstem) (hnew old hold)
        · exact (List.mem_singleton.mp hn).ge
      · exact hleast g hg n hn hstem
    · intro n hn
      rcases List.mem_append.mp hn with hn | hn
      · obtain ⟨old, hold, hstem⟩ := h.complete n hn
        exact ⟨old, mem_insertByStem.mpr (.inr hold), hstem⟩
      · rw [List.mem_singleton.mp hn]
        exact ⟨.start name, mem_insertByStem.mpr (.inl rfl), Group.start_stem name⟩

theorem started_foldl (h : names.Pairwise (· ≤ ·)) : Started names (names.foldl startGroup []) := by
  induction names using List.reverseRecOn with
  | nil => constructor <;> simp
  | append_singleton names name ih =>
    obtain ⟨hnames, -, hlast⟩ := List.pairwise_append.mp h
    rw [List.foldl_append, List.foldl_cons, List.foldl_nil]
    exact (ih hnames).startGroup fun earlier hearlier =>
      hlast earlier hearlier name (List.mem_singleton_self name)

/-! ## Offers -/

namespace Group

variable {suffix : Suffix}

/-- The member with the given ending. -/
def member? (g : Group) : Suffix → Option String
  | .setpoint => g.setpoint
  | .setpointReadback => g.setpointReadback

theorem assign_member? (g : Group) (suffix other : Suffix) (name : String) :
    (g.assign other name).member? suffix =
      if other = suffix then some name else g.member? suffix := by
  cases suffix <;> cases other <;> rfl

theorem assign_readback (g : Group) (suffix : Suffix) (name : String) :
    (g.assign suffix name).readback = g.readback := by
  cases suffix <;> rfl

@[simp]
theorem offer_stem (g : Group) (name : String) : (g.offer name).stem = g.stem := by
  rw [offer]
  split
  · exact assign_stem ..
  · split_ifs <;> rfl

@[simp]
theorem offer_main (g : Group) (name : String) : (g.offer name).main = g.main := by
  rw [offer]
  split
  · exact assign_main ..
  · split_ifs <;> rfl

/-- A name takes the place that its ending says, and no other. -/
theorem offer_member? (g : Group) (name : String) (suffix : Suffix) :
    (g.offer name).member? suffix =
      if PvName.split? name = some (g.stem, suffix) then some name else g.member? suffix := by
  rw [offer]
  split
  · next other hother =>
    rw [assign_member?, PvName.suffixIn?_eq_some_iff.mp hother]
    simp
  · next hnone =>
    have hsplit : PvName.split? name ≠ some (g.stem, suffix) := by
      intro h
      rw [PvName.suffixIn?_eq_some_iff.mpr h] at hnone
      simp at hnone
    rw [if_neg hsplit]
    split_ifs
    · cases suffix <;> rfl
    · rfl

/-- The stem itself becomes the readback; it never has an ending in its own family. -/
theorem offer_readback (g : Group) (name : String) :
    (g.offer name).readback = if name = g.stem then some g.stem else g.readback := by
  rw [offer]
  split
  · next other hother =>
    have hne : name ≠ g.stem := (PvName.stem_lt (PvName.suffixIn?_eq_some_iff.mp hother)).ne'
    rw [assign_readback, if_neg hne]
  · split_ifs with heq
    · exact congrArg some heq
    · rfl

@[simp]
theorem foldl_offer_stem (g : Group) (names : List String) :
    (names.foldl offer g).stem = g.stem := by
  induction names generalizing g with
  | nil => rfl
  | cons name names ih => rw [List.foldl_cons, ih, offer_stem]

@[simp]
theorem foldl_offer_main (g : Group) (names : List String) :
    (names.foldl offer g).main = g.main := by
  induction names generalizing g with
  | nil => rfl
  | cons name names ih => rw [List.foldl_cons, ih, offer_main]

/-- The last name with a fitting ending stays. -/
theorem foldl_offer_member? (g : Group) (names : List String) (suffix : Suffix) :
    (names.foldl offer g).member? suffix =
      (names.filter (PvName.split? · = some (g.stem, suffix))).getLast?.or (g.member? suffix) := by
  induction names using List.reverseRecOn with
  | nil => simp
  | append_singleton names name ih =>
    rw [List.foldl_append, List.foldl_cons, List.foldl_nil, offer_member?, foldl_offer_stem, ih,
      List.filter_append]
    split_ifs with hfits
    · simp [hfits]
    · simp [hfits]

theorem foldl_offer_readback (g : Group) (names : List String) :
    (names.foldl offer g).readback = if g.stem ∈ names then some g.stem else g.readback := by
  induction names using List.reverseRecOn with
  | nil => simp
  | append_singleton names name ih =>
    rw [List.foldl_append, List.foldl_cons, List.foldl_nil, offer_readback, foldl_offer_stem, ih]
    by_cases heq : name = g.stem
    · simp [heq]
    · simp [heq, Ne.symm heq]

/-- A new group is one that its main member has been offered to. -/
theorem start_eq_offer (main : String) :
    start main = offer ⟨PvName.stem main, main, none, none, none⟩ main := by
  rw [start, offer]
  cases h : PvName.split? main with
  | none =>
    have hstem : PvName.stem main = main := PvName.stem_of_split?_none h
    rw [hstem, PvName.suffixIn?_self]
    simp
  | some pair =>
    obtain ⟨stem, suffix⟩ := pair
    have hstem : PvName.stem main = stem := PvName.stem_of_split? h
    rw [hstem, PvName.suffixIn?_eq_some_iff.mpr h]

end Group

/-! ## The second pass -/

/-- The names that a record offers to the group with the given stem and main member. -/
def Record.offersTo (r : Record) (stem main : String) : List String :=
  (if PvName.stem r.name = stem then r.aliases else []) ++ if r.name = main then [] else [r.name]

theorem offerRecord_eq (gs : List Group) (r : Record) :
    offerRecord gs r = gs.map fun g => (r.offersTo g.stem g.main).foldl Group.offer g := by
  rw [offerRecord]
  refine List.map_congr_left fun g _ => ?_
  rw [Record.offersTo, List.foldl_append]
  by_cases hstem : g.stem = PvName.stem r.name
  · by_cases hmain : g.main = r.name
    · simp [hstem, hmain]
    · simp [hstem, hmain, Ne.symm hmain]
  · by_cases hmain : g.main = r.name
    · simp [hstem, hmain, Ne.symm hstem]
    · simp [hstem, hmain, Ne.symm hstem, Ne.symm hmain]

/-- Each group hears the records one after another, whatever becomes of the other groups. -/
theorem foldl_offerRecord (rs : List Record) (gs : List Group) :
    rs.foldl offerRecord gs =
      gs.map fun g => (rs.flatMap (·.offersTo g.stem g.main)).foldl Group.offer g := by
  induction rs generalizing gs with
  | nil => simp
  | cons r rs ih =>
    rw [List.foldl_cons, ih, offerRecord_eq, List.map_map]
    refine List.map_congr_left fun g _ => ?_
    simp [List.foldl_append]

theorem started_byName (db : Database) :
    Started (db.byName.map (·.name)) ((db.byName.map (·.name)).foldl startGroup []) := by
  refine started_foldl (List.pairwise_map.mpr ?_)
  exact (pairwise_byName db).imp le_of_lt

/-- The second pass keeps the groups of the first one. -/
theorem groups_map_stem (db : Database) :
    db.groups.map (·.stem) = ((db.byName.map (·.name)).foldl startGroup []).map (·.stem) := by
  rw [Database.groups, foldl_offerRecord, List.map_map]
  exact List.map_congr_left fun g _ => Group.foldl_offer_stem g _

/-- A group at the end has heard its main member and then the records. -/
theorem eq_foldl_of_mem_groups {db : Database} (h : g ∈ db.groups) :
    ∃ first ∈ (db.byName.map (·.name)).foldl startGroup [],
      first.stem = g.stem ∧ first.main = g.main ∧
      g = (g.main :: db.byName.flatMap (·.offersTo g.stem g.main)).foldl Group.offer
        ⟨g.stem, g.main, none, none, none⟩ := by
  rw [Database.groups, foldl_offerRecord, List.mem_map] at h
  obtain ⟨first, hfirst, rfl⟩ := h
  have hstart : first = .start first.main := (started_byName db).start first hfirst
  have hstem : first.stem = PvName.stem first.main := by
    rw [hstart, Group.start_stem, Group.start_main]
  refine ⟨first, hfirst, ?_, ?_, ?_⟩
  · rw [Group.foldl_offer_stem]
  · rw [Group.foldl_offer_main]
  · rw [Group.foldl_offer_stem, Group.foldl_offer_main, List.foldl_cons, hstem,
      ← Group.start_eq_offer, ← hstart]

/-! ## The closed form -/

/-- The stem of a family is the name of a record, or an alias of a record of the family. -/
def Database.HasReadback (db : Database) (stem : String) : Prop :=
  (∃ r ∈ db.records, r.name = stem) ∨
    ∃ r ∈ db.byName, PvName.stem r.name = stem ∧ stem ∈ r.aliases

instance (db : Database) (stem : String) : Decidable (db.HasReadback stem) :=
  inferInstanceAs (Decidable (_ ∨ _))

/-- The names of a family: its main member, and then the aliases and the name of each of its records
in the order of their names. -/
def Database.familyNames (db : Database) (stem main : String) : List String :=
  main :: (db.byName.filter (PvName.stem ·.name = stem)).flatMap fun r =>
    r.aliases ++ if r.name = main then [] else [r.name]

/-- The group holds what the database has of its family. -/
structure Group.IsFamily (g : Group) (db : Database) : Prop where
  main_mem : ∃ r ∈ db.records, r.name = g.main
  main_stem : PvName.stem g.main = g.stem
  main_le : ∀ r ∈ db.records, PvName.stem r.name = g.stem →
    Text.bytes g.main ≤ Text.bytes r.name
  main_eq : (∃ r ∈ db.records, r.name = g.stem) → PvName.split? g.stem = none → g.main = g.stem
  readback_eq : g.readback = if db.HasReadback g.stem then some g.stem else none
  member_eq : ∀ suffix, g.member? suffix =
    ((db.familyNames g.stem g.main).filter (PvName.split? · = some (g.stem, suffix))).getLast?

/-- Records of other families offer nothing but their names, which have no ending in this one. -/
theorem filter_offersTo (rs : List Record) (stem main : String) (suffix : Suffix) :
    (rs.flatMap (·.offersTo stem main)).filter (PvName.split? · = some (stem, suffix)) =
      ((rs.filter (PvName.stem ·.name = stem)).flatMap fun r =>
        r.aliases ++ if r.name = main then [] else [r.name]).filter
          (PvName.split? · = some (stem, suffix)) := by
  induction rs with
  | nil => rfl
  | cons r rs ih =>
    rw [List.flatMap_cons, List.filter_append, ih]
    by_cases hstem : PvName.stem r.name = stem
    · simp [Record.offersTo, hstem]
    · have hsplit : PvName.split? r.name ≠ some (stem, suffix) :=
        fun h => hstem (PvName.stem_of_split? h)
      rw [Record.offersTo, if_neg hstem, List.filter_cons_of_neg (by simpa using hstem)]
      by_cases hmain : r.name = main
      · simp [hmain]
      · simp [hmain, hsplit]

theorem stem_mem_offersTo_iff {db : Database} {stem main : String}
    (hmain : ∃ r ∈ db.records, r.name = main) :
    stem ∈ main :: db.byName.flatMap (·.offersTo stem main) ↔ db.HasReadback stem := by
  have hoffers : ∀ r : Record, stem ∈ r.offersTo stem main ↔
      (PvName.stem r.name = stem ∧ stem ∈ r.aliases) ∨ (r.name = stem ∧ r.name ≠ main) := by
    intro r
    by_cases hstem : PvName.stem r.name = stem <;> by_cases hname : r.name = main <;>
      simp [Record.offersTo, hstem, hname, eq_comm]
  rw [List.mem_cons, List.mem_flatMap, Database.HasReadback]
  constructor
  · rintro (rfl | ⟨r, hr, hstem⟩)
    · exact .inl hmain
    · rcases (hoffers r).mp hstem with halias | ⟨hname, -⟩
      · exact .inr ⟨r, hr, halias⟩
      · exact .inl (exists_mem_byName_iff.mp ⟨r, hr, hname⟩)
  · rintro (hname | ⟨r, hr, halias⟩)
    · obtain ⟨r, hr, hname⟩ := exists_mem_byName_iff.mpr hname
      by_cases heq : stem = main
      · exact .inl heq
      · exact .inr ⟨r, hr, (hoffers r).mpr (.inr ⟨hname, hname ▸ heq⟩)⟩
    · exact .inr ⟨r, hr, (hoffers r).mpr (.inl halias)⟩

theorem isFamily_of_mem_groups {db : Database} (h : g ∈ db.groups) : g.IsFamily db := by
  obtain ⟨first, hfirst, hstem, hmain, heq⟩ := eq_foldl_of_mem_groups h
  have hstarted := started_byName db
  have hmem : ∃ r ∈ db.records, r.name = g.main := by
    have := hstarted.mem first hfirst
    rw [hmain, List.mem_map] at this
    exact exists_mem_byName_iff.mp this
  have hmainStem : PvName.stem g.main = g.stem := by
    rw [← hstem, ← hmain, hstarted.start first hfirst, Group.start_stem, Group.start_main]
  have hle : ∀ r ∈ db.records, PvName.stem r.name = g.stem → g.main ≤ r.name := by
    intro r hr hrstem
    obtain ⟨s, hs, hname⟩ := exists_mem_byName_iff.mpr ⟨r, hr, rfl⟩
    rw [← hmain, ← hname]
    refine hstarted.least first hfirst s.name (List.mem_map_of_mem hs) ?_
    rw [hname, hrstem, hstem]
  refine ⟨hmem, hmainStem, fun r hr hrstem => Text.le_iff_bytes_le.mp (hle r hr hrstem), ?_, ?_, ?_⟩
  · rintro ⟨r, hr, hname⟩ hnone
    have hrstem : PvName.stem r.name = g.stem := by rw [hname, PvName.stem_of_split?_none hnone]
    exact le_antisymm (hname ▸ hle r hr hrstem) (hmainStem ▸ PvName.stem_le g.main)
  · conv_lhs => rw [heq]
    rw [Group.foldl_offer_readback]
    exact if_congr (stem_mem_offersTo_iff hmem) rfl rfl
  · intro suffix
    conv_lhs => rw [heq]
    rw [Group.foldl_offer_member?, Database.familyNames, List.filter_cons, List.filter_cons,
      filter_offersTo]
    cases suffix <;> exact Option.or_none

/-- The groups of a database: the stems of its record names in ascending order, each with the
members that the records of its family give it. -/
theorem groups_eq_families (db : Database) :
    (db.byName.Pairwise (fun r s => Text.bytes r.name < Text.bytes s.name) ∧
      ∀ r, r ∈ db.byName ↔ db.named? r.name = some r) ∧
    (db.groups.Pairwise (fun g h => Text.bytes g.stem < Text.bytes h.stem) ∧
      ∀ stem, (∃ g ∈ db.groups, g.stem = stem) ↔ ∃ r ∈ db.records, PvName.stem r.name = stem) ∧
    ∀ g ∈ db.groups, g.IsFamily db := by
  have hstems : db.groups.Pairwise (·.stem < ·.stem) :=
    List.pairwise_map.mp (groups_map_stem db ▸ List.pairwise_map.mpr (started_byName db).sorted)
  refine ⟨⟨?_, fun r => mem_byName_iff⟩, ⟨?_, ?_⟩, fun g => isFamily_of_mem_groups⟩
  · exact (pairwise_byName db).imp Text.lt_iff_bytes_lt.mp
  · exact hstems.imp Text.lt_iff_bytes_lt.mp
  · intro stem
    constructor
    · rintro ⟨g, hg, rfl⟩
      have hfamily := isFamily_of_mem_groups hg
      obtain ⟨r, hr, hname⟩ := hfamily.main_mem
      exact ⟨r, hr, hname ▸ hfamily.main_stem⟩
    · rintro ⟨r, hr, rfl⟩
      obtain ⟨s, hs, hname⟩ := exists_mem_byName_iff.mpr ⟨r, hr, rfl⟩
      obtain ⟨first, hfirst, hstem⟩ := (started_byName db).complete s.name (List.mem_map_of_mem hs)
      rw [← List.mem_map, groups_map_stem, List.mem_map]
      exact ⟨first, hfirst, hname ▸ hstem⟩

-- `X:SP` is a member of one family and the stem of another
example : Database.groups ⟨"", [.bare "ao" "X:SP:SP", .bare "ao" "X_SP", .bare "ao" "X:SP"]⟩ =
    [⟨"X", "X:SP", none, some "X_SP", none⟩,
      ⟨"X:SP", "X:SP:SP", some "X:SP", some "X:SP:SP", none⟩] := by
  decide +kernel

end EpicsDb
