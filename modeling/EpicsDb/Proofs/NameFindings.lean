import EpicsDb.Proofs.Families

/-!
# Findings about the characters of names

The rules for characters look at the members of the groups only, and the name of a record may have
been replaced there by another name or by an alias.  No finding is lost by this: all members of a
group agree with its stem on small letters and on illegal characters, since the endings of names
have neither.

* `exists_ending` says what endings are made of.  `hasSmallLetter_of_split?` and
  `hasIllegalCharacter_of_split?` draw the conclusion for the two rules.
* `FollowsStem` is what the two rules have in common, and `FollowsStem.exists_member_iff` says that
  a rule of this kind finds a member if and only if it would find a record name.
* `Finds` says which members the findings of a category are about; `finds_casing` and
  `finds_character` are the two rules.
* `report_messages` sorts the findings into warnings and errors, and `prefix_message_iff` tells the
  category of a finding from its message.
* `Finds.exists_message_iff` and `Finds.exists_message_of` put this together for one rule, and
  `casing_and_character_reported` for both.
-/

namespace EpicsDb

variable {db : Database} {g : Group} {r : Record} {name stem : String} {suffix : Suffix}

/-! ## Endings -/

namespace Naming

/-- A legal character that is not a small letter. -/
def isEndingChar (c : Char) : Bool :=
  isLegal c && !Text.isLowercase c

theorem setpointWords_plain :
    ∀ word ∈ PvName.setpointWords, word.toList.all isEndingChar = true := by
  decide +kernel

theorem readbackWords_plain :
    ∀ word ∈ PvName.readbackWords, word.toList.all isEndingChar = true := by
  decide +kernel

theorem isEndingChar_of_isSeparator {c : Char} (h : PvName.isSeparator c = true) :
    isEndingChar c = true := by
  simp only [PvName.isSeparator, Bool.or_eq_true, beq_iff_eq] at h
  rcases h with rfl | rfl <;> decide +kernel

/-- Endings are made of legal characters other than small letters. -/
theorem exists_ending (h : PvName.split? name = some (stem, suffix)) :
    ∃ ending, name.toList = stem.toList ++ ending ∧ ∀ c ∈ ending, isEndingChar c = true := by
  cases suffix with
  | setpoint =>
    obtain ⟨-, sep, word, hsep, hword, hname⟩ := PvName.split?_eq_setpoint_iff.mp h
    refine ⟨_, hname, ?_⟩
    rintro c (_ | ⟨_, hc⟩)
    · exact isEndingChar_of_isSeparator hsep
    · exact List.all_eq_true.mp (setpointWords_plain word hword) c hc
  | setpointReadback =>
    obtain ⟨-, sep, middle, sep', word, hsep, hmiddle, hsep', hword, hname⟩ :=
      PvName.split?_eq_setpointReadback_iff.mp h
    refine ⟨_, hname, ?_⟩
    rintro c (_ | ⟨_, hc⟩)
    · exact isEndingChar_of_isSeparator hsep
    · rcases List.mem_append.mp hc with hc | _ | ⟨_, hc⟩
      · exact List.all_eq_true.mp (setpointWords_plain middle hmiddle) c hc
      · exact isEndingChar_of_isSeparator hsep'
      · exact List.all_eq_true.mp (readbackWords_plain word hword) c hc

/-- What a rule says of a name it says of its stem. -/
def FollowsStem (p : String → Bool) : Prop :=
  ∀ {name stem suffix}, PvName.split? name = some (stem, suffix) → p name = p stem

theorem hasSmallLetter_of_split? : FollowsStem hasSmallLetter := by
  intro name stem suffix h
  obtain ⟨ending, hname, hending⟩ := exists_ending h
  have hnone : ending.any Text.isLowercase = false := by
    rw [List.any_eq_false]
    intro c hc
    have := hending c hc
    simp only [isEndingChar, Bool.and_eq_true, Bool.not_eq_true'] at this
    simp [this.2]
  rw [hasSmallLetter, hasSmallLetter, hname, List.any_append, hnone, Bool.or_false]

/-! ## What stands after macros -/

theorem isLegal_of_isEndingChar {c : Char} (h : isEndingChar c = true) : isLegal c = true :=
  (Bool.and_eq_true _ _ ▸ h).1

/-- The colon that may follow the macros is legal, so leaving it out hides nothing. -/
theorem hasIllegalCharacter_eq (name : String) :
    hasIllegalCharacter name = (PvName.afterMacros name).toList.any (!isLegal ·) := by
  have hcolon : isLegal ':' = true := by decide
  rw [hasIllegalCharacter, PvName.localPart, PvName.afterMacros]
  split_ifs
  · split
    · next cs hcs => simp [hcs, hcolon]
    · rfl
  · rfl

theorem afterLastClose_append {cs ending : List Char} (h : ∀ c ∈ ending, isLegal c = true) :
    PvName.afterLastClose (cs ++ ending) = PvName.afterLastClose cs ++ ending := by
  have hopen : ∀ c ∈ ending.reverse, (c != ')' && c != '\x7d') = true := by
    intro c hc
    have hlegal := h c (List.mem_reverse.mp hc)
    rw [Bool.and_eq_true, bne_iff_ne, bne_iff_ne]
    constructor
    · rintro rfl
      exact absurd hlegal (by decide)
    · rintro rfl
      exact absurd hlegal (by decide)
  rw [PvName.afterLastClose, List.reverse_append, List.takeWhile_append_of_pos hopen,
    List.reverse_append, List.reverse_reverse]
  rfl

theorem hasIllegalCharacter_of_split? : FollowsStem hasIllegalCharacter := by
  intro name stem suffix h
  obtain ⟨ending, hname, hending⟩ := exists_ending h
  have hlegal : ∀ c ∈ ending, isLegal c = true :=
    fun c hc => isLegal_of_isEndingChar (hending c hc)
  have hnone : ending.any (!isLegal ·) = false := by
    rw [List.any_eq_false]
    intro c hc
    simp [hlegal c hc]
  have hdollar : '$' ∉ ending := fun hc => absurd (hlegal '$' hc) (by decide)
  have hmacro : PvName.usesMacro name = PvName.usesMacro stem := by
    rw [PvName.usesMacro, PvName.usesMacro, hname, Bool.eq_iff_iff]
    simp [hdollar]
  rw [hasIllegalCharacter_eq, hasIllegalCharacter_eq, PvName.afterMacros, PvName.afterMacros,
    hmacro]
  split_ifs
  · rw [hname, afterLastClose_append hlegal]
    simp [hnone]
  · rw [hname, List.any_append, hnone, Bool.or_false]

end Naming

/-! ## Members -/

theorem Database.knows_of_exists_name (h : ∃ r ∈ db.records, r.name = name) :
    db.knows name = true := by
  obtain ⟨r, hr, hname⟩ := h
  exact List.any_eq_true.mpr ⟨r, hr, by simp [Record.answersTo, hname]⟩

theorem Database.knows_of_mem_familyNames {main : String} (hmain : ∃ r ∈ db.records, r.name = main)
    (h : name ∈ db.familyNames stem main) : db.knows name = true := by
  rcases List.mem_cons.mp h with rfl | h
  · exact knows_of_exists_name hmain
  · obtain ⟨r, hr, hname⟩ := List.mem_flatMap.mp h
    obtain ⟨hrecord, -⟩ := mem_of_named? (mem_byName_iff.mp (List.mem_filter.mp hr).1)
    refine List.any_eq_true.mpr ⟨r, hrecord, ?_⟩
    rcases List.mem_append.mp hname with halias | hown
    · simp [Record.answersTo, halias]
    · split_ifs at hown
      · simp at hown
      · simp [Record.answersTo, List.mem_singleton.mp hown]

theorem exists_group_of_mem (hr : r ∈ db.records) :
    ∃ g ∈ db.groups, g.stem = PvName.stem r.name := by
  obtain ⟨s, hs, hname⟩ := exists_mem_byName_iff.mpr ⟨r, hr, rfl⟩
  obtain ⟨first, hfirst, hstem⟩ := (started_byName db).complete s.name (List.mem_map_of_mem hs)
  rw [← List.mem_map, groups_map_stem, ← hname, ← hstem]
  exact List.mem_map_of_mem hfirst

namespace Group

theorem mem_members_iff :
    name ∈ g.members ↔ g.readback = some name ∨ ∃ suffix, g.member? suffix = some name := by
  constructor
  · intro h
    obtain ⟨slot, hslot, rfl⟩ : ∃ slot ∈ g.slots, slot = some name := by simpa [members] using h
    rcases List.mem_cons.mp hslot with hslot | hslot
    · exact .inl hslot.symm
    · rcases List.mem_cons.mp hslot with hslot | hslot
      · exact .inr ⟨.setpoint, hslot.symm⟩
      · exact .inr ⟨.setpointReadback, (List.mem_singleton.mp hslot).symm⟩
  · rintro (h | ⟨suffix, h⟩)
    · simp [members, slots, h]
    · cases suffix with
      | setpoint =>
        have hset : g.setpoint = some name := h
        simp [members, slots, hset]
      | setpointReadback =>
        have hread : g.setpointReadback = some name := h
        simp [members, slots, hread]

namespace IsFamily

/-- A member is the stem, or the stem with an ending. -/
theorem eq_stem_or_split? (h : g.IsFamily db) (hname : name ∈ g.members) :
    name = g.stem ∨ ∃ suffix, PvName.split? name = some (g.stem, suffix) := by
  rcases mem_members_iff.mp hname with hreadback | ⟨suffix, hmember⟩
  · rw [h.readback_eq] at hreadback
    split_ifs at hreadback
    exact .inl (Option.some.inj hreadback).symm
  · exact .inr ⟨suffix, h.split?_member suffix hmember⟩

/-- The main member may have been replaced, but then its place is taken by a name of the family. -/
theorem exists_member (h : g.IsFamily db) :
    ∃ name ∈ g.members, PvName.stem name = g.stem ∧ db.knows name = true := by
  cases hsplit : PvName.split? g.main with
  | none =>
    have hmain : g.main = g.stem := h.main_eq_stem_iff.mpr hsplit
    have hreadback : g.readback = some g.stem := by
      rw [h.readback_eq, if_pos (.inl (hmain ▸ h.main_mem))]
    refine ⟨g.stem, mem_members_iff.mpr (.inl hreadback), ?_, ?_⟩
    · exact PvName.stem_of_split?_none (hmain ▸ hsplit)
    · exact Database.knows_of_exists_name (hmain ▸ h.main_mem)
  | some pair =>
    obtain ⟨stem, suffix⟩ := pair
    obtain rfl : stem = g.stem := (PvName.stem_of_split? hsplit).symm.trans h.main_stem
    have hfits : g.main ∈ (db.familyNames g.stem g.main).filter
        (PvName.split? · = some (g.stem, suffix)) :=
      List.mem_filter.mpr ⟨List.mem_cons_self, by simpa using hsplit⟩
    have hmember := h.member_eq suffix
    rw [List.getLast?_eq_some_getLast (List.ne_nil_of_mem hfits)] at hmember
    refine ⟨_, mem_members_iff.mpr (.inr ⟨suffix, hmember⟩), ?_, ?_⟩
    · exact PvName.stem_of_split? (h.split?_member suffix hmember)
    · exact Database.knows_of_mem_familyNames h.main_mem
        (List.mem_of_mem_filter (List.getLast_mem _))

end IsFamily

end Group

namespace Naming.FollowsStem

variable {p : String → Bool}

theorem apply_stem (hp : FollowsStem p) (name : String) : p (PvName.stem name) = p name := by
  cases h : PvName.split? name with
  | none => rw [PvName.stem_of_split?_none h]
  | some pair => rw [PvName.stem_of_split? h, hp h]

theorem apply_member (hp : FollowsStem p) (h : g.IsFamily db) (hname : name ∈ g.members) :
    p name = p g.stem := by
  rcases h.eq_stem_or_split? hname with rfl | ⟨suffix, hsplit⟩
  · rfl
  · exact hp hsplit

/-- A record name that breaks the rule has a member of its family that breaks it. -/
theorem exists_member_of (hp : FollowsStem p) (hr : r ∈ db.records) (h : p r.name = true) :
    ∃ g ∈ db.groups, ∃ name ∈ g.members, p name = true ∧
      PvName.stem name = PvName.stem r.name ∧ db.knows name = true := by
  obtain ⟨g, hg, hstem⟩ := exists_group_of_mem hr
  have hfamily : g.IsFamily db := isFamily_of_mem_groups hg
  obtain ⟨name, hname, hown, hknown⟩ := hfamily.exists_member
  refine ⟨g, hg, name, hname, ?_, hown.trans hstem, hknown⟩
  rw [hp.apply_member hfamily hname, hstem, hp.apply_stem, h]

theorem exists_member_iff (hp : FollowsStem p) (db : Database) :
    (∃ g ∈ db.groups, ∃ name ∈ g.members, p name = true) ↔ ∃ r ∈ db.records, p r.name = true := by
  constructor
  · rintro ⟨g, hg, name, hname, h⟩
    have hfamily : g.IsFamily db := isFamily_of_mem_groups hg
    obtain ⟨r, hr, hmain⟩ := hfamily.main_mem
    refine ⟨r, hr, ?_⟩
    rw [← hp.apply_stem, hmain, hfamily.main_stem, ← hp.apply_member hfamily hname, h]
  · rintro ⟨r, hr, h⟩
    obtain ⟨g, hg, name, hname, hbad, -⟩ := hp.exists_member_of hr h
    exact ⟨g, hg, name, hname, hbad⟩

end Naming.FollowsStem

/-! ## Findings -/

namespace Naming

variable {f : NamingFinding}

theorem category_of_mem_colonFindings (h : f ∈ colonFindings db) : f.category = .format := by
  rw [colonFindings] at h
  split at h
  · simp at h
  · obtain ⟨r, -, hr⟩ := List.mem_filterMap.mp h
    split at hr
    · cases hr
      rfl
    · cases hr
      rfl
    · simp at hr

theorem eq_of_mem_ite {c : Prop} [Decidable c] {x : NamingFinding}
    (h : f ∈ if c then [] else [x]) : f = x := by
  split_ifs at h
  · cases h
  · exact List.mem_singleton.mp h

/-- The rules for families find neither small letters nor illegal characters. -/
theorem category_of_mem_familyFindings {records : List Record} (h : f ∈ familyFindings records g) :
    f.category ≠ .casing ∧ f.category ≠ .character := by
  rw [familyFindings] at h
  split at h
  · rw [setpointFindings] at h
    split at h
    · obtain rfl := List.mem_singleton.mp h
      simp [NamingFinding.category]
    · obtain rfl := eq_of_mem_ite h
      simp [NamingFinding.category]
  · obtain rfl := List.mem_singleton.mp h
    simp [NamingFinding.category]
  · rw [readbackFindings] at h
    split at h
    · cases h
    · obtain rfl := List.mem_singleton.mp h
      simp [NamingFinding.category]
    · obtain rfl := List.mem_singleton.mp h
      simp [NamingFinding.category]
    · rcases List.mem_append.mp h with h | h
      · obtain rfl := eq_of_mem_ite h
        simp [NamingFinding.category]
      · obtain rfl := eq_of_mem_ite h
        simp [NamingFinding.category]

theorem mem_namingFindings_iff :
    f ∈ db.namingFindings ↔ f ∈ colonFindings db ∨ ∃ g ∈ db.groups,
      f ∈ casingFindings g ∨ f ∈ characterFindings g ∨ f ∈ familyFindings db.byName g := by
  simp only [Database.namingFindings, groupFindings, List.mem_append, List.mem_flatMap, or_assoc]

/-- The findings of a category are about the members that break a rule, and `make` words them. -/
structure Finds (db : Database) (c : Category) (p : String → Bool)
    (make : String → NamingFinding) : Prop where
  category : ∀ name, (make name).category = c
  mem_iff : ∀ f : NamingFinding, f.category = c → (f ∈ db.namingFindings ↔
    ∃ g ∈ db.groups, ∃ name ∈ g.members, p name = true ∧ make name = f)

theorem mem_casingFindings_iff :
    f ∈ casingFindings g ↔ ∃ name ∈ g.members, hasSmallLetter name = true ∧
      .smallLetter name = f := by
  simp only [casingFindings, List.mem_map, List.mem_filter, and_assoc]

theorem mem_characterFindings_iff :
    f ∈ characterFindings g ↔ ∃ name ∈ g.members, hasIllegalCharacter name = true ∧
      .illegalCharacter (PvName.localPart name) = f := by
  simp only [characterFindings, List.mem_map, List.mem_filter, and_assoc]

theorem finds_casing (db : Database) : Finds db .casing hasSmallLetter .smallLetter where
  category _ := rfl
  mem_iff f hf := by
    simp only [mem_namingFindings_iff, ← mem_casingFindings_iff]
    constructor
    · rintro (hcolon | ⟨g, hg, hcasing | hcharacter | hfamily⟩)
      · simp [category_of_mem_colonFindings hcolon] at hf
      · exact ⟨g, hg, hcasing⟩
      · obtain ⟨name, -, -, rfl⟩ := mem_characterFindings_iff.mp hcharacter
        cases hf
      · exact absurd hf (category_of_mem_familyFindings hfamily).1
    · rintro ⟨g, hg, hcasing⟩
      exact .inr ⟨g, hg, .inl hcasing⟩

theorem finds_character (db : Database) : Finds db .character hasIllegalCharacter
    fun name => .illegalCharacter (PvName.localPart name) where
  category _ := rfl
  mem_iff f hf := by
    simp only [mem_namingFindings_iff, ← mem_characterFindings_iff]
    constructor
    · rintro (hcolon | ⟨g, hg, hcasing | hcharacter | hfamily⟩)
      · simp [category_of_mem_colonFindings hcolon] at hf
      · obtain ⟨name, -, -, rfl⟩ := mem_casingFindings_iff.mp hcasing
        cases hf
      · exact ⟨g, hg, hcharacter⟩
      · exact absurd hf (category_of_mem_familyFindings hfamily).2
    · rintro ⟨g, hg, hcharacter⟩
      exact .inr ⟨g, hg, .inr (.inl hcharacter)⟩

end Naming

/-! ## Reports -/

/-- The messages of a severity are those of the findings of that severity, in their order. -/
theorem report_messages (findings : List NamingFinding) (strict : Bool) (report : Report)
    (severity : Severity) :
    (findings.foldl (fun r f => r.push (f.category.severity strict) f.message) report).messages
        severity =
      report.messages severity ++
        (findings.filter (·.category.severity strict = severity)).map (·.message) := by
  induction findings generalizing report with
  | nil => simp
  | cons f findings ih =>
    have hpush : (report.push (f.category.severity strict) f.message).messages severity =
        report.messages severity ++
          if f.category.severity strict = severity then [f.message] else [] := by
      cases f.category.severity strict <;> cases severity <;> simp [Report.push, Report.messages]
    rw [List.foldl_cons, ih, hpush]
    by_cases h : f.category.severity strict = severity
    · simp [h]
    · simp [h]

theorem mem_namingReport_iff {strict : Bool} {severity : Severity} {message : String} :
    message ∈ (db.namingReport strict).messages severity ↔
      ∃ f ∈ db.namingFindings, f.category.severity strict = severity ∧ f.message = message := by
  rw [Database.namingReport, report_messages]
  cases severity <;> simp [Report.messages, Report.empty, and_assoc]

theorem title_prefix_inj (c d : Category)
    (h : (c.title ++ ": ").toList <+: (d.title ++ ": ").toList) : c = d := by
  revert h
  cases c <;> cases d <;> decide +kernel

/-- A message starts with the title of its category, and with no other one. -/
theorem prefix_message_iff {f : NamingFinding} {c : Category} :
    (c.title ++ ": ").toList <+: f.message.toList ↔ f.category = c := by
  have hmessage : f.message.toList = (f.category.title ++ ": ").toList ++ f.detail.toList :=
    String.toList_append
  have hown : (f.category.title ++ ": ").toList <+: f.message.toList :=
    hmessage ▸ List.prefix_append _ _
  constructor
  · intro h
    rcases List.prefix_or_prefix_of_prefix h hown with hle | hle
    · exact (title_prefix_inj c f.category hle).symm
    · exact title_prefix_inj f.category c hle
  · rintro rfl
    exact hown

theorem exists_titled_message_iff (db : Database) (strict : Bool) (c : Category) :
    (∃ m ∈ (db.namingReport strict).messages (c.severity strict),
      (c.title ++ ": ").toList <+: m.toList) ↔ ∃ f ∈ db.namingFindings, f.category = c := by
  constructor
  · rintro ⟨m, hm, hprefix⟩
    obtain ⟨f, hf, -, rfl⟩ := mem_namingReport_iff.mp hm
    exact ⟨f, hf, prefix_message_iff.mp hprefix⟩
  · rintro ⟨f, hf, rfl⟩
    exact ⟨f.message, mem_namingReport_iff.mpr ⟨f, hf, rfl, rfl⟩, prefix_message_iff.mpr rfl⟩

/-! ## Small letters and illegal characters -/

namespace Naming

variable {c : Category} {p : String → Bool} {make : String → NamingFinding}

/-- A rule that follows stems is reported if and only if some record name breaks it. -/
theorem Finds.exists_message_iff (h : Finds db c p make) (hp : FollowsStem p) (strict : Bool) :
    (∃ m ∈ (db.namingReport strict).messages (c.severity strict),
      (c.title ++ ": ").toList <+: m.toList) ↔ ∃ r ∈ db.records, p r.name = true := by
  rw [exists_titled_message_iff, ← hp.exists_member_iff]
  constructor
  · rintro ⟨f, hf, hcategory⟩
    obtain ⟨g, hg, name, hname, hbad, -⟩ := (h.mem_iff f hcategory).mp hf
    exact ⟨g, hg, name, hname, hbad⟩
  · rintro ⟨g, hg, name, hname, hbad⟩
    have hcategory := h.category name
    exact ⟨make name, (h.mem_iff _ hcategory).mpr ⟨g, hg, name, hname, hbad, rfl⟩, hcategory⟩

/-- For every record name that breaks the rule, a name of its family is reported. -/
theorem Finds.exists_message_of (h : Finds db c p make) (hp : FollowsStem p) (strict : Bool)
    (hr : r ∈ db.records) (hbad : p r.name = true) :
    ∃ name, db.knows name = true ∧ PvName.stem name = PvName.stem r.name ∧
      (make name).message ∈ (db.namingReport strict).messages (c.severity strict) := by
  obtain ⟨g, hg, name, hname, hmember, hstem, hknown⟩ := hp.exists_member_of hr hbad
  have hcategory := h.category name
  have hfinding := (h.mem_iff _ hcategory).mpr ⟨g, hg, name, hname, hmember, rfl⟩
  refine ⟨name, hknown, hstem, mem_namingReport_iff.mpr ⟨make name, hfinding, ?_, rfl⟩⟩
  rw [hcategory]

theorem hasSmallLetter_iff :
    hasSmallLetter name = true ↔ ∃ c ∈ name.toList, Text.isLowercase c = true :=
  List.any_eq_true

theorem hasIllegalCharacter_iff :
    hasIllegalCharacter name = true ↔
      ∃ c ∈ (PvName.localPart name).toList, ¬(c.isAlphanum = true ∨ c = '_' ∨ c = ':') := by
  rw [hasIllegalCharacter, List.any_eq_true]
  simp [isLegal, and_assoc]

/-- Small letters are reported if and only if a record name has one, and illegal characters if and
only if a record name has one after its macros.  For each such record the report names a variable of
its family, whether or not the name of the record is still in its group. -/
theorem casing_and_character_reported (db : Database) :
    ((∃ m ∈ (db.namingReport false).warnings, "CASING ERROR: ".toList <+: m.toList) ↔
      ∃ r ∈ db.records, ∃ c ∈ r.name.toList, Text.isLowercase c = true) ∧
    ((∃ m ∈ (db.namingReport false).errors, "CHARACTER ERROR: ".toList <+: m.toList) ↔
      ∃ r ∈ db.records, ∃ c ∈ (PvName.localPart r.name).toList,
        ¬(c.isAlphanum = true ∨ c = '_' ∨ c = ':')) ∧
    ∀ r ∈ db.records,
      ((∃ c ∈ r.name.toList, Text.isLowercase c = true) →
        ∃ name, db.knows name = true ∧ PvName.stem name = PvName.stem r.name ∧
          "CASING ERROR: " ++ (name ++ " should be upper-case") ∈
            (db.namingReport false).warnings) ∧
      ((∃ c ∈ (PvName.localPart r.name).toList, ¬(c.isAlphanum = true ∨ c = '_' ∨ c = ':')) →
        ∃ name, db.knows name = true ∧ PvName.stem name = PvName.stem r.name ∧
          "CHARACTER ERROR: " ++ (PvName.localPart name ++ " contains illegal characters") ∈
            (db.namingReport false).errors) := by
  have hcasing : "CASING ERROR: " = Category.casing.title ++ ": " := by decide +kernel
  have hcharacter : "CHARACTER ERROR: " = Category.character.title ++ ": " := by decide +kernel
  simp only [← hasSmallLetter_iff, ← hasIllegalCharacter_iff, hcasing, hcharacter]
  refine ⟨(finds_casing db).exists_message_iff hasSmallLetter_of_split? false,
    (finds_character db).exists_message_iff hasIllegalCharacter_of_split? false, ?_⟩
  intro r hr
  exact ⟨(finds_casing db).exists_message_of hasSmallLetter_of_split? false hr,
    (finds_character db).exists_message_of hasIllegalCharacter_of_split? false hr⟩

/-- The theorem at a name that its alias has replaced in the group. -/
theorem replaced_name_reported :
    let r : Record := ⟨"ao", "$(P)x-:SP", [], [], ["$(P)x-_SP"]⟩
    let db : Database := ⟨"", [r]⟩
    (r ∈ db.records ∧ ∀ g ∈ db.groups, r.name ∉ g.members) ∧
    ((∃ c ∈ r.name.toList, Text.isLowercase c = true) ∧
      ∃ name, db.knows name = true ∧ PvName.stem name = PvName.stem r.name ∧
        "CASING ERROR: " ++ (name ++ " should be upper-case") ∈ (db.namingReport false).warnings) ∧
    (∃ c ∈ (PvName.localPart r.name).toList, ¬(c.isAlphanum = true ∨ c = '_' ∨ c = ':')) ∧
      ∃ name, db.knows name = true ∧ PvName.stem name = PvName.stem r.name ∧
        "CHARACTER ERROR: " ++ (PvName.localPart name ++ " contains illegal characters") ∈
          (db.namingReport false).errors := by
  intro r db
  have hr : r ∈ db.records := List.mem_cons_self
  have hsmall : ∃ c ∈ r.name.toList, Text.isLowercase c = true :=
    ⟨'x', by decide +kernel, by decide +kernel⟩
  have hillegal : ∃ c ∈ (PvName.localPart r.name).toList,
      ¬(c.isAlphanum = true ∨ c = '_' ∨ c = ':') :=
    ⟨'-', by decide +kernel, by decide +kernel⟩
  obtain ⟨-, -, hreported⟩ := casing_and_character_reported db
  exact ⟨⟨hr, by decide +kernel⟩, ⟨hsmall, (hreported r hr).1 hsmall⟩, hillegal,
    (hreported r hr).2 hillegal⟩

end Naming

end EpicsDb
