import EpicsDb.Config.File
import EpicsDb.Proofs.TomlTexts
import Mathlib.Data.List.Nodup

/-!
# Configurations in both formats

A configuration does not depend on the format in which its settings are kept, on their order, or on
settings that are not known.

* `Assignment` says which settings are given, and `Assignment.config` which configuration that
  makes.  `Assignment.WrittenInJson` and `Assignment.WrittenInToml` describe the texts.
* `Assignment.Settings` describes a table of settings in either format, and `Settings.read` reads it
  through a `View`.
* `Assignment.ofJson?_eq` and `Assignment.ofToml?_eq` go from texts to such tables.
-/

namespace EpicsDb

open Text (Spaced)

/-! ## Settings of a table -/

namespace View

variable {α β : Type} {entries : List (String × α)} {key : String} {v : α}

theorem filter_key_of_mem (hnodup : (entries.map (·.1)).Nodup) (hmem : (key, v) ∈ entries) :
    entries.filter (·.1 == key) = [(key, v)] := by
  have hlength : (entries.filter (·.1 == key)).length = 1 := by
    have hcount := List.count_eq_one_of_mem hnodup (List.mem_map_of_mem hmem)
    rwa [List.count, List.countP_map, List.countP_eq_length_filter] at hcount
  obtain ⟨e, he⟩ := List.length_eq_one_iff.mp hlength
  have hone : (key, v) ∈ entries.filter (·.1 == key) := by simp [hmem]
  rw [he, List.mem_singleton] at hone
  rw [he, hone]

theorem setting_of_mem (hnodup : (entries.map (·.1)).Nodup) (hmem : (key, v) ∈ entries)
    (read : α → Option β) (default : β) : setting entries key read default = read v := by
  rw [setting, filter_key_of_mem hnodup hmem]

theorem setting_of_notMem (h : key ∉ entries.map (·.1)) (read : α → Option β) (default : β) :
    setting entries key read default = some default := by
  have hnone : entries.filter (·.1 == key) = [] := by
    rw [List.filter_eq_nil_iff]
    intro e he hkey
    exact h (List.mem_map.mpr ⟨e, he, by simpa using hkey⟩)
  rw [setting, hnone]

end View

/-! ## Assignments -/

/-- The settings that are given. -/
structure Assignment where
  strict : Option Bool
  names : Option Bool
  contents : Option Bool
  level : Option String
  /-- The level can be written in quotes as it is. -/
  level_plain : ∀ s ∈ level, ∀ c ∈ s.toList, Toml.IsPlain c

namespace Assignment

variable {α : Type} {a : Assignment} {flags : List (String × Bool)} {levels : List (Option String)}

/-- The truth values that are given, with their keys. -/
def given (a : Assignment) : List (String × Bool) :=
  a.strict.toList.map ("strict", ·) ++ a.names.toList.map ("syntax", ·) ++
    a.contents.toList.map ("pv", ·)

/-- The default configuration, with what is given in place of the defaults. -/
def config (a : Assignment) : Config where
  strict := a.strict.getD Config.default.strict
  names := a.names.getD Config.default.names
  contents := a.contents.getD Config.default.contents
  logging := ⟨a.level.getD Config.default.logging.level⟩

/-- The keys of all settings. -/
def knownKeys : List String :=
  ["strict", "syntax", "pv", "logging"]

/-- The list holds the truth values that are given, in any order and with others among them whose
keys are not known. -/
def Flags (a : Assignment) (flags : List (String × Bool)) : Prop :=
  ∃ extras, flags.Perm (a.given ++ extras) ∧ (extras.map (·.1)).Nodup ∧
    ∀ p ∈ extras, p.1 ∉ knownKeys

/-- There is one table with the level.  If no level is given the table may be missing. -/
def Levels (a : Assignment) (levels : List (Option String)) : Prop :=
  levels = [a.level] ∨ a.level = none ∧ levels = []

/-- The table has these settings, in any order.  What its values are depends on the format. -/
def Settings (a : Assignment) (flag : Bool → α) (table : Option String → α)
    (entries : List (String × α)) : Prop :=
  ∃ flags levels, a.Flags flags ∧ a.Levels levels ∧
    entries.Perm (flags.map (fun p => (p.1, flag p.2)) ++
      levels.map (fun level => ("logging", table level)))

/-- The JSON object with the level. -/
def jsonTable (level : Option String) : Json :=
  .ofMembers (level.toList.map fun s => ("level", .string s.toList))

/-- The lines of the table with the level. -/
def TomlTable (level : Option String) (statements : List (List (List Char))) : Prop :=
  ∃ header texts, Toml.OpensTable "logging" header ∧
    List.Forall₂ Toml.SetsText (level.toList.map ("level", ·)) texts ∧
    statements = header :: texts

/-- The text is a JSON object with these settings, in any order. -/
def WrittenInJson (a : Assignment) (text : String) : Prop :=
  ∃ members, a.Settings .bool jsonTable members ∧ (Json.ofMembers members).Writes text

/-- The text is a TOML document with these settings, in any order but with the table last. -/
def WrittenInToml (a : Assignment) (text : String) : Prop :=
  ∃ flags levels statements tables, a.Flags flags ∧ a.Levels levels ∧
    List.Forall₂ Toml.SetsFlag flags statements ∧ List.Forall₂ TomlTable levels tables ∧
    Toml.Lines (statements ++ tables.flatten) text.toList

/-! ## Reading the settings -/

theorem given_keys_sublist (a : Assignment) :
    (a.given.map (·.1)).Sublist ["strict", "syntax", "pv"] := by
  obtain ⟨strict, names, contents, level, -⟩ := a
  cases strict <;> cases names <;> cases contents <;>
    simp only [given, Option.toList, List.map_cons, List.map_nil, List.append_nil,
      List.nil_append, List.cons_append] <;> decide

namespace Flags

theorem nodup_keys (h : a.Flags flags) : (flags.map (·.1)).Nodup := by
  obtain ⟨extras, hperm, hnodup, hunknown⟩ := h
  rw [(hperm.map _).nodup_iff, List.map_append, List.nodup_append']
  refine ⟨a.given_keys_sublist.nodup (by decide), hnodup, ?_⟩
  intro key hgiven hextra
  obtain ⟨p, hp, rfl⟩ := List.mem_map.mp hextra
  have hknown : p.1 ∈ ["strict", "syntax", "pv"] := a.given_keys_sublist.subset hgiven
  exact hunknown p hp (List.mem_append_left ["logging"] hknown)

theorem logging_notMem (h : a.Flags flags) : "logging" ∉ flags.map (·.1) := by
  obtain ⟨extras, hperm, -, hunknown⟩ := h
  rw [(hperm.map _).mem_iff, List.map_append, List.mem_append]
  rintro (hgiven | hextra)
  · exact absurd (a.given_keys_sublist.subset hgiven) (by decide)
  · obtain ⟨p, hp, hkey⟩ := List.mem_map.mp hextra
    exact hunknown p hp (by rw [hkey]; decide)

/-- Under a known key stands what is given for it. -/
theorem mem_iff {key : String} (h : a.Flags flags) (hkey : key ∈ knownKeys) (b : Bool) :
    (key, b) ∈ flags ↔ (key, b) ∈ a.given := by
  obtain ⟨extras, hperm, -, hunknown⟩ := h
  rw [hperm.mem_iff, List.mem_append, or_iff_left]
  exact fun hextra => hunknown _ hextra hkey

end Flags

section Read

variable {view : View α} {flag : Bool → α} {table : Option String → α}
  {entries : List (String × α)}

namespace Settings

/-- The keys are distinct. -/
theorem nodup_keys (h : a.Settings flag table entries) : (entries.map (·.1)).Nodup := by
  obtain ⟨flags, levels, hflags, hlevels, hperm⟩ := h
  have hkeys : (flags.map (·.1)).Nodup := hflags.nodup_keys
  rw [(hperm.map _).nodup_iff, List.map_append, List.map_map, List.map_map]
  rcases hlevels with rfl | ⟨-, rfl⟩
  · refine List.nodup_append'.mpr ⟨hkeys, List.nodup_singleton _, ?_⟩
    exact List.disjoint_singleton.mpr hflags.logging_notMem
  · rw [List.map_nil, List.append_nil]
    exact hkeys

/-- A truth value is read as it is given, and is the default otherwise. -/
theorem setting_flag {key : String} {o : Option Bool} (h : a.Settings flag table entries)
    (hread : ∀ b, view.flag? (flag b) = some b) (hkey : key ∈ ["strict", "syntax", "pv"])
    (hgiven : ∀ b, (key, b) ∈ a.given ↔ o = some b) (default : Bool) :
    View.setting entries key view.flag? default = some (o.getD default) := by
  have hnodup := h.nodup_keys
  obtain ⟨flags, levels, hflags, -, hperm⟩ := h
  have hmem : ∀ b, (key, b) ∈ flags ↔ o = some b := by
    intro b
    rw [hflags.mem_iff (List.mem_append_left ["logging"] hkey), hgiven]
  cases o with
  | none =>
    refine View.setting_of_notMem ?_ _ _
    rw [(hperm.map _).mem_iff, List.map_append, List.mem_append, List.map_map, List.map_map]
    rintro (hflag | htable)
    · obtain ⟨p, hp, rfl⟩ := List.mem_map.mp hflag
      exact absurd ((hmem p.2).mp hp) (by simp)
    · obtain ⟨level, -, rfl⟩ := List.mem_map.mp htable
      have hother : "logging" ∉ ["strict", "syntax", "pv"] := by decide
      exact hother hkey
  | some b =>
    have hentry : (key, flag b) ∈ entries := by
      rw [hperm.mem_iff, List.mem_append]
      exact .inl (List.mem_map.mpr ⟨(key, b), (hmem b).mpr rfl, rfl⟩)
    rw [View.setting_of_mem hnodup hentry, hread, Option.getD_some]

theorem setting_logging (h : a.Settings flag table entries)
    (hread : Logging.read view (table a.level) = some a.config.logging) :
    View.setting entries "logging" (Logging.read view) Config.default.logging =
      some a.config.logging := by
  have hnodup := h.nodup_keys
  obtain ⟨flags, levels, hflags, hlevels, hperm⟩ := h
  rcases hlevels with rfl | ⟨hnone, rfl⟩
  · have hentry : ("logging", table a.level) ∈ entries := by
      rw [hperm.mem_iff]
      simp
    rw [View.setting_of_mem hnodup hentry, hread]
  · have hmissing : "logging" ∉ entries.map (·.1) := by
      rw [(hperm.map _).mem_iff, List.map_nil, List.append_nil, List.map_map]
      exact hflags.logging_notMem
    rw [View.setting_of_notMem hmissing, config, hnone]
    rfl

/-- A table with these settings is read as the configuration that they make. -/
theorem read {value : α} (h : a.Settings flag table entries)
    (hvalue : view.table? value = some entries) (hflag : ∀ b, view.flag? (flag b) = some b)
    (htable : Logging.read view (table a.level) = some a.config.logging) :
    Config.read view value = some a.config := by
  have hstrict : View.setting entries "strict" view.flag? Config.default.strict =
      some a.config.strict := h.setting_flag hflag (by decide) (by simp [given]) _
  have hnames : View.setting entries "syntax" view.flag? Config.default.names =
      some a.config.names := h.setting_flag hflag (by decide) (by simp [given]) _
  have hcontents : View.setting entries "pv" view.flag? Config.default.contents =
      some a.config.contents := h.setting_flag hflag (by decide) (by simp [given]) _
  simp [Config.read, hvalue, hstrict, hnames, hcontents, h.setting_logging htable]

end Settings

theorem read_logging {value : α} {level : Option String} {text : String → α}
    (hvalue : view.table? value = some (level.toList.map fun s => ("level", text s)))
    (htext : ∀ s ∈ level, view.text? (text s) = some s) :
    Logging.read view value = some ⟨level.getD Logging.default.level⟩ := by
  cases level with
  | none => simp [Logging.read, hvalue, View.setting]
  | some s => simp [Logging.read, hvalue, View.setting, htext s rfl]

end Read

/-! ## JSON -/

theorem view_table?_ofMembers (members : List (String × Json)) :
    Json.view.table? (.ofMembers members) = some members := by
  show (members.map _).mapM _ = _
  induction members with
  | nil => rfl
  | cons m ms ih =>
    rw [List.map_cons, List.mapM_cons, ih]
    simp [Json.unescape?_escape, String.ofList_toList]

theorem escape_level {s : String} (hs : s ∈ a.level) : Json.escape s.toList = s.toList :=
  Json.escape_of_isPlain fun c hc => (a.level_plain s hs c hc).1

theorem plain_jsonTable (a : Assignment) : Json.Plain (jsonTable a.level) := by
  refine Json.plain_ofMembers ?_
  intro m hm
  obtain ⟨s, hs, rfl⟩ := List.mem_map.mp hm
  have hstring := Json.plain_ofText s
  rwa [Json.ofText, escape_level (Option.mem_toList.mp hs)] at hstring

theorem plain_ofSettings {members : List (String × Json)}
    (h : a.Settings .bool jsonTable members) : Json.Plain (.ofMembers members) := by
  obtain ⟨flags, levels, -, hlevels, hperm⟩ := h
  refine Json.plain_ofMembers ?_
  intro m hm
  rcases List.mem_append.mp (hperm.mem_iff.mp hm) with hflag | htable
  · obtain ⟨p, -, rfl⟩ := List.mem_map.mp hflag
    exact .bool p.2
  · obtain ⟨level, hlevel, rfl⟩ := List.mem_map.mp htable
    rcases hlevels with rfl | ⟨-, rfl⟩
    · obtain rfl := List.mem_singleton.mp hlevel
      exact a.plain_jsonTable
    · exact absurd hlevel List.not_mem_nil

theorem ofJson?_eq {text : String} (h : a.WrittenInJson text) :
    Config.ofJson? text = some a.config := by
  obtain ⟨members, hsettings, htext⟩ := h
  have hparse : Json.parse text = some (.ofMembers members) :=
    Json.parse_of_writes (plain_ofSettings hsettings) htext
  have hlogging : Logging.read Json.view (jsonTable a.level) = some a.config.logging := by
    refine read_logging (view_table?_ofMembers _) ?_
    intro s hs
    have hread := Json.unescape?_escape s.toList
    rw [escape_level hs] at hread
    simp [Json.view, hread, String.ofList_toList]
  rw [Config.ofJson?, hparse]
  exact hsettings.read (view_table?_ofMembers members) (fun _ => rfl) hlogging

/-! ## TOML -/

/-- The TOML table with the level. -/
def tomlTable (level : Option String) : Toml :=
  .table .header (level.toList.map fun s => ("level", .string s))

theorem runs_tomlTable {entries : Toml.Entries} {statements : List (List (List Char))}
    (h : TomlTable a.level statements) (hnew : "logging" ∉ entries.map (·.1)) :
    Toml.Runs ⟨entries, []⟩ statements
      ⟨entries ++ [("logging", tomlTable a.level)], ["logging"]⟩ := by
  obtain ⟨header, texts, ⟨w, hw, rfl⟩, htexts, rfl⟩ := h
  refine .cons (Toml.acts_header hw (Toml.openTable_of_notMem hnew)) ?_
  cases hlevel : a.level with
  | none =>
    rw [hlevel] at htexts
    cases htexts
    exact .nil _
  | some s =>
    rw [hlevel] at htexts
    cases htexts with
    | cons htext hnone =>
      cases hnone
      obtain ⟨w, hw, rfl⟩ := htext
      have hdefine : Toml.define "level" (.string s) [] [] = some [("level", .string s)] := rfl
      exact .cons (Toml.acts_text hw (a.level_plain s hlevel) (Toml.update_last hnew hdefine))
        (.nil _)

theorem exists_runs_tables {entries : Toml.Entries} {tables : List (List (List (List Char)))}
    (hlevels : a.Levels levels) (h : List.Forall₂ TomlTable levels tables)
    (hnew : "logging" ∉ entries.map (·.1)) :
    ∃ path, Toml.Runs ⟨entries, []⟩ tables.flatten
      ⟨entries ++ levels.map fun level => ("logging", tomlTable level), path⟩ := by
  rcases hlevels with rfl | ⟨-, rfl⟩
  · cases h with
    | @cons _ statements _ _ htable hnone =>
      cases hnone
      rw [List.flatten_singleton]
      exact ⟨["logging"], runs_tomlTable htable hnew⟩
  · cases h
    rw [List.map_nil, List.append_nil]
    exact ⟨[], .nil _⟩

theorem ofToml?_eq {text : String} (h : a.WrittenInToml text) :
    Config.ofToml? text = some a.config := by
  obtain ⟨flags, levels, statements, tables, hflags, hlevels, hstatements, htables, htext⟩ := h
  have hruns : Toml.Runs ⟨[], []⟩ statements ⟨flags.map fun p => (p.1, .bool p.2), []⟩ :=
    Toml.runs_flags hstatements hflags.nodup_keys
  have hnew : "logging" ∉ (flags.map fun p => (p.1, Toml.bool p.2)).map (·.1) := by
    rw [List.map_map]
    exact hflags.logging_notMem
  obtain ⟨path, htables⟩ := exists_runs_tables hlevels htables hnew
  have hparse := Toml.parse_of_runs htext (hruns.append htables)
  have hsettings : a.Settings .bool tomlTable _ := ⟨flags, levels, hflags, hlevels, .refl _⟩
  have hlogging : Logging.read Toml.view (tomlTable a.level) = some a.config.logging :=
    read_logging rfl fun _ _ => rfl
  rw [Config.ofToml?, hparse]
  show Config.read Toml.view (.table .header _) = _
  exact hsettings.read rfl (fun _ => rfl) hlogging

end Assignment

/-! ## Both formats -/

/-- Settings make the same configuration in both formats, whatever their order is, and however many
others there are that are not known: the default configuration apart from what is given. -/
theorem config_formats_agree (a : Assignment) {json toml : String} (hjson : a.WrittenInJson json)
    (htoml : a.WrittenInToml toml) :
    Config.fromJson json = .ok a.config ∧ Config.fromToml toml = .ok a.config := by
  rw [Config.fromJson, Config.fromToml, Assignment.ofJson?_eq hjson, Assignment.ofToml?_eq htoml]
  exact ⟨rfl, rfl⟩

/-- The theorem at settings that stand in another order in each text, with a key that nothing knows
and a level that is not plain ASCII. -/
theorem config_formats_agree_mixed_order :
    ∃ a : Assignment, a.config = ⟨true, true, true, ⟨"débug"⟩⟩ ∧
      Config.fromJson ("\x7b\n  \"logging\": \x7b\n    \"level\": \"débug\"\n  \x7d,\n" ++
        "  \"note\": false,\n  \"strict\": true\n\x7d") = .ok a.config ∧
      Config.fromToml "note= false\n\tstrict=true # on\r\n[ logging]\nlevel=\"débug\"" =
        .ok a.config := by
  let a : Assignment := ⟨some true, none, none, some "débug", by
    have hplain : "débug".toList.all (fun c => Toml.IsPlain c) = true := by decide
    simpa using hplain⟩
  have hflags : a.Flags [("note", false), ("strict", true)] :=
    ⟨[("note", false)], by decide, by decide, by decide⟩
  refine ⟨a, rfl, config_formats_agree a ?_ ?_⟩
  · have hsettings : a.Settings .bool Assignment.jsonTable
        [("logging", Assignment.jsonTable a.level), ("note", .bool false),
          ("strict", .bool true)] :=
      ⟨_, _, hflags, .inl rfl, @List.perm_append_comm _ [_] [_, _]⟩
    exact ⟨_, hsettings, (Assignment.plain_ofSettings hsettings).writes_pretty⟩
  · have hnone : Toml.IsTail [] := ⟨[], [], rfl, by simp, .inl rfl⟩
    have hcomment : Toml.IsTail " # on".toList :=
      ⟨[' '], "# on".toList, rfl, List.all_eq_true.mp rfl, .inr ⟨_, rfl, List.all_eq_true.mp rfl⟩⟩
    have hnote := @Spaced.of_gaps Toml.isBlank
      [([], "note".toList), ([], ['=']), ([' '], Toml.flagWord false)] (by decide)
    have hstrict := @Spaced.of_gaps Toml.isBlank
      [(['\t'], "strict".toList), ([], ['=']), ([], Toml.flagWord true)] (by decide)
    have hheader := @Spaced.of_gaps Toml.isBlank
      [([], ['[']), ([' '], "logging".toList), ([], [']'])] (by decide)
    have hlevel := @Spaced.of_gaps Toml.isBlank
      [([], "level".toList), ([], ['=']), ([], "\"débug\"".toList)] (by decide)
    have hlast := Toml.Lines.line (by decide) hlevel hnone (.inr (.inr ⟨rfl, rfl⟩)) .done
    have htable := Toml.Lines.line (by decide) hheader hnone (.inl rfl) hlast
    have hsecond := Toml.Lines.line (by decide) hstrict hcomment (.inr (.inl rfl)) htable
    have hall := Toml.Lines.line (by decide) hnote hnone (.inl rfl) hsecond
    refine ⟨_, _, [_, _], [[_, _]], hflags, .inl rfl, ?_, ?_, hall⟩
    · exact .cons ⟨_, .bare (by decide) (List.all_eq_true.mp rfl), rfl⟩
        (.cons ⟨_, .bare (by decide) (List.all_eq_true.mp rfl), rfl⟩ .nil)
    · exact .cons ⟨_, _, ⟨_, .bare (by decide) (List.all_eq_true.mp rfl), rfl⟩,
        .cons ⟨_, .bare (by decide) (List.all_eq_true.mp rfl), rfl⟩ .nil, rfl⟩ .nil

end EpicsDb
