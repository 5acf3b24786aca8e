import ProgramSlice.Proofs.Interchange.Lawful
import ProgramSlice.Proofs.Yaml.Value
import ProgramSlice.Settings.Text

/-!
# Settings documents are overlays

A settings document states its version and, in a section, some of the settings, each on a line of
its own and in any order.  The settings that it leaves out keep their defaults, so what it says is
the defaults with some of them replaced (`BuildSettings.overlay`).

* Such a text is a mapping of words with a section below it, and so it is parsed
  (`settingsText_eq`).
* Each part of the settings is read from the one field with its key, if there is one
  (`exists_fieldOnce?`), and the same setting decides about this part of the overlay.
* What settings are written as is the document that replaces all of them (`toText_eq`), of which the
  defaults have no part left.
-/

namespace ProgramSlice

open Yaml (Entry IsWord Node documentText documentItems mappingNode wordNode)
open Yaml.Lexer (IsKey)

/-! ## Documents -/

/-- One setting with its value. -/
inductive Setting where
  | includeSequencing (on : Bool)
  | includeData (on : Bool)
  | maxNodes (limit : UInt64)
deriving DecidableEq

namespace Setting

def key : Setting → String
  | includeSequencing _ => "include_sequencing"
  | includeData _ => "include_data"
  | maxNodes _ => "max_nodes"

def value : Setting → String
  | includeSequencing on => toString on
  | includeData on => toString on
  | maxNodes limit => toString limit.toNat

/-- The line of a setting in its section. -/
def line (x : Setting) : String := "  " ++ x.key ++ ": " ++ x.value ++ "\n"

end Setting

namespace BuildSettings

/-- Replace one setting. -/
def replace (s : BuildSettings) : Setting → BuildSettings
  | .includeSequencing on => { s with includeSequencing := on }
  | .includeData on => { s with includeData := on }
  | .maxNodes limit => { s with maxNodes := limit }

/-- The defaults with these settings replaced. -/
def overlay (xs : List Setting) : BuildSettings := xs.foldl replace {}

def settings (s : BuildSettings) : List Setting :=
  [.includeSequencing s.includeSequencing, .includeData s.includeData, .maxNodes s.maxNodes]

theorem overlay_settings (s : BuildSettings) : overlay s.settings = s := rfl

end BuildSettings

def versionLine (version : UInt32) : String := "version: " ++ toString version.toNat ++ "\n"

/-- The text of a document that may state a version and has these settings in its section. -/
def settingsText (version : Option UInt32) (xs : List Setting) : String :=
  (version.map versionLine).getD "" ++ "dependency_graph:\n" ++ String.join (xs.map Setting.line)

/-- **What settings are written as** is such a document with all of them. -/
theorem toText_eq (s : BuildSettings) : s.toText = settingsText (some 1) s.settings := by
  have hversion : versionLine 1 = "version: 1\n" := by decide
  have hsequencing : (Setting.includeSequencing s.includeSequencing).line
      = "  include_sequencing: " ++ toString s.includeSequencing ++ "\n" := rfl
  have hdata : (Setting.includeData s.includeData).line
      = "  include_data: " ++ toString s.includeData ++ "\n" := rfl
  have hnodes : (Setting.maxNodes s.maxNodes).line
      = "  max_nodes: " ++ toString s.maxNodes.toNat ++ "\n" := rfl
  rw [← String.toList_inj]
  unfold BuildSettings.toText
  simp only [settingsText, BuildSettings.settings, Option.map_some, Option.getD_some,
    String.toList_append, String.toList_join, List.map_cons, List.map_nil, List.flatMap_cons,
    List.flatMap_nil, hversion, hsequencing, hdata, hnodes, List.append_assoc, List.append_nil]

/-! ## Documents as mappings -/

/-- A setting as an entry of its section. -/
def Setting.entry (x : Setting) : Entry := ⟨x.key.toList, x.value.toList⟩

def versionEntry (version : UInt32) : Entry :=
  ⟨"version".toList, (toString version.toNat).toList⟩

def sectionName : List Char := "dependency_graph".toList

theorem toList_versionLine (version : UInt32) :
    (versionLine version).toList = (versionEntry version).line 0 := by
  have hline : (versionLine version).toList
      = "version: ".toList ++ (toString version.toNat).toList ++ ['\n'] := by
    rw [versionLine, String.toList_append, String.toList_append]
    rfl
  rw [hline, List.append_assoc]
  rfl

theorem Setting.toList_line (x : Setting) : x.line.toList = x.entry.line 2 := by
  simp [Setting.line, Setting.entry, Entry.line, Yaml.spaces]

/-- **A settings document is a mapping** of words with a section. -/
theorem settingsText_eq (version : Option UInt32) (xs : List Setting) :
    settingsText version xs = String.ofList
      (documentText (version.toList.map versionEntry) sectionName (xs.map Setting.entry)) := by
  have hlines : (xs.map Setting.line).flatMap String.toList
      = (xs.map Setting.entry).flatMap (·.line 2) := by
    simp only [List.flatMap_map, Setting.toList_line]
  have hversion : ((version.map versionLine).getD "").toList
      = (version.toList.map versionEntry).flatMap (·.line 0) := by
    cases version with
    | none => rfl
    | some version => simp [toList_versionLine]
  rw [← String.toList_inj, String.toList_ofList, settingsText, documentText, String.toList_append,
    String.toList_append, String.toList_join, hlines, hversion, List.append_assoc]
  rfl

theorem isKey_key (x : Setting) : IsKey x.key.toList := by
  cases x with
  | includeSequencing on => exact (by decide : IsKey "include_sequencing".toList)
  | includeData on => exact (by decide : IsKey "include_data".toList)
  | maxNodes limit => exact (by decide : IsKey "max_nodes".toList)

theorem isWord_value (x : Setting) : IsWord x.value.toList := by
  have hbool : ∀ b : Bool, IsWord (toString b).toList := by decide
  cases x with
  | includeSequencing on => exact hbool on
  | includeData on => exact hbool on
  | maxNodes limit => exact Yaml.isWord_number _

theorem Setting.isPlain_entry (x : Setting) : x.entry.IsPlain := ⟨isKey_key x, isWord_value x⟩

theorem isPlain_versionEntry (version : UInt32) : (versionEntry version).IsPlain :=
  ⟨(by decide : IsKey "version".toList), Yaml.isWord_number _⟩

/-! ## Reading the section -/

section Read

variable {α : Type} {xs : List Setting} {x : Setting} {part : BuildSettings → α} {name : String}

/-- Settings with other keys leave a part of the settings as it is. -/
theorem part_foldl_of_other {s : BuildSettings}
    (hkeep : ∀ y ∈ xs, ∀ s : BuildSettings, part (s.replace y) = part s) :
    part (xs.foldl BuildSettings.replace s) = part s := by
  induction xs generalizing s with
  | nil => rfl
  | cons y ys ih =>
      rw [List.foldl_cons, ih fun z hz => hkeep z (List.mem_cons_of_mem y hz),
        hkeep y List.mem_cons_self]

/-- Where no key is repeated, the one setting of a part decides about it. -/
theorem part_foldl_of_mem {s : BuildSettings} {a : α} (hkeys : (xs.map Setting.key).Nodup)
    (hx : x ∈ xs) (hset : ∀ s : BuildSettings, part (s.replace x) = a)
    (hkeep : ∀ y : Setting, y.key ≠ x.key → ∀ s : BuildSettings, part (s.replace y) = part s) :
    part (xs.foldl BuildSettings.replace s) = a := by
  induction xs generalizing s with
  | nil => cases hx
  | cons y ys ih =>
      rw [List.map_cons, List.nodup_cons] at hkeys
      rw [List.foldl_cons]
      rcases List.mem_cons.mp hx with rfl | hx
      · refine (part_foldl_of_other fun z hz => hkeep z fun heq => hkeys.1 ?_).trans (hset _)
        exact heq ▸ List.mem_map_of_mem hz
      · exact ih hkeys.2 hx

def Setting.node (x : Setting) : Node := wordNode x.value.toList

def settingsFields (xs : List Setting) : List (String × Node) := xs.map fun x => (x.key, x.node)

/-- **Each part of the settings is read** from the field with its key, or is the default. -/
theorem exists_fieldOnce? (hkeys : (xs.map Setting.key).Nodup) {read : Node → Option α}
    (hread : ∀ x : Setting, x.key = name →
      ∀ s : BuildSettings, read x.node = some (part (s.replace x)))
    (hkeep : ∀ x : Setting, x.key ≠ name → ∀ s : BuildSettings, part (s.replace x) = part s) :
    ∃ field, Node.fieldOnce? (settingsFields xs) name = some field ∧
      Node.withDefault? (part {}) read field = some (part (BuildSettings.overlay xs)) := by
  have hnames : (settingsFields xs).map Prod.fst = xs.map Setting.key := by
    simp [settingsFields]
  by_cases hname : name ∈ xs.map Setting.key
  · obtain ⟨x, hx, rfl⟩ := List.mem_map.mp hname
    have hfield : (x.key, x.node) ∈ settingsFields xs := List.mem_map_of_mem hx
    have hfilter := filter_name_of_mem (hnames ▸ hkeys) hfield
    refine ⟨some x.node, by rw [Node.fieldOnce?, hfilter], ?_⟩
    -- what the setting makes of the part does not depend on what it was
    have hset : ∀ s : BuildSettings, part (s.replace x) = part (BuildSettings.replace {} x) :=
      fun s => Option.some.inj ((hread x rfl s).symm.trans (hread x rfl {}))
    have hpart : part (BuildSettings.overlay xs) = part (BuildSettings.replace {} x) :=
      part_foldl_of_mem hkeys hx hset hkeep
    rw [Node.withDefault?, hread x rfl {}, hpart]
  · -- no setting touches the part
    refine ⟨none, ?_, ?_⟩
    · rw [Node.fieldOnce?, filter_name_of_notMem (hnames ▸ hname)]
    · refine congrArg some (part_foldl_of_other fun y hy => hkeep y fun heq => hname ?_).symm
      exact heq ▸ List.mem_map_of_mem hy

section Parts

variable (root : Node) (hkeys : (xs.map Setting.key).Nodup)

include hkeys

theorem exists_includeSequencing :
    ∃ field, Node.fieldOnce? (settingsFields xs) "include_sequencing" = some field ∧
      Node.withDefault? ({} : BuildSettings).includeSequencing root.bool? field
        = some (BuildSettings.overlay xs).includeSequencing := by
  refine exists_fieldOnce? hkeys ?_ ?_
  · rintro (on | on | limit) hkey s
    · exact root.bool?_wordNode on
    · simp [Setting.key] at hkey
    · simp [Setting.key] at hkey
  · rintro (on | on | limit) hkey s
    · exact absurd rfl hkey
    · rfl
    · rfl

theorem exists_includeData :
    ∃ field, Node.fieldOnce? (settingsFields xs) "include_data" = some field ∧
      Node.withDefault? ({} : BuildSettings).includeData root.bool? field
        = some (BuildSettings.overlay xs).includeData := by
  refine exists_fieldOnce? hkeys ?_ ?_
  · rintro (on | on | limit) hkey s
    · simp [Setting.key] at hkey
    · exact root.bool?_wordNode on
    · simp [Setting.key] at hkey
  · rintro (on | on | limit) hkey s
    · rfl
    · exact absurd rfl hkey
    · rfl

theorem exists_maxNodes :
    ∃ field, Node.fieldOnce? (settingsFields xs) "max_nodes" = some field ∧
      Node.withDefault? ({} : BuildSettings).maxNodes
          (fun node => (root.numberBelow? UInt64.size node).map UInt64.ofNat) field
        = some (BuildSettings.overlay xs).maxNodes := by
  refine exists_fieldOnce? hkeys ?_ ?_
  · rintro (on | on | limit) hkey s
    · simp [Setting.key] at hkey
    · simp [Setting.key] at hkey
    · have hread : root.numberBelow? UInt64.size (Setting.maxNodes limit).node = some limit.toNat :=
        root.numberBelow?_wordNode limit.toNat_lt
      rw [hread, Option.map_some, UInt64.ofNat_toNat]
      rfl
  · rintro (on | on | limit) hkey s
    · rfl
    · rfl
    · exact absurd rfl hkey

end Parts

def settingsNode (xs : List Setting) : Node := mappingNode ((xs.map Setting.entry).map Entry.item)

/-- **A section is read as an overlay.** -/
theorem ofNode?_settingsNode (root : Node) (hkeys : (xs.map Setting.key).Nodup) :
    BuildSettings.ofNode? root (settingsNode xs) = some (BuildSettings.overlay xs) := by
  have hfields : root.fields? (settingsNode xs) = some (settingsFields xs) := by
    rw [settingsNode, Node.fields?_mappingNode]
    simp [settingsFields, Setting.entry, Setting.node, Entry.item]
  obtain ⟨sequencing, hsequencing, hreadSequencing⟩ := exists_includeSequencing root hkeys
  obtain ⟨data, hdata, hreadData⟩ := exists_includeData root hkeys
  obtain ⟨nodes, hnodes, hreadNodes⟩ := exists_maxNodes root hkeys
  rw [BuildSettings.ofNode?, hfields]
  simp only [Option.bind_eq_bind, Option.bind_some, hsequencing, hdata, hnodes, hreadSequencing,
    hreadData, hreadNodes]

end Read

/-! ## Reading the document -/

section Document

variable {xs : List Setting} (version : Option UInt32)

def documentFields (version : Option UInt32) (xs : List Setting) : List (String × Node) :=
  (version.toList.map fun v => ("version", wordNode (toString v.toNat).toList))
    ++ [("dependency_graph", settingsNode xs)]

def documentNode (version : Option UInt32) (xs : List Setting) : Node :=
  mappingNode (documentItems (version.toList.map versionEntry) sectionName (xs.map Setting.entry))

theorem fields?_documentNode (root : Node) :
    root.fields? (documentNode version xs) = some (documentFields version xs) := by
  have hsection : String.ofList sectionName = "dependency_graph" := String.ofList_toList
  have hversion : ∀ v, String.ofList (versionEntry v).key = "version" := by
    intro v
    exact String.ofList_toList
  have hitems : (documentItems (version.toList.map versionEntry) sectionName
        (xs.map Setting.entry)).map (fun i => (String.ofList i.key, i.node))
      = documentFields version xs := by
    rw [documentItems, List.map_append, List.map_map, List.map_map]
    simp only [Function.comp_def, Entry.item, hversion, List.map_cons, List.map_nil,
      Yaml.sectionItem, hsection]
    rfl
  rw [← hitems]
  exact root.fields?_mappingNode _

theorem fieldOnce?_version : Node.fieldOnce? (documentFields version xs) "version"
    = some (version.map fun v => wordNode (toString v.toNat).toList) := by
  cases version with
  | none => simp [Node.fieldOnce?, documentFields]
  | some v => simp [Node.fieldOnce?, documentFields]

theorem fieldOnce?_settings : Node.fieldOnce? (documentFields version xs) "dependency_graph"
    = some (some (settingsNode xs)) := by
  cases version with
  | none => simp [Node.fieldOnce?, documentFields]
  | some v => simp [Node.fieldOnce?, documentFields]

theorem any_unknown_documentFields :
    (documentFields version xs).any (·.1 ∉ SettingsDocument.sections) = false := by
  cases version with
  | none => simp [documentFields, SettingsDocument.sections]
  | some v => simp [documentFields, SettingsDocument.sections]

/-- **A document is read** as its version and an overlay. -/
theorem ofNode?_documentNode (hkeys : (xs.map Setting.key).Nodup) :
    SettingsDocument.ofNode? (documentNode version xs)
      = some ⟨version, some (BuildSettings.overlay xs)⟩ := by
  let root := documentNode version xs
  have hversion : Node.optional? root
      (fun node => (root.numberBelow? UInt32.size node).map UInt32.ofNat)
      (version.map fun v => wordNode (toString v.toNat).toList) = some version := by
    cases version with
    | none => rfl
    | some v =>
        rw [Option.map_some, Node.optional?_wordNode, root.numberBelow?_wordNode v.toNat_lt,
          Option.map_some, UInt32.ofNat_toNat]
        rfl
  have hsettings : Node.optional? root (BuildSettings.ofNode? root) (some (settingsNode xs))
      = some (some (BuildSettings.overlay xs)) := by
    have hscalar : root.scalar? (settingsNode xs) = none := rfl
    rw [Node.optional?, hscalar, ofNode?_settingsNode root hkeys]
    rfl
  rw [SettingsDocument.ofNode?, fields?_documentNode]
  simp only [Option.bind_eq_bind, Option.bind_some, any_unknown_documentFields,
    fieldOnce?_version, fieldOnce?_settings, Bool.false_eq_true, if_false]
  rw [hversion, Option.bind_some, hsettings]
  rfl

/-- **The text of a document is read** as its version and an overlay. -/
theorem ofText?_settingsText (hxs : xs ≠ []) (hkeys : (xs.map Setting.key).Nodup) :
    SettingsDocument.ofText? (settingsText version xs)
      = some ⟨version, some (BuildSettings.overlay xs)⟩ := by
  have hparse : Node.parse? (settingsText version xs) = some (some (documentNode version xs)) := by
    rw [settingsText_eq]
    refine Node.parse?_document ?_ (by decide) ?_ (by simpa using hxs)
    · intro e he
      obtain ⟨v, -, rfl⟩ := List.mem_map.mp he
      exact isPlain_versionEntry v
    · intro e he
      obtain ⟨x, -, rfl⟩ := List.mem_map.mp he
      exact x.isPlain_entry
  rw [SettingsDocument.ofText?, hparse]
  exact ofNode?_documentNode version hkeys

end Document

/-! ## Loading -/

/-- A document of the version that is read is accepted if its settings are. -/
theorem load_of_supported {s : BuildSettings} :
    SettingsDocument.load ⟨some 1, some s⟩ = s.check.map fun _ => s := by
  have hsupported : (1 : UInt32) ∈ SettingsDocument.supportedVersions := List.mem_singleton.mpr rfl
  rw [SettingsDocument.load]
  simp only [if_pos hsupported, Option.getD_some]
  cases s.check <;> rfl

/-- A document of another version is refused, whatever its settings are. -/
theorem load_of_unsupported {version : UInt32} (h : version ≠ 1) (settings : Option BuildSettings) :
    SettingsDocument.load ⟨some version, settings⟩ = .error (.unsupportedVersion version [1]) := by
  have hunsupported : version ∉ SettingsDocument.supportedVersions := mt List.mem_singleton.mp h
  rw [SettingsDocument.load]
  simp only [if_neg hunsupported]
  rfl

theorem ofText_settingsText (version : Option UInt32) {xs : List Setting} (hxs : xs ≠ [])
    (hkeys : (xs.map Setting.key).Nodup) :
    BuildSettings.ofText (settingsText version xs)
      = SettingsDocument.load ⟨version, some (BuildSettings.overlay xs)⟩ := by
  rw [BuildSettings.ofText, ofText?_settingsText version hxs hkeys]

theorem ofText_toText (s : BuildSettings) :
    BuildSettings.ofText s.toText = s.check.map fun _ => s := by
  have hkeys : (s.settings.map Setting.key).Nodup := by
    simp [BuildSettings.settings, Setting.key]
  have hsettings : s.settings ≠ [] := List.cons_ne_nil _ _
  rw [toText_eq, ofText_settingsText (some 1) hsettings hkeys,
    BuildSettings.overlay_settings, load_of_supported]

/-- **Reading settings overlays the defaults and undoes writing them.**  A document states some
settings, each once and in any order.  With the version that is read it yields the defaults with
these settings replaced, if they pass the check, and otherwise the error of the check.  Another
version is refused as such, and so is a document without one, whatever the settings are.  In
particular, what is written for settings is such a document with all of them, and they are read back
from it, if they pass the check, and otherwise refused with its error. -/
theorem settings_overlay_defaults {xs : List Setting} (hxs : xs ≠ [])
    (hkeys : (xs.map Setting.key).Nodup) :
    ((BuildSettings.overlay xs).check = .ok () →
      BuildSettings.ofText (settingsText (some 1) xs) = .ok (BuildSettings.overlay xs)) ∧
    (∀ e, (BuildSettings.overlay xs).check = .error e →
      BuildSettings.ofText (settingsText (some 1) xs) = .error e) ∧
    (∀ version, version ≠ 1 →
      BuildSettings.ofText (settingsText (some version) xs)
        = .error (.unsupportedVersion version [1])) ∧
    BuildSettings.ofText (settingsText none xs) = .error .missingVersion ∧
    ∀ s : BuildSettings, s.toText = settingsText (some 1) s.settings ∧
      (s.check = .ok () → BuildSettings.ofText s.toText = .ok s) ∧
      ∀ e, s.check = .error e → BuildSettings.ofText s.toText = .error e := by
  have hsupported : BuildSettings.ofText (settingsText (some 1) xs)
      = (BuildSettings.overlay xs).check.map fun _ => BuildSettings.overlay xs := by
    rw [ofText_settingsText (some 1) hxs hkeys, load_of_supported]
  refine ⟨fun h => ?_, fun e h => ?_, fun version hversion => ?_, ?_,
    fun s => ⟨toText_eq s, fun h => ?_, fun e h => ?_⟩⟩
  · rw [hsupported, h]
    rfl
  · rw [hsupported, h]
    rfl
  · rw [ofText_settingsText (some version) hxs hkeys, load_of_unsupported hversion]
  · rw [ofText_settingsText none hxs hkeys]
    rfl
  · rw [ofText_toText, h]
    rfl
  · rw [ofText_toText, h]
    rfl

/-- The limit and the data rule are replaced, in this order, and the sequencing rule is not. -/
theorem settings_overlay_defaults_partial :
    BuildSettings.ofText "version: 1\ndependency_graph:\n  max_nodes: 7\n  include_data: false\n"
      = .ok ⟨true, false, 7⟩ ∧
    BuildSettings.ofText "dependency_graph:\n  max_nodes: 7\n  include_data: false\n"
      = .error .missingVersion := by
  have hone : settingsText (some 1) [.maxNodes 7, .includeData false]
      = "version: 1\ndependency_graph:\n  max_nodes: 7\n  include_data: false\n" := by decide
  have hnone : settingsText none [.maxNodes 7, .includeData false]
      = "dependency_graph:\n  max_nodes: 7\n  include_data: false\n" := by decide
  have hxs : [Setting.maxNodes 7, .includeData false] ≠ [] := by decide
  obtain ⟨haccepted, -, -, hmissing, -⟩ := settings_overlay_defaults hxs (by decide)
  rw [← hone, ← hnone]
  exact ⟨haccepted (by decide), hmissing⟩

end ProgramSlice
