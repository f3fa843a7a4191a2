import DocAudit.Config.File
import DocAudit.Proofs.Toml.Document

/-!
# Configuration files that are written and read

Every setting is written on lines of its own, and what is written for it is read
back as its value.  A setting whose lines are left out is read as the standard
one, and so is the list of assets that is not written because it is empty.

**Results.**
* `writes_field`: the written form of a setting is read back.
* `read?_writeFields`: the table of a file that holds some settings.
* `ofFile?_writeFields`: the configuration of such a file.
-/

namespace DocAudit
namespace Config

/-- The configuration with the standard settings for some fields. -/
def reset (config : Config) (fields : List Field) : Config where
  root := if .root ∈ fields then standard.root else config.root
  imageExtensions :=
    if .imageExtensions ∈ fields then standard.imageExtensions else config.imageExtensions
  deprecatedLeads :=
    if .deprecatedLeads ∈ fields then standard.deprecatedLeads else config.deprecatedLeads
  assetLeads := if .assetLeads ∈ fields then standard.assetLeads else config.assetLeads
  rootMarker := if .rootMarker ∈ fields then standard.rootMarker else config.rootMarker

theorem reset_nil (config : Config) : config.reset [] = config := by
  simp [reset]

namespace Field

/-- The value that is kept for a setting. -/
def value (root : Text) (config : Config) : Field → Toml.Value
  | .root => .string root
  | imageExtensions => .array (config.imageExtensions.map .string)
  | deprecatedLeads => .array (config.deprecatedLeads.map .string)
  | assetLeads => .array (config.assetLeads.map .string)
  | rootMarker => .string config.rootMarker

theorem isBareKey_key (field : Field) : Toml.IsBareKey (text field.key) := by
  cases field <;> exact ⟨by decide, by decide⟩

theorem key_injective {field other : Field} (h : text field.key = text other.key) :
    field = other := by
  cases field <;> cases other <;> first | rfl | exact absurd h (by decide)

theorem key_ne_version (field : Field) : text field.key ≠ text "_version" := by
  cases field <;> decide

theorem mem_all (field : Field) : field ∈ all := by
  cases field <;> decide

theorem nodup_all : all.Nodup := by
  decide

end Field

/-- The table that holds some settings of a configuration whose root is a text. -/
def table (root : Text) (config : Config) (fields : List Field) : Toml.Entries :=
  (text "_version", .string version) ::
    fields.map fun field => (text field.key, field.value root config)

theorem readItems?_none {n depth : Nat} {rest : Text} (hn : [']'].length < n) :
    Toml.readItems? n depth ([']'] ++ rest) = some ([], rest) := by
  obtain ⟨m, rfl⟩ := Nat.exists_eq_add_of_lt hn
  exact Toml.readItems?_closing (Toml.skipGap_cons (by decide) rest)

theorem readItems?_single (item : Text) {n depth : Nat} {rest : Text}
    (hn : (Toml.Quoted.write item ++ [']']).length < n) :
    Toml.readItems? n depth (Toml.Quoted.write item ++ [']'] ++ rest)
      = some ([.string item], rest) := by
  obtain ⟨m, rfl⟩ : ∃ m, n = m + 2 := ⟨n - 2, by simp at hn; omega⟩
  rw [List.append_assoc, Toml.readItems?_item item (Toml.skipGap_write item _) (by simp) (by simp),
    List.singleton_append, Toml.skipGap_cons (by decide)]
  rfl

theorem readItems?_lines (items : List Text) {n depth : Nat} {rest : Text}
    (hn : ('\n' :: (items.flatMap
        (fun item => text "    " ++ Toml.Quoted.write item ++ text ",\n") ++ [']'])).length < n) :
    Toml.readItems? n depth ('\n' :: (items.flatMap
        (fun item => text "    " ++ Toml.Quoted.write item ++ text ",\n") ++ [']']) ++ rest)
      = some (items.map .string, rest) := by
  have hlength := Toml.length_le_length_flatMap
    (f := fun item => text "    " ++ Toml.Quoted.write item ++ text ",\n")
    (fun _ => List.append_ne_nil_of_right_ne_nil _ (by decide)) items
  rw [List.length_cons, List.length_append] at hn
  rw [List.cons_append, List.append_assoc]
  exact Toml.readItems?_write items (by omega)

/-- An array of strings is read back, whether it takes one line or several. -/
theorem writes_writeArray (items : List Text) :
    Toml.Writes (writeArray items) (.array (items.map .string)) := by
  unfold writeArray
  split
  · exact Toml.writes_array fun _ _ _ => readItems?_none
  · rename_i item
    exact Toml.writes_array fun _ _ _ => readItems?_single item
  · exact Toml.writes_array fun _ _ _ => readItems?_lines items

theorem writes_field (root : Text) (config : Config) (field : Field) :
    Toml.Writes (field.write root config) (field.value root config) := by
  cases field with
  | root => exact Toml.writes_string root
  | imageExtensions => exact writes_writeArray config.imageExtensions
  | deprecatedLeads => exact writes_writeArray config.deprecatedLeads
  | assetLeads => exact writes_writeArray config.assetLeads
  | rootMarker => exact Toml.writes_string config.rootMarker

theorem writeKey_ne_nil (key : String) (value : Text) : writeKey key value ≠ [] :=
  List.append_ne_nil_of_right_ne_nil _ (List.cons_ne_nil '\n' [])

section

variable {root : Text} {config : Config} {fields : List Field}

/-- The table of a file that holds some settings. -/
theorem read?_writeFields (hnodup : fields.Nodup) :
    Toml.read? (writeFields root config fields) = some (table root config fields) := by
  have hversion : Toml.IsBareKey (text "_version") := ⟨by decide, by decide⟩
  have hkeys : (fields.map fun field => text field.key).Nodup := by
    refine List.pairwise_map.2 (hnodup.imp ?_)
    intro field other hne he
    exact hne (Field.key_injective he)
  have hfresh : ∀ field ∈ fields, Toml.Entries.get? (text field.key)
      [(text "_version", Toml.Value.string version)] = none := by
    intro field _
    rw [Toml.get?_cons, if_neg (Ne.symm field.key_ne_version)]
    rfl
  have hmark : Text.after? [Char.ofNat 0xFEFF] (writeFields root config fields) = none := by
    rfl
  have hlength : fields.length < (writeFields root config fields).length := by
    have hfirst := List.length_pos_iff.2
      (writeKey_ne_nil "_version" (Toml.Quoted.write version))
    have hlines := Toml.length_le_length_flatMap
      (fun field => writeKey_ne_nil (Field.key field) (field.write root config)) fields
    rw [writeFields, List.length_append]
    omega
  have hrest := Toml.readLines?_keys Field.isBareKey_key (writes_field root config) hkeys hfresh
    hlength
  have hread : Toml.Draft.readLines? ((writeFields root config fields).length + 1) ⟨[], []⟩
      (writeFields root config fields) = _ :=
    (Toml.readLines?_key hversion (Toml.writes_string version) rfl _ _).trans hrest
  rw [Toml.read?, hmark, Option.getD_none, hread]
  rfl

theorem get?_table (root : Text) (config : Config) (fields : List Field) (field : Field) :
    (table root config fields).get? (text field.key)
      = if field ∈ fields then some (field.value root config) else none := by
  rw [table, Toml.get?_cons, if_neg (Ne.symm field.key_ne_version)]
  induction fields with
  | nil => rfl
  | cons first fields ih =>
      rw [List.map_cons, Toml.get?_cons, ih]
      by_cases h : first = field
      · subst h
        simp
      · have hkey : ¬ text first.key = text field.key := fun e => h (Field.key_injective e)
        have hne : ¬ field = first := fun e => h e.symm
        simp [hkey, hne]

theorem asTexts?_array (items : List Text) :
    asTexts? (.array (items.map .string)) = some items := by
  unfold asTexts?
  simp only []
  induction items with
  | nil => rfl
  | cons item items ih =>
      rw [List.map_cons, List.mapM_cons, ih]
      rfl

/-- A setting is read from its lines.  Where they are left out it is the standard one, and where
there are none it is the standard one already. -/
theorem setting?_table {α : Type} {field : Field} {read? : Toml.Value → Option α}
    {setting standard : α} {removed : List Field}
    (hkept : ∀ f, f ∈ fields ↔ f.isWritten config = true ∧ f ∉ removed)
    (hread : read? (field.value root config) = some setting)
    (hunwritten : field.isWritten config = false → setting = standard) :
    setting? field read? standard (table root config fields)
      = some (if field ∈ removed then standard else setting) := by
  rw [setting?, get?_table]
  by_cases hremoved : field ∈ removed
  · have habsent : field ∉ fields := fun h => ((hkept field).1 h).2 hremoved
    rw [if_neg habsent, if_pos hremoved]
  · rw [if_neg hremoved]
    cases hwritten : field.isWritten config with
    | true =>
        rw [if_pos ((hkept field).2 ⟨hwritten, hremoved⟩)]
        exact hread
    | false =>
        have habsent : field ∉ fields := by
          intro h
          rw [((hkept field).1 h).1] at hwritten
          cases hwritten
        rw [if_neg habsent, hunwritten hwritten]

/-- The configuration of a table that holds the settings that are written, but for some of them. -/
theorem ofEntries?_table {p : Path} (hroot : config.root = .path p) {removed : List Field}
    (hkept : ∀ f, f ∈ fields ↔ f.isWritten config = true ∧ f ∉ removed) :
    ofEntries? (table p.text config fields) = some (config.reset removed) := by
  have hassets : Field.assetLeads.isWritten config = false → config.assetLeads = [] := by
    simp [Field.isWritten]
  have hothers : ∀ {f : Field} {P : Prop}, f ≠ .assetLeads → f.isWritten config = false → P := by
    intro f P hf hwritten
    simp [Field.isWritten, hf] at hwritten
  have hversion : (table p.text config fields).get? (text "_version") = some (.string version) := by
    rw [table, Toml.get?_cons, if_pos rfl]
  have hpath : (asText? (Field.root.value p.text config)).map (fun t => RootName.path ⟨t⟩)
      = some config.root := by
    rw [hroot]
    rfl
  have hrootRead : setting? .root (fun v => (asText? v).map fun t => .path ⟨t⟩) defaultRoot
      (table p.text config fields) = some (config.reset removed).root :=
    setting?_table hkept hpath (hothers (by decide))
  have himages : setting? .imageExtensions asTexts? defaultImageExtensions
      (table p.text config fields) = some (config.reset removed).imageExtensions :=
    setting?_table hkept (asTexts?_array _) (hothers (by decide))
  have hdeprecated : setting? .deprecatedLeads asTexts? defaultDeprecatedLeads
      (table p.text config fields) = some (config.reset removed).deprecatedLeads :=
    setting?_table hkept (asTexts?_array _) (hothers (by decide))
  have hassetsRead : setting? .assetLeads asTexts? [] (table p.text config fields)
      = some (config.reset removed).assetLeads :=
    setting?_table hkept (asTexts?_array _) hassets
  have hmarker : setting? .rootMarker asText? defaultRootMarker (table p.text config fields)
      = some (config.reset removed).rootMarker :=
    setting?_table hkept rfl (hothers (by decide))
  rw [ofEntries?, hversion, hrootRead, himages, hdeprecated, hassetsRead, hmarker]
  rfl

/-- The configuration of a file that holds the settings that are written, but for some of them. -/
theorem ofFile?_writeFields {p : Path} (hroot : config.root = .path p) (hnodup : fields.Nodup)
    {removed : List Field}
    (hkept : ∀ f, f ∈ fields ↔ f.isWritten config = true ∧ f ∉ removed) :
    ofFile? (writeFields p.text config fields) = some (config.reset removed) := by
  rw [ofFile?, read?_writeFields hnodup]
  exact ofEntries?_table hroot hkept

end

end Config
end DocAudit
