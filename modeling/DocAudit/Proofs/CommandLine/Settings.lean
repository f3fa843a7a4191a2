import DocAudit.CommandLine
import DocAudit.Proofs.Config.Storage
import DocAudit.Proofs.Links.AssetLeads

/-!
# Options beside a configuration file

Options change two settings of the configuration that was loaded: a root takes
the place of the root in the file, and openings of asset links are added to
those in the file.  An opening that is known already is not added again, and all
other settings stay.

An audit does not tell in which order openings were given, nor how often.

**Results.**
* `foldl_addAssetLead`: what is added, and where.
* `auditTree_congr_assetLeads`: an audit with the same set of openings.
* `effectiveConfig_merges`: the configuration that counts.
-/

namespace DocAudit

namespace Config

/-- Openings are added behind the known ones, each where it is given first. -/
theorem foldl_addAssetLead (config : Config) (leads : List Text) :
    leads.foldl addAssetLead config
      = config.withAssetLeads (config.assetLeads
        ++ (leads.filter fun lead => lead ∉ config.assetLeads).eraseDups) := by
  induction leads generalizing config with
  | nil =>
      rw [List.filter_nil, List.eraseDups_nil, List.append_nil]
      rfl
  | cons lead leads ih =>
      rw [List.foldl_cons, ih, List.filter_cons]
      by_cases hknown : lead ∈ config.assetLeads
      · have hadd : config.addAssetLead lead = config :=
          if_pos (List.contains_iff_mem.2 hknown)
        rw [hadd, if_neg (by simpa using hknown)]
      · have hadd : config.addAssetLead lead
            = config.withAssetLeads (config.assetLeads ++ [lead]) :=
          if_neg fun h => hknown (List.contains_iff_mem.1 h)
        have hlater : (leads.filter fun other => other ∉ config.assetLeads ++ [lead])
            = (leads.filter fun other => other ∉ config.assetLeads).filter
              fun other => !other == lead := by
          rw [List.filter_filter]
          refine List.filter_congr fun other _ => ?_
          rw [Bool.eq_iff_iff]
          simp [and_comm]
        rw [hadd, if_pos (by simpa using hknown), List.eraseDups_cons, ← hlater]
        simp [withAssetLeads]

end Config

/-- An audit of a tree is the same with the same set of openings of asset links. -/
theorem auditTree_congr_assetLeads (config : Config) {leads others : List Text}
    (h : ∀ lead, lead ∈ leads ↔ lead ∈ others) (tree : FileTree) :
    auditTree (config.withAssetLeads leads) tree
      = auditTree (config.withAssetLeads others) tree := by
  have hfile : ∀ discovery path,
      (Auditor.ofDiscovery (config.withAssetLeads leads) discovery).auditFile tree path
        = (Auditor.ofDiscovery (config.withAssetLeads others) discovery).auditFile tree path := by
    intro discovery path
    have haudit : (Auditor.ofDiscovery (config.withAssetLeads leads) discovery).audit
        = (Auditor.ofDiscovery (config.withAssetLeads others) discovery).audit :=
      funext fun document => Auditor.audit_congr_assetLeads config _ _ document h
    rw [Auditor.auditFile, Auditor.auditFile, haudit]
    rfl
  have hroot : (config.withAssetLeads leads).root = (config.withAssetLeads others).root := rfl
  unfold auditTree
  rw [hroot]
  cases discover tree (config.withAssetLeads others).root with
  | error cause => rfl
  | ok discovery => simp only [funext (hfile discovery)]

namespace CommandLine

namespace Options

theorem apply_eq (options : Options) (config : Config) :
    options.apply config
      = { config with
          root := (options.root.map RootName.path).getD config.root
          assetLeads := config.assetLeads
            ++ (options.assetLeads.filter fun lead => lead ∉ config.assetLeads).eraseDups } :=
  Config.foldl_addAssetLead _ options.assetLeads

theorem effectiveConfig_of_load {tree : FileTree} {options : Options} {p : Path} {config : Config}
    (hfile : options.configFile? tree = some p) (hload : Config.load tree p = .ok config) :
    options.effectiveConfig tree = .ok (options.apply config) := by
  rw [effectiveConfig, hfile]
  simp only [hload]

/-- **Options beside a configuration file.**  Wherever the configuration file that counts can be
loaded, the configuration that counts is the loaded one, with the root of the options if they give
one, and with their openings of asset links behind the loaded ones: those that the file does not
have, each once, in the order in which they are given first.  With any other openings of the same
set, in whatever order and however often, the audit of every tree is the same. -/
theorem effectiveConfig_merges {tree : FileTree} {options : Options} {p : Path} {config : Config}
    (hfile : options.configFile? tree = some p) (hload : Config.load tree p = .ok config) :
    ∃ merged, options.effectiveConfig tree = .ok merged
      ∧ merged = {
          root := match options.root with
            | some root => .path root
            | none => config.root
          imageExtensions := config.imageExtensions
          deprecatedLeads := config.deprecatedLeads
          assetLeads := config.assetLeads
            ++ (options.assetLeads.filter fun lead => lead ∉ config.assetLeads).eraseDups
          rootMarker := config.rootMarker }
      ∧ ∀ leads : List Text, (∀ lead, lead ∈ leads ↔ lead ∈ options.assetLeads) →
        ∃ other, { options with assetLeads := leads }.effectiveConfig tree = .ok other
          ∧ ∀ site : FileTree, auditTree other site = auditTree merged site := by
  refine ⟨options.apply config, effectiveConfig_of_load hfile hload, ?_, ?_⟩
  · rw [apply_eq]
    cases options.root <;> rfl
  · intro leads hleads
    have hother : { options with assetLeads := leads }.configFile? tree = some p := hfile
    refine ⟨_, effectiveConfig_of_load hother hload, fun site => ?_⟩
    rw [apply_eq, apply_eq]
    refine auditTree_congr_assetLeads { config with root := _ } (fun lead => ?_) site
    simp [hleads]

/-- The configuration of a file in which an opening of asset links stands twice. -/
def repeatingConfig : Config :=
  { Config.standard with assetLeads := [text "img/", text "configs/", text "img/"] }

/-- Options with a root, and with an opening that stands in the file and one that is given twice. -/
def repeatingOptions : Options :=
  ⟨0, some (.ofString "site"), none, [text "old/", text "configs/", text "data/", text "old/"],
    none, false⟩

/-- A tree with the usual configuration file alone. -/
def configuredTree (content : Octets) : FileTree where
  entries := [([text "lint-docs.toml"], .file (some content))]
  workingDirectory := []

theorem configFile?_configuredTree (content : Octets) :
    repeatingOptions.configFile? (configuredTree content) = some usualConfig := by
  rfl

theorem read_configuredTree (content : Octets) :
    (configuredTree content).read usualConfig = .ok content := by
  rfl

/-- A tree with that file. -/
def repeatingTree : FileTree := configuredTree (Utf8.encode (repeatingConfig.write (text "docs")))

theorem effectiveConfig_merges_repeatingTree :
    ∃ merged other, repeatingOptions.effectiveConfig repeatingTree = .ok merged
      ∧ merged = { Config.standard with
          root := .path (.ofString "site")
          assetLeads := [text "img/", text "configs/", text "img/", text "old/", text "data/"] }
      ∧ { repeatingOptions with
          assetLeads := [text "configs/", text "data/", text "old/"] }.effectiveConfig repeatingTree
        = .ok other
      ∧ ∀ site : FileTree, auditTree other site = auditTree merged site := by
  have hset : ∀ a b c lead : Text, lead ∈ [b, c, a] ↔ lead ∈ [a, b, c, a] := by
    intro a b c lead
    simp only [List.mem_cons, List.not_mem_nil, or_false]
    tauto
  have hfile : repeatingOptions.configFile? repeatingTree = some usualConfig :=
    configFile?_configuredTree _
  have hread : repeatingTree.read usualConfig
      = .ok (Utf8.encode (repeatingConfig.write (text "docs"))) :=
    read_configuredTree _
  have hload : Config.load repeatingTree usualConfig = .ok repeatingConfig := by
    have hall : ((Config.Field.all.filter (Config.Field.isWritten repeatingConfig))).Perm
        ((Config.Field.all.filter (Config.Field.isWritten repeatingConfig)).filter (· ∉ [])) := by
      simp
    have hreset := Config.load_of_read_writeFields rfl hall hread
    rw [Config.reset_nil] at hreset
    exact hreset
  obtain ⟨merged, hmerged, hfields, hothers⟩ := effectiveConfig_merges hfile hload
  obtain ⟨other, hother, haudit⟩ := hothers _ (hset (text "old/") (text "configs/") (text "data/"))
  exact ⟨merged, other, hmerged, hfields.trans (by decide +kernel), hother, haudit⟩

end Options

end CommandLine

end DocAudit
