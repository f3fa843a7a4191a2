import DocAudit.Config.Storage
import DocAudit.Proofs.Config.File
import DocAudit.Proofs.FileTree.Writing

/-!
# Configurations that are stored and loaded

A configuration whose root is a text can be stored wherever a file can be
written, and it is loaded as it was.  Where lines are taken out of its file, the
settings of these lines are loaded as the standard ones and all others as they
were.  A configuration whose root is no text cannot be stored, and an attempt
changes nothing.

**Results.**
* `load_of_read`: what is loaded from a file that holds some settings.
* `run_store_of_path`, `run_store_of_raw`: what storing does.
* `load_of_store`: what is stored is loaded.
-/

namespace DocAudit
namespace Config

section

variable {config : Config} {tree : FileTree} {p root : Path}

theorem load_of_read {file : Text} (hread : tree.read p = .ok (Utf8.encode file))
    (hfile : ofFile? file = some config) : load tree p = .ok config := by
  simp only [load, hread, ofOctets, Utf8.decode?_encode, hfile]

theorem load_of_read_writeFields (hroot : config.root = .path root) {kept removed : List Field}
    (hkept : kept.Perm ((Field.all.filter (Field.isWritten config)).filter (· ∉ removed)))
    (hread : tree.read p = .ok (Utf8.encode (writeFields root.text config kept))) :
    load tree p = .ok (config.reset removed) := by
  have hnodup : kept.Nodup :=
    hkept.nodup_iff.2 ((Field.nodup_all.filter _).filter _)
  have hmem : ∀ f, f ∈ kept ↔ f.isWritten config = true ∧ f ∉ removed := by
    intro f
    simp [hkept.mem_iff, Field.mem_all, and_comm]
  exact load_of_read hread (ofFile?_writeFields hroot hnodup hmem)

theorem run_adapt {ε ε' σ α : Type} (change : ε → ε') (x : ExceptT ε (StateM σ) α) (s : σ) :
    (x.adapt change).run s = ((x.run s).1.mapError change, (x.run s).2) := rfl

/-- A configuration whose root is a text is stored where a file can be written, and else nothing is
changed. -/
theorem run_store_of_path (hroot : config.root = .path root) (p : Path) (tree : FileTree) :
    (config.store p).run tree =
      match tree.writePlace p with
      | .error cause => (.error (.unwritten cause), tree)
      | .ok place =>
          (.ok (), tree.put place (.file (some (Utf8.encode (config.write root.text))))) := by
  have hfile : config.toFile? = some (config.write root.text) := by
    rw [toFile?, hroot]
  rw [store, hfile]
  simp only []
  rw [run_adapt, FileTree.run_writeFile]
  cases tree.writePlace p <;> rfl

/-- A configuration whose root is no text is not stored, and nothing is changed. -/
theorem run_store_of_raw {octets : Octets} (hroot : config.root = .raw octets) (p : Path)
    (tree : FileTree) : (config.store p).run tree = (.error .unwritable, tree) := by
  have hfile : config.toFile? = none := by
    rw [toFile?, hroot]
  rw [store, hfile]
  rfl

/-- A configuration whose root is a text can be stored wherever a file can be written, and it is
loaded as it was.  From its file without the lines of some keys it is loaded with the standard
settings for these keys, in whatever order the other lines stand.  A configuration whose root is no
text is not stored, and nothing is changed. -/
theorem load_of_store (config : Config) (tree : FileTree) (p : Path) :
    (∀ root, config.root = .path root →
      (tree.Writable p → ∃ stored, (config.store p).run tree = (.ok (), stored)
        ∧ config.save tree p = .ok stored
        ∧ stored.read p = .ok (Utf8.encode (config.write root.text))
        ∧ load stored p = .ok config)
      ∧ ∀ kept removed : List Field,
          kept.Perm ((Field.all.filter (Field.isWritten config)).filter (· ∉ removed)) →
          ∀ edited : FileTree,
            edited.read p = .ok (Utf8.encode (writeFields root.text config kept)) →
            load edited p = .ok (config.reset removed))
    ∧ ∀ octets, config.root = .raw octets →
        (config.store p).run tree = (.error .unwritable, tree)
          ∧ config.save tree p = .error .unwritable := by
  constructor
  · intro root hroot
    constructor
    · rintro ⟨place, hplace⟩
      have hrun := run_store_of_path hroot p tree
      rw [hplace] at hrun
      have hread := FileTree.read_put hplace (Utf8.encode (config.write root.text))
      have hall : (Field.all.filter (Field.isWritten config)).Perm
          ((Field.all.filter (Field.isWritten config)).filter (· ∉ [])) := by
        simp
      have hload := load_of_read_writeFields hroot hall hread
      rw [reset_nil] at hload
      exact ⟨_, hrun, by rw [save, hrun], hread, hload⟩
    · intro kept removed hkept edited hread
      exact load_of_read_writeFields hroot hkept hread
  · intro octets hroot
    have hrun := run_store_of_raw hroot p tree
    exact ⟨hrun, by rw [save, hrun]⟩

end

/-- A root whose name has quotes, a backslash and a line break. -/
def sampleRoot : Path := .ofString "the \"docs\"\\\n"

/-- A configuration with strings that have to be written in different forms. -/
def sampleConfig : Config where
  root := .path sampleRoot
  imageExtensions := []
  deprecatedLeads := [text "a'b\"\"\"c", text "\n", [Char.ofNat 7, Char.ofNat 0x1F600]]
  assetLeads := [text "\t''"]
  rootMarker := []

/-- A directory, and a link to a file in it that does not exist yet. -/
def settingsTree : FileTree where
  entries := [([text "settings"], .link (Path.route (.ofString "kept/config.toml"))),
    ([text "kept"], .directory)]
  workingDirectory := []

/-- The tree with a file in which two settings of the sample stand, the later one first. -/
def editedTree : FileTree :=
  settingsTree.put [text "kept", text "config.toml"]
    (.file (some (Utf8.encode (writeFields sampleRoot.text sampleConfig [.assetLeads, .root]))))

theorem load_of_store_sampleConfig :
    settingsTree.Writable (.ofString "settings")
      ∧ (∃ stored, (sampleConfig.store (.ofString "settings")).run settingsTree = (.ok (), stored)
        ∧ load stored (.ofString "settings") = .ok sampleConfig)
      ∧ load editedTree (.ofString "settings")
        = .ok { standard with root := sampleConfig.root, assetLeads := sampleConfig.assetLeads }
      ∧ ({ sampleConfig with root := .raw [0xFF] }.store (.ofString "settings")).run settingsTree
        = (.error .unwritable, settingsTree) := by
  have hplace : settingsTree.writePlace (.ofString "settings")
      = .ok [text "kept", text "config.toml"] := by
    decide +kernel
  have hread : editedTree.read (.ofString "settings")
      = .ok (Utf8.encode (writeFields sampleRoot.text sampleConfig [.assetLeads, .root])) :=
    FileTree.read_put hplace _
  have hpath := (load_of_store sampleConfig settingsTree (.ofString "settings")).1 _ rfl
  have hraw := (load_of_store { sampleConfig with root := .raw [0xFF] } settingsTree
    (.ofString "settings")).2 [0xFF] rfl
  obtain ⟨stored, hrun, -, -, hload⟩ := hpath.1 ⟨_, hplace⟩
  have hedited := hpath.2 [.assetLeads, .root] [.rootMarker, .imageExtensions, .deprecatedLeads]
    (by decide) editedTree hread
  exact ⟨⟨_, hplace⟩, ⟨stored, hrun, hload⟩, hedited, hraw.1⟩

end Config
end DocAudit
