import DocAudit.Config
import DocAudit.Toml.Document

/-!
# Configuration files

A configuration is kept in a TOML file that starts with the version of its
format.  A key that is missing stands for the standard setting, except for the
version; a key that is not known does not count.  A root whose name is no text
cannot be written.
-/

namespace DocAudit

namespace Config

/-- The version of the format. -/
def version : Text := text "1"

/-- The lines of an array of strings.  From two items on every item has a line of its own. -/
def writeArray (items : List Text) : Text :=
  match items with
  | [] => text "[]"
  | [item] => '[' :: (Toml.Quoted.write item ++ [']'])
  | items =>
      text "[\n" ++ items.flatMap (fun item => text "    " ++ Toml.Quoted.write item ++ text ",\n")
        ++ [']']

/-- The line of a key, with the written form of its value. -/
def writeKey (key : String) (value : Text) : Text := text key ++ text " = " ++ value ++ ['\n']

/-- The settings of a configuration, each kept under a key of its own. -/
inductive Field where
  | root
  | imageExtensions
  | deprecatedLeads
  | assetLeads
  | rootMarker
deriving DecidableEq, Repr

namespace Field

/-- The settings in the order in which they are written. -/
def all : List Field := [root, imageExtensions, deprecatedLeads, assetLeads, rootMarker]

/-- The key of a setting. -/
def key : Field → String
  | root => "root"
  | imageExtensions => "image_extensions"
  | deprecatedLeads => "deprecated_prefixes"
  | assetLeads => "asset_prefixes"
  | rootMarker => "root_marker"

/-- The written form of a setting. -/
def write (root : Text) (config : Config) : Field → Text
  | .root => Toml.Quoted.write root
  | imageExtensions => writeArray config.imageExtensions
  | deprecatedLeads => writeArray config.deprecatedLeads
  | assetLeads => writeArray config.assetLeads
  | rootMarker => Toml.Quoted.write config.rootMarker

/-- Whether a setting is written at all.  Asset links are left out when there are none. -/
def isWritten (config : Config) (field : Field) : Bool :=
  field ≠ assetLeads || config.assetLeads ≠ []

end Field

/-- The file that holds some settings of a configuration whose root is a text. -/
def writeFields (root : Text) (config : Config) (fields : List Field) : Text :=
  writeKey "_version" (Toml.Quoted.write version)
    ++ fields.flatMap fun field => writeKey field.key (field.write root config)

/-- The file of a configuration whose root is a text. -/
def write (root : Text) (config : Config) : Text :=
  writeFields root config (Field.all.filter (Field.isWritten config))

/-- The file of a configuration. -/
def toFile? (config : Config) : Option Text :=
  match config.root with
  | .path p => some (config.write p.text)
  | .raw _ => none

/-- The text that a value is. -/
def asText? : Toml.Value → Option Text
  | .string t => some t
  | _ => none

/-- The texts that a value holds. -/
def asTexts? : Toml.Value → Option (List Text)
  | .array items => items.mapM asText?
  | _ => none

/-- The setting of a field, or the standard one where its key is missing. -/
def setting? {α : Type} (field : Field) (read? : Toml.Value → Option α) (standard : α)
    (entries : Toml.Entries) : Option α :=
  match entries.get? (text field.key) with
  | none => some standard
  | some value => read? value

/-- The configuration that the root table of a file holds. -/
def ofEntries? (entries : Toml.Entries) : Option Config := do
  if (← (← entries.get? (text "_version")) |> asText?) ≠ version then none
  let root ← setting? .root (fun v => (asText? v).map fun t => .path ⟨t⟩) defaultRoot entries
  let images ← setting? .imageExtensions asTexts? defaultImageExtensions entries
  let deprecated ← setting? .deprecatedLeads asTexts? defaultDeprecatedLeads entries
  let assets ← setting? .assetLeads asTexts? [] entries
  let marker ← setting? .rootMarker asText? defaultRootMarker entries
  some ⟨root, images, deprecated, assets, marker⟩

/-- The configuration of a file. -/
def ofFile? (file : Text) : Option Config := (Toml.read? file).bind ofEntries?

end Config

end DocAudit
