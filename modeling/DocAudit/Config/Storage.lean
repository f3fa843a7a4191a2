import DocAudit.Config.File
import DocAudit.FileTree.Edit

/-!
# Stored configurations

A configuration is loaded from a file of a file tree and saved to one.  The
errors tell reading, understanding, writing down and storing apart.
-/

namespace DocAudit

/-- Why a configuration cannot be loaded or saved. -/
inductive ConfigError where
  /-- The file cannot be read. -/
  | unread (cause : FileError)
  /-- The content of the file is no text. -/
  | notText
  /-- The text of the file is no configuration. -/
  | malformed
  /-- The configuration has no written form. -/
  | unwritable
  /-- The file cannot be written. -/
  | unwritten (cause : FileError)
deriving DecidableEq, Repr

namespace ConfigError

/-- The description of an error. -/
def message : ConfigError → Text
  | unread cause => text "failed to read config file: " ++ cause.message
  | notText => text "failed to read config file: stream did not contain valid UTF-8"
  | malformed => text "failed to parse config file"
  | unwritable => text "failed to serialize config"
  | unwritten cause => text "failed to write config file: " ++ cause.message

end ConfigError

namespace Config

/-- The configuration that the content of a file holds. -/
def ofOctets (octets : Octets) : Except ConfigError Config :=
  match Utf8.decode? octets with
  | none => .error .notText
  | some file =>
      match ofFile? file with
      | none => .error .malformed
      | some config => .ok config

/-- The configuration in the file at a path. -/
def load (tree : FileTree) (p : Path) : Except ConfigError Config :=
  match tree.read p with
  | .error cause => .error (.unread cause)
  | .ok octets => ofOctets octets

/-- Stores the configuration in the file at a path. -/
def store (config : Config) (p : Path) : ExceptT ConfigError (StateM FileTree) Unit :=
  match config.toFile? with
  | none => throw .unwritable
  | some file => (FileTree.writeFile p (Utf8.encode file)).adapt .unwritten

/-- The tree in which the file at a path holds the configuration. -/
def save (config : Config) (tree : FileTree) (p : Path) : Except ConfigError FileTree :=
  match (config.store p).run tree with
  | (.error cause, _) => .error cause
  | (.ok (), tree) => .ok tree

end Config

end DocAudit
