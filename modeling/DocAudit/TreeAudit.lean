import DocAudit.Auditor
import DocAudit.Discovery
import DocAudit.Document.Load
import DocAudit.Report

/-!
# The audit of a file tree

Every file beneath the documentation root is audited against the catalog of all
of them, and the report keeps the order in which they were found.  An image is
not even read: its relative path alone tells that it is exempt.  Any other file
has to be read, and there is no report if one of them cannot be.  Of several
such files the first one is named; no statement depends on which one it is.

An audit is one of a tree whose names are texts.
-/

namespace DocAudit

/-- Why a tree has no report. -/
inductive TreeError where
  /-- The files cannot be listed. -/
  | discovery (cause : DiscoveryError)
  /-- A file cannot be read. -/
  | load (cause : LoadError)
deriving DecidableEq, Repr

namespace TreeError

/-- The description of an error. -/
def message : TreeError → Text
  | discovery cause => cause.message
  | load cause => cause.message

end TreeError

namespace Auditor

/-- The auditor of files that were found. -/
def ofDiscovery (config : Config) (discovery : Discovery) : Auditor :=
  ⟨config, discovery.root.toPath, .ordered discovery.paths⟩

/-- A path with slashes for its backslashes. -/
def forwardSlashes (path : Text) : Text := path.map fun c => if c = '\\' then '/' else c

/-- Whether the file at a path is not even read. -/
def skips (auditor : Auditor) (path : Path) : Bool :=
  auditor.exempts (forwardSlashes (auditor.root.relativeTo path))

/-- The report on the file at a path, which is read only if it has to be. -/
def auditFile (auditor : Auditor) (tree : FileTree) (path : Path) : Except LoadError FileReport :=
  if auditor.skips path then .ok ⟨forwardSlashes (auditor.root.relativeTo path), []⟩
  else (Document.load tree auditor.root path).map auditor.audit

end Auditor

/-- The report on every file beneath the configured root. -/
def auditTree (config : Config) (tree : FileTree) : Except TreeError Report :=
  match discover tree config.root with
  | .error cause => .error (.discovery cause)
  | .ok discovery =>
      match discovery.paths.mapM ((Auditor.ofDiscovery config discovery).auditFile tree) with
      | .error cause => .error (.load cause)
      | .ok files => .ok (.ofFiles files)

end DocAudit
