import DocAudit.CommandLine.Options
import DocAudit.Config.Storage
import DocAudit.TreeAudit

/-!
# The command

The command reads its options, loads the configuration, audits the tree beneath
the documentation root and prints the report.  It succeeds if the report is
clean.

The configuration comes from the file that the options name; without one, from
the usual file where there is one; else it is the standard configuration.
-/

namespace DocAudit

/-- Surrounds a text with an escape sequence and the one that ends its colour. -/
def coloured (code t : Text) : Text := text "\x1b[" ++ code ++ 'm' :: t ++ text "\x1b[39m"

namespace Palette

/-- The colours of a terminal. -/
def terminal : Palette :=
  ⟨coloured (text "33"), coloured (text "31"), coloured (text "32"),
    coloured (text "38;2;000;128;000")⟩

end Palette

namespace CommandLine

/-- What the command leaves behind. -/
structure Outcome where
  /-- The status, which is zero for success. -/
  status : Nat
  /-- What it prints. -/
  output : Text
  /-- The error that it reports. -/
  error : Option Text
deriving DecidableEq, Repr

namespace Outcome

/-- A failure before any report. -/
def failure (message : Text) : Outcome := ⟨1, [], some message⟩

/-- The outcome where the arguments ask for no report. -/
def ofStop : Stop → Outcome
  | .help => ⟨0, [], none⟩
  | .version => ⟨0, [], none⟩
  | .misuse => ⟨2, [], none⟩

end Outcome

/-- The usual configuration file. -/
def usualConfig : Path := .ofString "lint-docs.toml"

/-- The configuration file that counts, if there is one. -/
def Options.configFile? (options : Options) (tree : FileTree) : Option Path :=
  match options.config with
  | some p => some p
  | none => if tree.reaches usualConfig then some usualConfig else none

/-- The configuration that counts, the changes of the options included, or the path of a file that
holds none. -/
def Options.effectiveConfig (options : Options) (tree : FileTree) : Except Path Config :=
  match options.configFile? tree with
  | none => .ok (options.apply .standard)
  | some p =>
      match Config.load tree p with
      | .error _ => .error p
      | .ok config => .ok (options.apply config)

/-- The printed form of a report. -/
def render (options : Options) (colours : Bool) (report : Report) : Text :=
  match options.format.getD .text with
  | .text =>
      report.renderText (if colours && !options.colourless then .terminal else .plain)
  | .json => report.toJson.pretty 0 ++ ['\n']
  | .summary => report.renderSummary ++ ['\n']

/-- Runs the command with options.  `colours` tells whether the output can show colours. -/
def runOptions (tree : FileTree) (colours : Bool) (options : Options) : Outcome :=
  match options.effectiveConfig tree with
  | .error p => .failure (text "failed to load config from " ++ p.text)
  | .ok config =>
      match auditTree config tree with
      | .error _ => .failure (text "failed to lint " ++ config.root.display)
      | .ok report => ⟨if report.isClean then 0 else 1, render options colours report, none⟩

/-- Runs the command with its arguments. -/
def run (tree : FileTree) (colours : Bool) (arguments : List Text) : Outcome :=
  match Options.ofArguments arguments with
  | .error stop => .ofStop stop
  | .ok options => runOptions tree colours options

end CommandLine

end DocAudit
