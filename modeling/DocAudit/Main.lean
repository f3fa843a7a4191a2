import DocAudit.CommandLine

/-!
# The program

The program surveys the part of the file system that matters into a file tree,
runs the command on it, prints what the command prints and ends with its status.

A survey holds what the given paths lead over and everything beneath the
documentation root, the targets of links included.  Hidden directories that no
link leads to are not looked into, and files that the audit skips are not read.
A file that cannot be read and a directory that cannot be listed are recorded as
such.
-/

namespace DocAudit

/-- What a walk through the file system has found so far. -/
structure Survey where
  tree : FileTree
  /-- The directories whose entries are all known. -/
  listed : List Place

namespace Survey

/-- The place of a path without links. -/
def placeOf (real : String) : Place :=
  (Path.ofString real).components.filterMap Path.Component.name?

/-- The entry of the file system at a place. -/
def located (place : Place) : IO.FS.DirEntry := ⟨"/", String.ofList (Text.joinWith ['/'] place)⟩

/-- A tree in which the directories above a place are known. -/
def withAncestors (tree : FileTree) : (above rest : Place) → FileTree
  | above, name :: next :: rest =>
      let directory := above ++ [name]
      withAncestors (if tree.isDirectory directory then tree else tree.put directory .directory)
        directory (next :: rest)
  | _, _ => tree

/-- The content of the file at a place, if it can be read. -/
def contentOf (place : Place) : IO (Option Octets) := do
  try
    return some (← IO.FS.readBinFile (located place).path).toList
  catch _ => return none

/-- Records the entry at a place.  Gives the place that it leads to.  An entry whose path is too
long to be looked at counts as a file that cannot be read. -/
def record (skips : Text → Bool) (survey : Survey) (place : Place) :
    IO (Survey × Option Place) := do
  let path := (located place).path
  let recorded (entry : Entry) : Survey :=
    { survey with tree := (withAncestors survey.tree [] place).put place entry }
  try
    match (← path.symlinkMetadata).type with
    | .dir => return (recorded .directory, some place)
    | .file =>
        let content ← if skips place.toPath.text then pure (some []) else contentOf place
        return (recorded (.file content), some place)
    | .symlink =>
        try
          let target := placeOf (toString (← IO.FS.realPath path))
          return (recorded (.link target.toPath.route), some target)
        catch _ => return (recorded (.link place.toPath.route), none)
    | .other => return (recorded .special, some place)
  catch _ =>
    if place.isTooLong then return (recorded (.file none), some place) else return (survey, none)

/-- The names of the entries in a directory, if it can be listed. -/
def namesIn (directory : Place) : IO (Option (List Text)) := do
  try
    return some ((← (located directory).path.readDir).toList.map (·.fileName.toList))
  catch _ => return none

/-- Records everything beneath a directory. -/
partial def list (skips : Text → Bool) (survey : Survey) (directory : Place) : IO Survey := do
  if survey.listed.contains directory then return survey
  match ← namesIn directory with
  | none => return { survey with tree := survey.tree.put directory .closed }
  | some names =>
      let mut survey := { survey with listed := directory :: survey.listed }
      for name in names do
        let place := directory ++ [name]
        let (recorded, target) ← record skips survey place
        survey := recorded
        if let some target := target then
          if target != place then
            survey := (← record skips survey target).1
          if survey.tree.isDirectory target
              && !(target == place && Discovery.isHidden name) then
            survey ← list skips survey target
      return survey

/-- Records what steps lead over.  Gives the place that they lead to. -/
def trace (survey : Survey) (place : Place) :
    List (Step Text) → IO (Survey × Option Place)
  | [] => return (survey, some place)
  | .stay :: steps => survey.trace place steps
  | .up :: steps => survey.trace place.dropLast steps
  | .down name :: steps => do
      let (survey, target) ← record (fun _ => false) survey (place ++ [name])
      match target with
      | none => return (survey, none)
      | some target =>
          let (survey, _) ← record (fun _ => false) survey target
          survey.trace target steps

/-- Records what a path leads over. -/
def tracePath (survey : Survey) (p : Path) : IO (Survey × Option Place) :=
  survey.trace (FileTree.start survey.tree.workingDirectory p.route) p.route.steps

/-- Records everything beneath the configured root. -/
def listRoot (survey : Survey) (config : Config) : IO Survey := do
  match config.root with
  | .raw _ => return survey
  | .path p =>
      let (survey, root) ← survey.tracePath p
      let auditor : Auditor := ⟨config, ⟨[]⟩, .ordered []⟩
      match root with
      | some root =>
          if survey.tree.isDirectory root then
            list (fun path => auditor.exempts (Auditor.forwardSlashes path)) survey root
          else return survey
      | none => return survey

/-- A survey of what the command needs with some options. -/
def ofOptions (options : CommandLine.Options) : IO Survey := do
  let directory := placeOf (toString (← IO.FS.realPath "."))
  let tree := withAncestors ⟨[], directory⟩ [] (directory ++ [[]])
  let (survey, _) ← tracePath ⟨tree, []⟩ (options.config.getD CommandLine.usualConfig)
  match options.effectiveConfig survey.tree with
  | .ok config => survey.listRoot config
  | .error _ => return survey

end Survey

/-- Whether the standard output can show colours. -/
def outputShowsColours : IO Bool := do
  if let some force ← IO.getEnv "FORCE_COLOR" then return force != "0" && force != "false"
  if (← IO.getEnv "NO_COLOR").isSome || (← IO.getEnv "TERM") == some "dumb" then return false
  (← IO.getStdout).isTty

/-- What the program says about its use. -/
def usage : String :=
  "Usage: lint-docs [OPTIONS]\n\n" ++
  "Options:\n" ++
  "  -v, --verbose                Verbosity (-v, -vv, -vvv)\n" ++
  "  -r, --root <ROOT>            The root of the documentation tree [default: docs]\n" ++
  "  -c, --config <CONFIG>        The config file [default: lint-docs.toml, if present]\n" ++
  "      --asset-prefix <PREFIX>  Exempt links under this prefix from link checks\n" ++
  "      --output <FORMAT>        Output format: text, json or summary [default: text]\n" ++
  "      --no-color               Disable coloured output\n" ++
  "  -h, --help                   Print help\n" ++
  "  -V, --version                Print version\n"

/-- The name and version of the program. -/
def version : String := "lint-docs 0.1.0"

end DocAudit

open DocAudit in
/-- Runs the command. -/
def main (arguments : List String) : IO UInt32 := do
  match CommandLine.Options.ofArguments (arguments.map String.toList) with
  | .error stop =>
      match stop with
      | .help => IO.print usage
      | .version => IO.println version
      | .misuse => IO.eprint usage
      return UInt32.ofNat (CommandLine.Outcome.ofStop stop).status
  | .ok options =>
      let survey ← Survey.ofOptions options
      let outcome := CommandLine.runOptions survey.tree (← outputShowsColours) options
      IO.print (String.ofList outcome.output)
      if let some message := outcome.error then
        IO.eprintln ("Error: " ++ String.ofList message)
      return UInt32.ofNat outcome.status
