import DocAudit.Config

/-!
# Command line options

The arguments of the command are switches, which stand alone, and settings,
which take a value.  Both have a long name, and most have a letter; letters of
switches can be joined, and a setting can close such a group with its value
after it.  A setting that is given twice, a switch other than the one for more
messages that is given twice, and an argument that is neither are misuses.

Help and version stop the reading where they are met.
-/

namespace DocAudit

namespace CommandLine

/-- The form in which a report is printed. -/
inductive Format where
  | text
  | json
  | summary
deriving DecidableEq, Repr

/-- What the arguments ask for. -/
structure Options where
  /-- How often more messages were asked for. -/
  verbosity : Nat
  /-- The documentation root, in place of the configured one. -/
  root : Option Path
  /-- The configuration file, in place of the usual one. -/
  config : Option Path
  /-- Openings of asset links, besides the configured ones. -/
  assetLeads : List Text
  /-- The form of the report. -/
  format : Option Format
  /-- Whether the report is to have no colours. -/
  colourless : Bool
deriving DecidableEq, Repr

/-- Why arguments are not read to their end. -/
inductive Stop where
  | help
  | version
  | misuse
deriving DecidableEq, Repr

/-- An argument that stands alone. -/
inductive Switch where
  | verbose
  | colourless
  | help
  | version
deriving DecidableEq, Repr

/-- An argument that takes a value. -/
inductive Setting where
  | root
  | config
  | assetLead
  | format
deriving DecidableEq, Repr

/-- An argument by its kind. -/
inductive Flag where
  | switch (s : Switch)
  | setting (s : Setting)
deriving DecidableEq, Repr

namespace Flag

/-- The flags by their long names. -/
def names : List (Text × Flag) :=
  [(DocAudit.text "verbose", .switch .verbose),
   (DocAudit.text "root", .setting .root),
   (DocAudit.text "config", .setting .config),
   (DocAudit.text "asset-prefix", .setting .assetLead),
   (DocAudit.text "output", .setting .format),
   (DocAudit.text "no-color", .switch .colourless),
   (DocAudit.text "help", .switch .help),
   (DocAudit.text "version", .switch .version)]

/-- The flags by their letters. -/
def letters : List (Char × Flag) :=
  [('v', .switch .verbose), ('r', .setting .root), ('c', .setting .config),
   ('h', .switch .help), ('V', .switch .version)]

/-- The flag of a long name. -/
def ofName? (name : Text) : Option Flag := names.lookup name

/-- The flag of a letter. -/
def ofLetter? (letter : Char) : Option Flag := letters.lookup letter

end Flag

namespace Format

/-- The format of a name. -/
def ofName? (name : Text) : Option Format :=
  if name = DocAudit.text "text" then some text
  else if name = DocAudit.text "json" then some json
  else if name = DocAudit.text "summary" then some summary
  else none

end Format

namespace Options

/-- No options. -/
def empty : Options := ⟨0, none, none, [], none, false⟩

/-- The options after one more switch. -/
def flip (given : Options) : Switch → Except Stop Options
  | .verbose => .ok { given with verbosity := given.verbosity + 1 }
  | .colourless =>
      if given.colourless then .error .misuse else .ok { given with colourless := true }
  | .help => .error .help
  | .version => .error .version

/-- The options after one more setting.  A path has to have at least one character. -/
def assign (given : Options) (setting : Setting) (value : Text) : Except Stop Options :=
  match setting with
  | .root =>
      if given.root.isSome || value.isEmpty then .error .misuse
      else .ok { given with root := some ⟨value⟩ }
  | .config =>
      if given.config.isSome || value.isEmpty then .error .misuse
      else .ok { given with config := some ⟨value⟩ }
  | .assetLead => .ok { given with assetLeads := given.assetLeads ++ [value] }
  | .format =>
      match Format.ofName? value with
      | some format =>
          if given.format.isSome then .error .misuse else .ok { given with format := some format }
      | none => .error .misuse

/-- Reads a group of letters.  Gives the setting that closes it and waits for its value. -/
def readLetters (given : Options) : Text → Except Stop (Options × Option Setting)
  | [] => .ok (given, none)
  | letter :: group =>
      match Flag.ofLetter? letter with
      | none => .error .misuse
      | some (.switch s) =>
          match given.flip s with
          | .ok given => given.readLetters group
          | .error stop => .error stop
      | some (.setting s) =>
          match group with
          | [] => .ok (given, some s)
          | '=' :: value => (given.assign s value).map (·, none)
          | value => (given.assign s value).map (·, none)

/-- Reads a long name, and the value after an equals sign.  Gives the setting that waits for its
value. -/
def readName (given : Options) (argument : Text) : Except Stop (Options × Option Setting) :=
  let name := argument.takeWhile (· != '=')
  match Flag.ofName? name, argument.drop name.length with
  | some (.switch s), [] => (given.flip s).map (·, none)
  | some (.setting s), [] => .ok (given, some s)
  | some (.setting s), _ :: value => (given.assign s value).map (·, none)
  | _, _ => .error .misuse

/-- Reads arguments, the first of which can be the value of a setting before it.  Nothing may follow
two lone dashes. -/
def readAll (given : Options) : (waiting : Option Setting) → List Text → Except Stop Options
  | none, [] => .ok given
  | some _, [] => .error .misuse
  | none, ['-', '-'] :: arguments => if arguments.isEmpty then .ok given else .error .misuse
  | none, ('-' :: '-' :: name) :: arguments => do
      let (given, waiting) ← given.readName name
      given.readAll waiting arguments
  | none, ('-' :: letter :: group) :: arguments => do
      let (given, waiting) ← given.readLetters (letter :: group)
      given.readAll waiting arguments
  | none, _ :: _ => .error .misuse
  | some _, ('-' :: _ :: _) :: _ => .error .misuse
  | some setting, value :: arguments => do
      (← given.assign setting value).readAll none arguments

/-- The options that arguments give. -/
def ofArguments (arguments : List Text) : Except Stop Options := empty.readAll none arguments

/-- A configuration changed as the options ask. -/
def apply (options : Options) (config : Config) : Config :=
  options.assetLeads.foldl Config.addAssetLead
    { config with root := (options.root.map RootName.path).getD config.root }

end Options

end CommandLine

end DocAudit
