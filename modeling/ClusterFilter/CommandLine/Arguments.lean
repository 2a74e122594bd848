import ClusterFilter.CommandLine.Command
import ClusterFilter.Text.Split

/-!
# ClusterFilter — reading the command line

Arguments are read one after another. A name of a subcommand leads one level deeper, an option or
a value of one belongs to the level at which it stands, and everything else is an operand. After
`--` all arguments are operands.

An option is given at most once at each level. The flags for reports and for the settings file
exist at every level; of settings files given at several levels the deepest one counts.
-/

namespace ClusterFilter.CommandLine

-- ---------------------------------------------------------------------------
-- Levels and flags
-- ---------------------------------------------------------------------------

/-- Flags and options. -/
inductive Flag where
  | debug
  | settings
  | format
  | help
  | version
  deriving DecidableEq, Repr

/-- The letter of a flag. -/
def Flag.letter : Flag → Char
  | debug => 'd'
  | settings => 'c'
  | format => 'f'
  | help => 'h'
  | version => 'V'

/-- The word of a flag. -/
def Flag.word : Flag → String
  | debug => "debug"
  | settings => "config"
  | format => "format"
  | help => "help"
  | version => "version"

/-- Whether the flag takes a value. -/
def Flag.takesValue : Flag → Bool
  | settings => true
  | format => true
  | _ => false

/-- Places in the tree of subcommands. -/
inductive Level where
  | top
  | filter
  | grammar
  | fields
  | config
  | configShow
  | configList
  | configGet
  | configSet
  /-- The names of what help is asked for. -/
  | help
  deriving DecidableEq, Repr

namespace Level

/-- The flags of a level. -/
def flags : Level → List Flag
  | top => [.debug, .settings, .help, .version]
  | filter => [.debug, .settings, .format, .help]
  | fields => [.debug, .settings, .format, .help]
  | help => []
  | _ => [.debug, .settings, .help]

/-- The subcommands of a level. -/
def subcommands : Level → List (String × Level)
  | top =>
    [("filter", filter), ("grammar", grammar), ("fields", fields), ("config", config),
      ("help", help)]
  | config =>
    [("show", configShow), ("list", configList), ("get", configGet), ("set", configSet),
      ("help", help)]
  | _ => []

/-- The number of operands at a level. -/
def arity : Level → Nat
  | filter => 2
  | grammar => 1
  | fields => 1
  | configGet => 1
  | configSet => 2
  | _ => 0

end Level

-- ---------------------------------------------------------------------------
-- Reading
-- ---------------------------------------------------------------------------

/-- What ends the reading before its end. -/
inductive Stop where
  /-- The arguments ask for nothing that there is. -/
  | refused
  | help
  | version
  deriving DecidableEq, Repr

/-- What is known of a command line after some of its arguments. -/
structure Reading where
  level : Level
  /-- The flags given at this level. -/
  given : List Flag
  /-- The operands given at this level. -/
  operands : List String
  /-- The option whose value comes next. -/
  pending : Option Flag
  /-- Whether `--` has been read. -/
  operandsOnly : Bool
  /-- Whether the arguments name what help is asked for. -/
  helping : Bool
  debug : Bool
  settingsFile : Option String
  format : Option String
  deriving DecidableEq, Repr

namespace Reading

/-- Before the first argument. -/
def start : Reading :=
  ⟨.top, [], [], none, false, false, false, none, none⟩

/-- Takes the value of an option. No settings file has an empty path. -/
def takeValue (r : Reading) (flag : Flag) (value : String) : Except Stop Reading :=
  if flag ∈ r.given then .error .refused
  else
    let r := { r with given := flag :: r.given, pending := none }
    match flag with
    | .settings =>
      if value = "" then .error .refused else .ok { r with settingsFile := some value }
    | .format => .ok { r with format := some value }
    | _ => .error .refused

/-- Takes a flag that has no value. -/
def takeFlag (r : Reading) (flag : Flag) : Except Stop Reading :=
  if r.pending.isSome then .error .refused
  else
    match flag with
    | .help => .error .help
    | .version => .error .version
    | .debug =>
      if .debug ∈ r.given then .error .refused
      else .ok { r with given := .debug :: r.given, debug := true }
    | _ => .error .refused

/-- Takes a flag, and the text that is attached to it, if there is one. -/
def takeOption (r : Reading) (flag : Flag) (attached : Option String) : Except Stop Reading :=
  if r.pending.isSome then .error .refused
  else if flag.takesValue then
    match attached with
    | some value => r.takeValue flag value
    | none => .ok { r with pending := some flag }
  else if attached.isSome then .error .refused
  else r.takeFlag flag

/-- Takes a word after two dashes, with its value behind an equals sign. -/
def takeLong (r : Reading) (cs : List Char) : Except Stop Reading :=
  let (word, value) := match Text.splitFirst? '=' cs with
    | some (word, value) => (word, some (String.ofList value))
    | none => (cs, none)
  match r.level.flags.find? fun f => f.word.toList == word with
  | some flag => r.takeOption flag value
  | none => .error .refused

/-- Takes letters after one dash: flags, and at the end possibly an option. The rest of the letters
is its value; an equals sign may stand between. -/
def takeLetters (r : Reading) : List Char → Except Stop Reading
  | [] => .ok r
  | c :: cs =>
    match r.level.flags.find? fun f => f.letter == c with
    | none => .error .refused
    | some flag =>
      if flag.takesValue then
        match cs with
        | [] => r.takeOption flag none
        | '=' :: value => r.takeOption flag (some (String.ofList value))
        | value => r.takeOption flag (some (String.ofList value))
      else do
        let r ← r.takeFlag flag
        r.takeLetters cs

/-- Takes an operand. -/
def takeOperand (r : Reading) (text : String) : Except Stop Reading :=
  if r.pending.isSome || r.operands.length = r.level.arity then .error .refused
  else .ok { r with operands := r.operands ++ [text] }

/-- Goes one level deeper. -/
def enter (r : Reading) (level : Level) : Reading :=
  { r with level, given := [], operands := [] }

/-- Takes one argument. -/
def take (r : Reading) (argument : String) : Except Stop Reading :=
  if r.helping then
    match r.level.subcommands.lookup argument with
    | some level => .ok (r.enter level)
    | none => .error .refused
  else if r.operandsOnly then r.takeOperand argument
  else
    match r.pending, r.level.subcommands.lookup argument, argument.toList with
    | none, some .help, _ => .ok { r with helping := true }
    | none, some level, _ => .ok (r.enter level)
    | _, _, ['-', '-'] => .ok { r with operandsOnly := true }
    | _, _, '-' :: '-' :: word => r.takeLong word
    | some flag, _, ['-'] => r.takeValue flag argument
    | none, _, ['-'] => r.takeOperand argument
    | _, _, '-' :: letters => r.takeLetters letters
    | some flag, _, _ => r.takeValue flag argument
    | none, _, _ => r.takeOperand argument

/-- The command that the level and its operands name. -/
def command? (r : Reading) : Option Command :=
  match r.level, r.operands with
  | .filter, [resource, expression] => some (.filter resource expression r.format)
  | .grammar, [resource] => some (.grammar resource)
  | .fields, [resource] => some (.fields resource r.format)
  | .configShow, [] => some .showSettings
  | .configList, [] => some .listSettings
  | .configGet, [key] => some (.getSetting key)
  | .configSet, [key, value] => some (.setSetting key value)
  | _, _ => none

/-- What is asked for, after the last argument. -/
def finish (r : Reading) : Except Stop Request :=
  if r.helping then .ok .help
  else if r.pending.isSome then .error .refused
  else
    match r.command? with
    | some command => .ok (.invoke ⟨r.debug, r.settingsFile, command⟩)
    | none => .error .refused

end Reading

/-- Reads the arguments; none if they ask for nothing that there is. -/
def readArguments (arguments : List String) : Option Request :=
  match arguments.foldlM Reading.take Reading.start >>= Reading.finish with
  | .ok request => some request
  | .error .help => some .help
  | .error .version => some .version
  | .error .refused => none

end ClusterFilter.CommandLine
