set_option autoImplicit false

/-! # Command-line arguments

The arguments name a command, its operands and its options. Global options may stand before the
command or behind it. Every option is given at most once on either side, save for the verbosity,
which may be raised repeatedly. Behind `--` everything is an operand.

The arguments are read from left to right into options and operands, one side of the command at a
time. The first that does not fit is a usage error, and the first that asks for help or for the
version is answered at once, so that nothing behind it counts. What has been read is then given its
meaning, and only there it shows whether something is missing.
-/

namespace SolidityTools

/-- What a command is to do. -/
inductive Action where
  | tokenize (file : String)
  | highlight (file : String)
  | minimap (file : String)
  | lint (files : List String)
  | gas (file : String)
  /-- Formats a file: on the standard output, in place, or only to see whether it would change. -/
  | format (file : String) (write check optimize : Bool)
  | imports (files : List String)
  /-- Starts a file from a template, on the standard output or in a new file. -/
  | create (template : String) (output : Option String)
  | templates
deriving DecidableEq, Repr

def Action.paths : Action → List String
  | .tokenize file | .highlight file | .minimap file | .gas file => [file]
  | .format file _ _ _ => [file]
  | .lint files | .imports files => files
  | .create _ output => output.toList
  | .templates => []

/-- What the arguments ask for. -/
inductive Request where
  | help
  | version
  /-- An action, the settings file that is named, and whether output is for machines. -/
  | act (action : Action) (settings : Option String) (json : Bool)
deriving DecidableEq, Repr

def Request.paths : Request → List String
  | .help | .version => []
  | .act action settings _ => settings.toList ++ action.paths

namespace Arguments

/-! ## Options -/

/-- The options of all commands. -/
inductive Name where
  | config
  | json
  | verbose
  | logFile
  | help
  | version
  | write
  | check
  | optimize
  | output
deriving DecidableEq, Repr

namespace Name

/-- The options with their names behind two dashes. -/
def long : List (String × Name) :=
  [("config", .config), ("json", .json), ("verbose", .verbose), ("log-file", .logFile),
   ("help", .help), ("version", .version), ("write", .write), ("check", .check),
   ("optimize", .optimize), ("output", .output)]

/-- The options with their letters behind one dash. -/
def short : List (Char × Name) :=
  [('v', .verbose), ('h', .help), ('V', .version), ('o', .output)]

def takesValue : Name → Bool
  | .config | .output => true
  | _ => false

/-- Whether an option may be given more than once. -/
def repeats : Name → Bool
  | .verbose => true
  | _ => false

/-- The options that every command knows. -/
def global : List Name := [.config, .json, .verbose, .logFile, .help]

end Name

/-- An option as it was given. -/
structure Given where
  name : Name
  /-- The value, empty for an option that takes none. -/
  value : String
deriving DecidableEq, Repr

/-- What stops the reading before the last argument. -/
inductive Stop where
  /-- A request that is answered at once. -/
  | answered (request : Request)
  | misuse
deriving DecidableEq, Repr

/-- Options and operands on one side of the command, in the order in which they were given. -/
structure Side where
  options : List Given
  operands : List String
deriving DecidableEq, Repr

/-- The operands that one side of the command has room for. -/
structure Room where
  /-- How many there may be, if there is a limit. -/
  limit : Option Nat
  /-- Whether they are paths, which must not be empty. -/
  paths : Bool
deriving DecidableEq, Repr

namespace Side

/-- A side on which nothing has been given. -/
def empty : Side := ⟨[], []⟩

def has (side : Side) (name : Name) : Bool := side.options.any (·.name == name)

def valueOf (side : Side) (name : Name) : Option String :=
  (side.options.find? (·.name == name)).map (·.value)

/-- The side with one more option. All values are paths. -/
def give (name : Name) (value : String) (side : Side) : Except Stop Side :=
  match name with
  | .help => .error (.answered .help)
  | .version => .error (.answered .version)
  | name =>
    if (side.has name && !name.repeats) || (name.takesValue && value.isEmpty) then .error .misuse
    else .ok { side with options := side.options ++ [⟨name, value⟩] }

def operand (room : Room) (side : Side) (text : String) : Except Stop Side :=
  if room.paths && text.isEmpty then .error .misuse
  else if room.limit.any (· ≤ side.operands.length) then .error .misuse
  else .ok { side with operands := side.operands ++ [text] }

end Side

/-- Whether an argument can be the value of the option before it: it must not look like an option
itself. A single dash does not. -/
def canBeValue (argument : String) : Bool :=
  match argument.toList with
  | '-' :: _ :: _ => false
  | _ => true

/-- The letters of an argument with one dash: options in a row, of which the last may have its
value behind it, perhaps after an equals sign. Yields the options without value, and the last one
with its value if that is part of the argument. -/
inductive Cluster where
  /-- Options that take no value, and whether an unknown letter follows them. -/
  | flags (names : List Name) (unknown : Bool)
  | withValue (names : List Name) (name : Name) (value : Option String)
deriving DecidableEq, Repr

/-- Puts an option in front of a cluster. -/
def Cluster.push (name : Name) : Cluster → Cluster
  | .flags names unknown => .flags (name :: names) unknown
  | .withValue names last value => .withValue (name :: names) last value

/-- Reads the letters of an argument with one dash. -/
def cluster (known : List Name) : List Char → Cluster
  | [] => .flags [] false
  | c :: cs =>
    match Name.short.lookup c with
    | none => .flags [] true
    | some name =>
      if known.contains name then
        if name.takesValue then
          match cs with
          | [] => .withValue [] name none
          | '=' :: cs => .withValue [] name (some (String.ofList cs))
          | cs => .withValue [] name (some (String.ofList cs))
        else (cluster known cs).push name
      else .flags [] true

/-- An argument as it is read on its own. -/
inductive Shape where
  /-- The two dashes. -/
  | separator
  /-- The name behind two dashes, and the value behind an equals sign. -/
  | long (name : String) (value : Option String)
  /-- The letters behind one dash. -/
  | letters (cs : List Char)
  | operand
deriving DecidableEq, Repr

/-- Reads an argument on its own. -/
def shape (argument : String) : Shape :=
  match argument.toList with
  | ['-', '-'] => .separator
  | '-' :: '-' :: cs =>
    let name := String.ofList (cs.takeWhile (· != '='))
    match cs.dropWhile (· != '=') with
    | [] => .long name none
    | _ :: value => .long name (some (String.ofList value))
  | '-' :: c :: cs => .letters (c :: cs)
  | _ => .operand

/-- The options and operands that one side of the command takes. -/
structure Form where
  known : List Name
  /-- The room for operands; without it the first operand is the name of a command. -/
  room : Option Room
deriving DecidableEq, Repr

/-- One side of the command, read. -/
inductive Sorted where
  /-- All arguments are options and operands. -/
  | side (side : Side)
  /-- The name of a command, what stands before it and the arguments behind it. -/
  | command (before : Side) (name : String) (rest : List String)
deriving DecidableEq, Repr

/-- Gives options without value. -/
def giveAll (names : List Name) (side : Side) : Except Stop Side :=
  names.foldlM (fun side name => side.give name "") side

/-- Reads the arguments on one side of the command, `side` being what has been read so far. -/
def sort (form : Form) (side : Side) : List String → Except Stop Sorted
  | [] => .ok (.side side)
  | argument :: rest =>
    match shape argument with
    | .separator =>
      match form.room, rest with
      | some room, rest => (rest.foldlM (Side.operand room) side).map .side
      | none, [] => .ok (.side side)
      | none, _ :: _ => .error .misuse
    | .operand =>
      match form.room with
      | some room => do
        let side ← side.operand room argument
        sort form side rest
      | none => .ok (.command side argument rest)
    | .long text value =>
      match Name.long.lookup text with
      | none => .error .misuse
      | some name =>
        if !form.known.contains name then .error .misuse
        else if name.takesValue then
          match value, rest with
          | some value, rest => do
            let side ← side.give name value
            sort form side rest
          | none, value :: rest =>
            if canBeValue value then do
              let side ← side.give name value
              sort form side rest
            else .error .misuse
          | none, [] => .error .misuse
        else if value.isSome then .error .misuse
        else do
          let side ← side.give name ""
          sort form side rest
    | .letters cs =>
      match cluster form.known cs with
      | .flags names unknown => do
        let side ← giveAll names side
        if unknown then .error .misuse else sort form side rest
      | .withValue names name value => do
        let side ← giveAll names side
        match value, rest with
        | some value, rest => do
          let side ← side.give name value
          sort form side rest
        | none, value :: rest =>
          if canBeValue value then do
            let side ← side.give name value
            sort form side rest
          else .error .misuse
        | none, [] => .error .misuse

/-! ## Meaning -/

/-- The commands. -/
inductive Kind where
  | tokenize
  | highlight
  | minimap
  | lint
  | gas
  | format
  | imports
  | create
  | templates
deriving DecidableEq, Repr

namespace Kind

def named : List (String × Kind) :=
  [("tokenize", .tokenize), ("highlight", .highlight), ("minimap", .minimap), ("lint", .lint),
   ("gas", .gas), ("fmt", .format), ("imports", .imports), ("new", .create),
   ("templates", .templates)]

/-- The options of a command besides the global ones. -/
def ownOptions : Kind → List Name
  | .format => [.write, .check, .optimize]
  | .create => [.output]
  | _ => []

/-- The operands that a command has room for. -/
def room : Kind → Room
  | .lint | .imports => ⟨none, true⟩
  | .create => ⟨some 1, false⟩
  | .templates => ⟨some 0, false⟩
  | _ => ⟨some 1, true⟩

/-- What may stand behind the name of a command. -/
def form (kind : Kind) : Form := ⟨Name.global ++ kind.ownOptions, some kind.room⟩

/-- The action of a command with what stands behind its name. It is missing if an operand is
missing, or if options contradict each other. -/
def action? (kind : Kind) (side : Side) : Option Action :=
  match kind, side.operands with
  | .tokenize, [file] => some (.tokenize file)
  | .highlight, [file] => some (.highlight file)
  | .minimap, [file] => some (.minimap file)
  | .lint, file :: files => some (.lint (file :: files))
  | .gas, [file] => some (.gas file)
  | .format, [file] =>
    if side.has .write && side.has .check then none
    else some (.format file (side.has .write) (side.has .check) (side.has .optimize))
  | .imports, file :: files => some (.imports (file :: files))
  | .create, [template] => some (.create template (side.valueOf .output))
  | .templates, [] => some .templates
  | _, _ => none

end Kind

/-- What may stand before the name of a command. -/
def outerForm : Form := ⟨.version :: Name.global, none⟩

/-- The settings file named by the options on both sides of the command, of which the one behind
wins, or else by a variable. A variable that is set must not be empty, unless both sides name a
file. -/
def settingsFile? (named? : Option String) (before behind : Side) : Option (Option String) :=
  let given := (behind.valueOf .config).or (before.valueOf .config)
  if named? = some "" ∧ ¬(before.has .config ∧ behind.has .config) then none
  else some (given.or named?)

/-- The request of a command with what stands before its name and behind it. -/
def meaning? (named? : Option String) (kind : Kind) (before behind : Side) : Option Request := do
  let action ← kind.action? behind
  let settings ← settingsFile? named? before behind
  some (.act action settings (before.has .json || behind.has .json))

/-- The command that shows help. -/
def helpName : String := "help"

/-- Reads what stands behind the command that shows help: nothing, or the name of a command. -/
def readHelp : List String → Except Stop Request
  | [] => .error (.answered .help)
  | [name] =>
    if name = helpName ∨ (Kind.named.lookup name).isSome then .error (.answered .help)
    else .error .misuse
  | _ => .error .misuse

def read (named? : Option String) (arguments : List String) : Except Stop Request := do
  match ← sort outerForm .empty arguments with
  | .side _ => .error .misuse
  | .command before name rest =>
    if name = helpName then readHelp rest
    else match Kind.named.lookup name with
      | none => .error .misuse
      | some kind =>
        match ← sort kind.form .empty rest with
        | .command .. => .error .misuse
        | .side behind => (meaning? named? kind before behind).elim (.error .misuse) .ok

/-- What the arguments ask for; `none` is a usage error. `named?` is the settings file named by
a variable. -/
def request? (named? : Option String) (arguments : List String) : Option Request :=
  match read named? arguments with
  | .ok request | .error (.answered request) => some request
  | .error .misuse => none

end Arguments

end SolidityTools
