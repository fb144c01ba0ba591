import SolidityTools.Command.Arguments
import SolidityTools.Command.FileTree
import SolidityTools.Command.Help
import SolidityTools.Command.Variables
import SolidityTools.Layout.Loop
import SolidityTools.Report.Gas
import SolidityTools.Report.Import
import SolidityTools.Report.Lint
import SolidityTools.Report.Template
import SolidityTools.Report.Token
import SolidityTools.Settings.Reader
import SolidityTools.Settings.Writer

set_option autoImplicit false

/-! # Running a command

A run takes the arguments and the tree of files and yields what is written on the standard output,
how the run ended, and the tree afterwards. A run that fails has still written what it had written
before the failure. There is no log, so the option for a log file names nothing that is written.
-/

namespace SolidityTools

/-- Why a run failed. -/
inductive Failure where
  | unreadableSource (path : String)
  | unreadableSettings (path : String)
  | malformedSettings
  | unwritableSettings (path : String)
  | unwritable (path : String)
  | unknownTemplate (id : String)
  | alreadyExists (path : String)
deriving DecidableEq, Repr

/-- What is said about a failure. -/
def Failure.message : Failure → String
  | .unreadableSource path => "Failed to read source file: " ++ path
  | .unreadableSettings path => "Failed to read config file: " ++ Text.quote path
  | .malformedSettings => Settings.readFailure
  | .unwritableSettings path => "Failed to write config file: " ++ Text.quote path
  | .unwritable path => "Failed to write " ++ path
  | .unknownTemplate id => "Unknown template `" ++ id ++ "`; run `solide templates` to list them"
  | .alreadyExists path => "Refusing to overwrite existing file: " ++ path

/-- How a run ended. -/
inductive Ending where
  | success
  /-- The command worked, and what it found is a reason to stop: an error in a file, or a file
  that is not formatted. -/
  | objection
  | failure (cause : Failure)
  | misuse
deriving DecidableEq, Repr

/-- The exit status of a run. -/
def Ending.status : Ending → Nat
  | .success => 0
  | .objection => 1
  | .failure _ => 1
  | .misuse => 2

/-- The result of a run. -/
structure Outcome where
  output : String
  ending : Ending
  tree : FileTree

namespace Outcome

/-- A run that succeeds without changing any file. -/
def print (tree : FileTree) (output : String) : Outcome := ⟨output, .success, tree⟩

/-- A run that fails before it has written anything. -/
def fail (tree : FileTree) (cause : Failure) : Outcome := ⟨"", .failure cause, tree⟩

end Outcome

namespace Command

/-! ## Settings -/

/-- The name of the settings file in the user's home. -/
def settingsName : String := ".solide.toml"

/-- The variable that names a settings file. -/
def settingsVariable : String := "SOLIDE_CONFIG"

def loadSettings (tree : FileTree) (path : String) (place : Option Place) :
    Except Failure Settings :=
  match place.bind tree.textAt? with
  | none => .error (.unreadableSettings path)
  | some text =>
    match Settings.read? text with
    | some settings => .ok settings
    | none => .error .malformedSettings

/-- The path of a place, from the root on. -/
def pathOf (place : Place) : String := String.join (place.map ("/" ++ ·))

/-- The settings for a run and the tree behind them. Without a named file the one in the user's
home is taken, which is made with all defaults if it is not there. -/
def settingsFor (tree : FileTree) : Option String → Except Failure Settings × FileTree
  | some path => (loadSettings tree path (tree.place? path), tree)
  | none =>
    let place := tree.home ++ [settingsName]
    if tree.isFile place || tree.isFolder place then
      (loadSettings tree (pathOf place) (some place), tree)
    else (.ok .standard, tree.setText place Settings.standard.write)

/-! ## Commands that read one file -/

def showFile (tree : FileTree) (file : String) (text : String → String) : Outcome :=
  match tree.read? file with
  | none => .fail tree (.unreadableSource file)
  | some source => .print tree (text source)

/-- Shows something about a file for people or for machines. -/
def showFileAs (json : Bool) (tree : FileTree) (file : String) (text : String → String)
    (value : String → Json) : Outcome :=
  showFile tree file fun source => if json then (value source).document else text source

/-! ## Linting -/

def hasError (issues : List Lint.Issue) : Bool := issues.any (·.rule.severity == .error)

/-- The files with their issues, up to the first file that cannot be read. -/
def lintFiles (settings : LintSettings) (tree : FileTree) :
    List String → List (String × String × List Lint.Issue) × Option Failure
  | [] => ([], none)
  | file :: files =>
    match tree.read? file with
    | none => ([], some (.unreadableSource file))
    | some source =>
      let (reports, cause) := lintFiles settings tree files
      ((file, source, SolidityTools.lint settings source) :: reports, cause)

/-- Lints files. A report for machines is written only when all files have been read. -/
def lint (json : Bool) (settings : LintSettings) (tree : FileTree) (files : List String) :
    Outcome :=
  let (reports, cause) := lintFiles settings tree files
  let output :=
    if json then
      if cause.isSome then ""
      else Json.document (.list (fun (file, _, issues) => Report.lintJson file issues) reports)
    else String.join (reports.map fun (file, source, issues) => Report.lint file source issues)
  let ending := match cause with
    | some cause => .failure cause
    | none => if reports.any fun (_, _, issues) => hasError issues then .objection else .success
  ⟨output, ending, tree⟩

/-! ## Formatting -/

/-- The text of a file laid out anew. -/
def laidOut (settings : EditorSettings) (optimized : Bool) (source : String) : String :=
  if optimized then optimize settings source else SolidityTools.format settings source

def format (settings : EditorSettings) (tree : FileTree) (file : String)
    (write check optimized : Bool) : Outcome :=
  match tree.read? file with
  | none => .fail tree (.unreadableSource file)
  | some source =>
    let text := laidOut settings optimized source
    if check then
      if text = source then .print tree (file ++ " is formatted\n")
      else ⟨file ++ " would be reformatted\n", .objection, tree⟩
    else if write then
      if text = source then .print tree (file ++ " is already formatted\n")
      else match tree.write? file text with
        | some tree => .print tree ("✨ Formatted " ++ file ++ "\n")
        | none => .fail tree (.unwritable file)
    else .print tree text

/-! ## Imports -/

/-- The texts of all files, or the first file that cannot be read. -/
def readAll (tree : FileTree) : List String → Except Failure (List (String × String))
  | [] => .ok []
  | file :: files =>
    match tree.read? file with
    | none => .error (.unreadableSource file)
    | some source => (readAll tree files).map ((file, source) :: ·)

def imports (json : Bool) (tree : FileTree) (files : List String) : Outcome :=
  match readAll tree files with
  | .error cause => .fail tree cause
  | .ok sources =>
    let graph := DependencyGraph.build sources
    .print tree (if json then (Report.importsJson graph).document else Report.imports graph)

/-! ## Templates -/

/-- Starts a file from a template. An existing file is never touched. -/
def create (tree : FileTree) (id : String) (output : Option String) : Outcome :=
  match Template.find? id, output with
  | none, _ => .fail tree (.unknownTemplate id)
  | some template, none => .print tree template.code
  | some template, some path =>
    if tree.pathExists path then .fail tree (.alreadyExists path)
    else match tree.write? path template.code with
      | some tree =>
        .print tree ("✨ Created " ++ path ++ " from the " ++ template.name ++ " template\n")
      | none => .fail tree (.unwritable path)

/-! ## Runs -/

/-- Does something that needs settings. -/
def withSettings (tree : FileTree) (path : Option String)
    (act : Settings → FileTree → Outcome) : Outcome :=
  match settingsFor tree path with
  | (.error cause, tree) => .fail tree cause
  | (.ok settings, tree) => act settings tree

/-- Does what an action says. -/
def perform (tree : FileTree) (path : Option String) (json : Bool) : Action → Outcome
  | .tokenize file => showFileAs json tree file Report.tokens Report.tokensJson
  | .highlight file => showFileAs json tree file SolidityTools.highlight Report.highlightJson
  | .minimap file => showFileAs json tree file Report.minimap Report.minimapJson
  | .lint files =>
    withSettings tree path fun settings tree => lint json settings.lint tree files
  | .gas file =>
    withSettings tree path fun settings tree =>
      showFileAs json tree file
        (fun source => Report.gas file (Gas.estimate settings.gas source))
        (fun source => Report.gasJson (Gas.estimate settings.gas source))
  | .format file write check optimized =>
    withSettings tree path fun settings tree =>
      format settings.editor tree file write check optimized
  | .imports files => imports json tree files
  | .create template output => create tree template output
  | .templates =>
    .print tree (if json then Report.templatesJson.document else Report.templates)

/-- The name and version of the program. -/
def versionText : String := "solide 0.0.2\n"

def variablesName : String := ".env"

/-- The file with variables for a folder: its own, or that of the nearest folder around it. The
folder is given by its names from the inside out. -/
def variablesFile? (tree : FileTree) : List String → Option ByteArray
  | [] => tree.file? [variablesName]
  | name :: outer =>
    (tree.file? ((name :: outer).reverse ++ [variablesName])).or (variablesFile? tree outer)

/-- The variables of a run: those of the environment and those that the file with variables sets. -/
def bindingsFor (tree : FileTree) (environment : Variables.Bindings) : Variables.Bindings :=
  match variablesFile? tree tree.working.reverse with
  | some file => Variables.read environment file
  | none => environment

def namedSettings? (tree : FileTree) (environment : Variables.Bindings) : Option String :=
  (bindingsFor tree environment).get? settingsVariable

/-- Runs the program. `environment` holds the variables that are set from outside. -/
def run (environment : Variables.Bindings) (tree : FileTree) (arguments : List String) : Outcome :=
  match Arguments.request? (namedSettings? tree environment) arguments with
  | none => ⟨"", .misuse, tree⟩
  | some .help => .print tree Help.text
  | some .version => .print tree versionText
  | some (.act action path json) => perform tree path json action

end Command

end SolidityTools
