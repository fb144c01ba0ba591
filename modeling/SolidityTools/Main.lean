import SolidityTools.Command.Run

set_option autoImplicit false

/-! # The program

The outer layer around `Command.run`. It looks at the files and folders that the arguments can
reach, runs the command on them, writes the files that have changed, and prints the outcome. All
decisions are made by `Command.run`.
-/

namespace SolidityTools.Program

def placeOf (path : String) : Place := (FileTree.pathSegments path).filter (!·.isEmpty)

/-- Adds what is at a place to a tree, if anything is there. What is there without being a file
that can be read counts as a folder. -/
def look (tree : FileTree) (place : Place) : IO FileTree := do
  let path := (← IO.currentDir) / Command.pathOf place
  match ← (IO.FS.readBinFile path).toBaseIO with
  | .ok bytes => return { tree with files := (place, bytes) :: tree.files }
  | .error _ =>
    if ← path.pathExists then return { tree with folders := place :: tree.folders }
    else return tree

def lookAll (tree : FileTree) (places : List Place) : IO FileTree :=
  places.eraseDups.foldlM look tree

/-- The places where a file with variables can be: in a folder and in all folders around it. -/
def variablesPlaces (folder : Place) : List Place :=
  (List.range (folder.length + 1)).map fun n => folder.take n ++ [Command.variablesName]

/-- The variables of the environment that count: the one that names a settings file, and those that
the file with variables may refer to. -/
def environmentFor (tree : FileTree) : IO Variables.Bindings := do
  let file := Command.variablesFile? tree tree.working.reverse
  let names := Command.settingsVariable :: file.elim [] Variables.mentioned
  names.eraseDups.filterMapM fun name => return (← IO.getEnv name).map (name, ·)

/-- The files of a tree that are not the same in another. -/
def changes (before after : FileTree) : List (Place × ByteArray) :=
  after.files.filter fun file => before.file? file.1 != some file.2

/-- Writes a file. Yields why that failed. -/
def store (home : Place) (file : Place × ByteArray) : IO (Option Failure) := do
  let path := Command.pathOf file.1
  match ← (IO.FS.writeBinFile path file.2).toBaseIO with
  | .ok _ => return none
  | .error _ =>
    if file.1 = home ++ [Command.settingsName] then return some (.unwritableSettings path)
    else return some (.unwritable path)

/-- Says on the standard error why a run failed. -/
def complain (cause : Failure) : IO Unit := do
  (← IO.getStderr).putStr ("Error: " ++ cause.message ++ "\n")

/-- Runs the program. -/
def run (arguments : List String) : IO UInt32 := do
  let working := placeOf (← IO.currentDir).toString
  let home := placeOf ((← IO.getEnv "HOME").getD "/")
  let tree ← lookAll ⟨[], [], working, home⟩ (variablesPlaces working)
  let environment ← environmentFor tree
  let request := Arguments.request? (Command.namedSettings? tree environment) arguments
  let paths := request.elim [] Request.paths
  let before ← lookAll tree
    ((home ++ [Command.settingsName]) :: paths.flatMap (FileTree.visitedFrom working))
  let outcome := Command.run environment before arguments
  for file in changes before outcome.tree do
    if let some cause ← store home file then
      complain cause
      return 1
  (← IO.getStdout).putStr outcome.output
  match outcome.ending with
  | .failure cause => complain cause
  | .misuse => (← IO.getStderr).putStr Help.text
  | _ => pure ()
  return outcome.ending.status.toUInt32

end SolidityTools.Program

def main (arguments : List String) : IO UInt32 := SolidityTools.Program.run arguments
