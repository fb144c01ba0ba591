import SolidityTools.Json
import SolidityTools.Import.Graph
import SolidityTools.Text.Padding

set_option autoImplicit false

/-! # Reports on imports -/

namespace SolidityTools.Report

open Text

def importRow (i : Import) : String :=
  "    " ++ padLeft 4 (toString i.line) ++ "  " ++ padRight 8 i.kind.name ++ "  " ++ i.path ++ "\n"

def fileSection (file : FileNode) : String :=
  "📄 " ++ file.name ++ "\n" ++
    (if file.imports.isEmpty then "    (no imports)\n" else "") ++
    String.join (file.imports.map importRow) ++
    if file.importedBy.isEmpty then ""
    else "    imported by: " ++ String.intercalate ", " file.importedBy ++ "\n"

/-- A cycle, closed by its first file. -/
def cycleLine (cycle : List String) : String :=
  "🔁 Circular dependency: " ++ String.intercalate " -> " (cycle ++ cycle.take 1) ++ "\n"

/-- The imports of some files and their circular dependencies for people. -/
def imports (g : DependencyGraph) : String :=
  String.join (g.files.map fileSection) ++ String.join (g.cycles.map cycleLine)

/-- An import statement for machines. -/
def importJson (i : Import) : Json :=
  .record [("path", .string i.path), ("kind", .string i.kind.name), ("line", .natural i.line)]

def fileJson (file : FileNode) : Json :=
  .record [("imports", .list importJson file.imports),
    ("dependencies", .list .string file.dependencies),
    ("imported_by", .list .string file.importedBy)]

/-- The imports of some files and their circular dependencies for machines. -/
def importsJson (g : DependencyGraph) : Json :=
  .record [
    ("files", .record [("files", .object (g.files.map fun file => (file.name, fileJson file)))]),
    ("cycles", .list (.list .string) g.cycles)]

end SolidityTools.Report
