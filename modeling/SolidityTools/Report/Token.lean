import SolidityTools.Json
import SolidityTools.Minimap
import SolidityTools.Position
import SolidityTools.Text.Quoted

set_option autoImplicit false

/-! # Token listings, highlighting and the minimap -/

namespace SolidityTools.Report

open Text

/-- Tokens with their positions, the first of which is given. Since tokens follow one another
without a gap, each begins where the text of the one before it ends. -/
def located (p : Position) : List Token → List (Position × Token)
  | [] => []
  | t :: ts => (p, t) :: located (p.past t.text.toList) ts

/-- The line of a token: its position, kind, style class and quoted text. -/
def tokenLine (p : Position) (t : Token) : String :=
  padRight 9 (toString p.line ++ ":" ++ toString p.column) ++ " " ++ padRight 10 t.kind.name ++
    " " ++ padRight 18 t.style.className ++ " " ++ quote t.text ++ "\n"

/-- The tokens of a file for people, white space left out. -/
def tokens (source : String) : String :=
  let visible := (located .first (tokenize source)).filter fun (_, t) => t.kind != .whitespace
  String.join (visible.map fun (p, t) => tokenLine p t)

def tokenJson (t : Token) : Json :=
  .object [("kind", .string t.kind.name), ("text", .string t.text), ("start", .natural t.start)]

/-- The tokens of a file for machines. -/
def tokensJson (source : String) : Json := .list tokenJson (tokenize source)

/-- A piece of highlighted text for machines. -/
def spanJson (t : Token) : Json :=
  .record [("style", .string t.style.name), ("text", .string t.text)]

/-- The highlighted text of a file for machines. -/
def highlightJson (source : String) : Json := .list spanJson (tokenize source)

/-- The minimap of a file for people, one numbered bar per line. -/
def minimap (source : String) : String :=
  String.join <| ((SolidityTools.minimap source).zipIdx 1).map fun (row, line) =>
    padLeft 4 (toString line) ++ " " ++ Minimap.bar row ++ "\n"

/-- The density of a line as a number that always has a decimal point. -/
def densityJson (filled : Nat) : Json :=
  .number (Minimap.densityText filled ++ if filled % 100 = 0 then ".0" else "")

def minimapLineJson (row : MinimapLine) : Json :=
  .object [("style", .string row.style.name), ("density", densityJson row.filled),
    ("indent", .natural row.indent)]

/-- The minimap of a file for machines. -/
def minimapJson (source : String) : Json :=
  .list minimapLineJson (SolidityTools.minimap source)

end SolidityTools.Report
