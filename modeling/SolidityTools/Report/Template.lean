import SolidityTools.Json
import SolidityTools.Template
import SolidityTools.Text.Padding

set_option autoImplicit false

/-! # The list of templates -/

namespace SolidityTools.Report

open Text

def templates : String :=
  String.join <| Template.all.map fun t =>
    padRight 16 t.id ++ " " ++ padRight 18 t.name ++ " " ++ t.description ++ "\n"

def templatesJson : Json :=
  .list (fun (t : Template) => .record [("id", .string t.id), ("name", .string t.name),
    ("description", .string t.description)]) Template.all

end SolidityTools.Report
