import SolidityTools.Text.Split

set_option autoImplicit false

/-! # Paths of imported files

Paths are compared as text, without looking at any file system. Both slashes separate segments.
The *normal form* of a path has no empty segment and no `.`, and `..` has removed the segment
before it wherever there was one to remove; its segments are separated by forward slashes.
-/

namespace SolidityTools.ImportPath

/-- The characters between the segments of a path. -/
def isSeparator (c : Char) : Bool := c == '/' || c == '\\'

/-- The segments of a path. -/
def segments (path : List Char) : List (List Char) := Text.splitWhere isSeparator path

/-- The final segment of a path. -/
def fileName (path : String) : String :=
  String.ofList ((path.toList.reverse.takeWhile (!isSeparator ·)).reverse)

/-- The directory of a path: everything before the last separator, if there is one. -/
def directory? (path : String) : Option String :=
  match path.toList.reverse.dropWhile (!isSeparator ·) with
  | [] => none
  | _ :: rest => some (String.ofList rest.reverse)

/-- The segment that stays where it is. -/
def here : List Char := ['.']

/-- The segment that goes up. -/
def up : List Char := ['.', '.']

/-- Goes on by one segment from the segments passed so far, latest first. -/
def follow (passed : List (List Char)) (segment : List Char) : List (List Char) :=
  if segment = [] ∨ segment = here then passed
  else if segment = up then
    match passed with
    | [] => [up]
    | last :: rest => if last = up then up :: last :: rest else rest
  else segment :: passed

/-- The segments of the normal form. -/
def normalSegments (path : List Char) : List (List Char) :=
  ((segments path).foldl follow []).reverse

/-- The normal form of a path. -/
def normalise (path : String) : String :=
  String.ofList (Text.joinWith '/' (normalSegments path.toList))

end SolidityTools.ImportPath
