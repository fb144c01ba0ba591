import SolidityTools.Text.Split

set_option autoImplicit false

/-! # The files that a command sees

A command works on a tree of folders and files, in which one folder is the working folder and one
is the home of the user. Commands take the tree as it is before and yield the tree as it is
afterwards, so that what they leave alone can be stated.

A path is followed segment by segment: every segment but the last must name an existing folder, and
no name may be too long. There are no permissions and no links in the tree, and a file is written as
a whole or not at all.
-/

namespace SolidityTools

/-- A place in the tree: the names from the root on. -/
abbrev Place := List String

/-- A tree of folders and files. -/
structure FileTree where
  /-- The folders that are there even if they hold no file. -/
  folders : List Place
  files : List (Place × ByteArray)
  /-- The working folder. -/
  working : Place
  /-- The home of the user. -/
  home : Place

namespace FileTree

def file? (tree : FileTree) (place : Place) : Option ByteArray :=
  (tree.files.find? (·.1 == place)).map (·.2)

def isFile (tree : FileTree) (place : Place) : Bool := (tree.file? place).isSome

def liesInside (place folder : Place) : Bool :=
  folder.isPrefixOf place && folder.length < place.length

def namedFolders (tree : FileTree) : List Place := tree.working :: tree.home :: tree.folders

/-- Whether there is a folder at a place. The root is a folder, and so is what holds a file or a
folder. -/
def isFolder (tree : FileTree) (place : Place) : Bool :=
  place.isEmpty
    || (tree.namedFolders.any fun folder => folder == place || liesInside folder place)
    || tree.files.any fun file => liesInside file.1 place

/-- The segments of a path, which slashes separate. -/
def pathSegments (path : String) : List String :=
  (Text.splitWhere (· == '/') path.toList).map String.ofList

/-- The number of bytes that a name may have. -/
def nameLimit : Nat := 255

def follow? (tree : FileTree) (place : Place) : List String → Option Place
  | [] => some place
  | segment :: segments =>
    if tree.isFolder place then
      if segment = "" ∨ segment = "." then tree.follow? place segments
      else if segment = ".." then tree.follow? place.dropLast segments
      else if segment.utf8ByteSize ≤ nameLimit then tree.follow? (place ++ [segment]) segments
      else none
    else none

/-- The place that a path names. A path that begins with a slash starts from the root, any other
from the working folder. -/
def place? (tree : FileTree) (path : String) : Option Place :=
  match pathSegments path with
  | "" :: segments => tree.follow? [] segments
  | segments => tree.follow? tree.working segments

def pathExists (tree : FileTree) (path : String) : Bool :=
  (tree.place? path).any fun place => tree.isFile place || tree.isFolder place

/-- The places that are seen on following the segments of a path from a place. -/
def visited (place : Place) : List String → List Place
  | [] => [place]
  | segment :: segments =>
    place ::
      if segment = "" ∨ segment = "." then visited place segments
      else if segment = ".." then visited place.dropLast segments
      else visited (place ++ [segment]) segments

/-- The places that are seen on following a path from a working folder. -/
def visitedFrom (working : Place) (path : String) : List Place :=
  match pathSegments path with
  | "" :: segments => visited [] segments
  | segments => visited working segments

/-- The text of the file at a place, if it is encoded properly. -/
def textAt? (tree : FileTree) (place : Place) : Option String :=
  (tree.file? place).bind String.fromUTF8?

def read? (tree : FileTree) (path : String) : Option String :=
  (tree.place? path).bind tree.textAt?

def setText (tree : FileTree) (place : Place) (text : String) : FileTree :=
  let entry := (place, text.toUTF8)
  { tree with
    files :=
      if tree.isFile place then
        tree.files.map fun file => if file.1 == place then entry else file
      else tree.files ++ [entry] }

/-- Writes a file at a place, which must not be a folder. -/
def writeAt? (tree : FileTree) (place : Place) (text : String) : Option FileTree :=
  if tree.isFolder place then none else some (tree.setText place text)

def write? (tree : FileTree) (path text : String) : Option FileTree :=
  (tree.place? path).bind fun place => tree.writeAt? place text

end FileTree

end SolidityTools
