import SolidityTools.Lint.Finding
import SolidityTools.Lint.Pattern
import SolidityTools.Text.Line

set_option autoImplicit false

/-! # The header of a file

A file should begin with a licence identifier in a comment and with a directive that fixes the
compiler version. How many lines count as the header is a setting.
-/

namespace SolidityTools.Lint

open Text

def licenceMarker : String := "SPDX-License-Identifier:"

/-- No licence identifier in the header. The identifier stands in a comment, so the source itself
is searched. -/
def missingLicence (s : Subject) : List Finding :=
  let header := (splitLines s.source.toList).take s.settings.headerLines.toNat
  if header.any (containsText licenceMarker.toList) then []
  else [⟨0, "Missing SPDX license identifier"⟩]

/-- No version directive in the header, which for this rule has at least one line. -/
def missingPragma (s : Subject) : List Finding :=
  let header := takeLines (max s.settings.headerLines.toNat 1) s.masked
  if (Pattern.pragmaDirective.hits header).isEmpty then
    [⟨0, "Missing `pragma solidity` version directive"⟩]
  else []

/-- Whether a version admits more than one compiler. -/
def isFloating (version : List Char) : Bool :=
  version.any fun c => c == '^' || c == '~' || c == '>'

/-- Version directives that do not pin the compiler. -/
def floatingPragmas (s : Subject) : List Finding :=
  (Pattern.pragmaVersion.hits s.masked).filterMap fun hit =>
    let version := trim hit.value
    if isFloating version then
      some ⟨hit.start, "Floating pragma `" ++ String.ofList version ++
        "`; pin an exact compiler version"⟩
    else none

end SolidityTools.Lint
