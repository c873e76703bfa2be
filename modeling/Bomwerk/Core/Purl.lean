import Bomwerk.Core.Text
import Bomwerk.Core.Warning

/-!
# Package URLs

`core/purl.cpp` and the coverage classification of `core/match_coverage.cpp`.
-/

namespace Bomwerk.Core

def isAsciiWhitespace (c : Char) : Bool :=
  c = ' ' ∨ c = '\t' ∨ c = '\n' ∨ c = '\r' ∨ c = '\x0c' ∨ c = '\x0b'

def quoted (text : String) : String :=
  "'" ++ text ++ "'"

/-- The pieces of a purl around its first `:` and the first `/` behind it. -/
structure PurlPieces where
  scheme : List Char
  type : List Char
  /-- From the separator behind the type on; empty when there is none. -/
  rest : List Char

/-- `find_separators` on a text without whitespace; nothing without a `:`. -/
def purlPieces (raw : List Char) : Option PurlPieces :=
  match raw.dropWhile (· ≠ ':') with
  | [] => none
  | _ :: afterScheme =>
    some
      { scheme := raw.takeWhile (· ≠ ':')
        type := afterScheme.takeWhile (· ≠ '/')
        rest := afterScheme.dropWhile (· ≠ '/') }

def malformedPurl (message : String) : Result String :=
  { value := ""
    warnings := [{ code := .purlMalformed, message := message }]
    complete := false }

/-- `Purl::parse`; the value is the canonical purl. -/
def parsePurl (raw : String) : Result String :=
  if raw = "" then malformedPurl "purl is empty"
  else if raw.toList.any isAsciiWhitespace then
    malformedPurl ("purl contains whitespace: " ++ quoted raw)
  else
    match purlPieces raw.toList with
    | none =>
      malformedPurl ("purl is missing scheme separator: " ++ quoted raw)
    | some pieces =>
      if !equalsAsciiIgnoreCase (String.ofList pieces.scheme) "pkg" then
        malformedPurl ("purl scheme is not pkg: " ++ quoted raw)
      else if pieces.rest = [] ∨ pieces.type = [] then
        malformedPurl ("purl is missing package type: " ++ quoted raw)
      else if pieces.rest.length = 1 then
        malformedPurl ("purl is missing package name: " ++ quoted raw)
      else
        { value :=
            "pkg:" ++ toLowerAscii (String.ofList pieces.type) ++
              String.ofList pieces.rest }

example : (parsePurl "PKG:NPM/left-pad@1.3.0").value = "pkg:npm/left-pad@1.3.0" := by
  decide

/-- `purl_identity_part`: the purl without qualifiers and subpath. -/
def purlIdentityPart (purl : String) : String :=
  String.ofList (purl.toList.takeWhile fun c => c ≠ '?' ∧ c ≠ '#')

/-- The text behind the last occurrence of a character, if there is one. -/
def afterLast? (mark : Char) (text : List Char) : Option (List Char) :=
  if mark ∈ text then
    some (text.reverse.takeWhile (· ≠ mark)).reverse
  else none

/-- The text before the last occurrence of a character, or all of it. -/
def beforeLast (mark : Char) (text : List Char) : List Char :=
  if mark ∈ text then
    ((text.reverse.dropWhile (· ≠ mark)).drop 1).reverse
  else text

def purlTypeOf (purl : String) : String :=
  if startsWith purl "pkg:" then
    String.ofList ((purl.toList.drop 4).takeWhile (· ≠ '/'))
  else ""

def purlVersionOf (purlWithoutExtras : String) : String :=
  String.ofList ((afterLast? '@' purlWithoutExtras.toList).getD [])

def purlNameOf (purlWithoutExtras : String) : String :=
  if startsWith purlWithoutExtras "pkg:" then
    match (purlWithoutExtras.toList.drop 4).dropWhile (· ≠ '/') with
    | [] => ""
    | _ :: nameAndNamespace =>
      let name := beforeLast '@' nameAndNamespace
      String.ofList ((afterLast? '/' name).getD name)
  else ""

inductive MatchCoverage
  | matched
  | unmappedPurlType
  | unversionedPurl
  | noIdentifier
  deriving DecidableEq, Repr

/-- `to_string(MatchCoverage)`. -/
def MatchCoverage.text : MatchCoverage → String
  | matched => "matched"
  | unmappedPurlType => "unmapped-purl-type"
  | unversionedPurl => "unversioned-purl"
  | noIdentifier => "no-identifier"

def unmappedPurlTypes : List String := ["conan", "vcpkg", "generic"]

def classifyMatchCoverage (purl : String) : MatchCoverage :=
  let identityPart := purlIdentityPart purl
  if !startsWith identityPart "pkg:" then .noIdentifier
  else
    let version := purlVersionOf identityPart
    if version = "" then .unversionedPurl
    else if isHexObjectId version then .matched
    else if unmappedPurlTypes.contains (purlTypeOf purl) then .unmappedPurlType
    else .matched

end Bomwerk.Core
