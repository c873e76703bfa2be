import Bomwerk.Core.Json
import Bomwerk.Core.JsonUtils
import Bomwerk.Lockfiles.Producer
import Mathlib.Algebra.Group.Int.Defs

/-!
# package-lock.json

`parsers/lockfiles/npm.cpp`.  The JSON library is a parameter that gives the
value of a text, if it is JSON.
-/

namespace Bomwerk.Lockfiles.Npm

open Bomwerk.Core

def packageLockName : String := "package-lock.json"

def nodeModulesSegment : List Char := "node_modules/".toList

/-- The text behind the last occurrence of a pattern, if there is one. -/
def behindLast? (pattern : List Char) : List Char → Option (List Char)
  | [] => if pattern = [] then some [] else none
  | c :: text =>
    match behindLast? pattern text with
    | some behind => some behind
    | none =>
      if pattern.isPrefixOf (c :: text) then
        some ((c :: text).drop pattern.length)
      else none

def packageNameFromKey (packagesKey : List Char) : List Char :=
  (behindLast? nodeModulesSegment packagesKey).getD []

example : packageNameFromKey "node_modules/a/node_modules/@s/b".toList =
    "@s/b".toList := by decide

/-- A name of the form `@scope/name`. -/
def isScoped (packageName : List Char) : Bool :=
  packageName.head? = some '@' && packageName.contains '/'

def npmSupplierFromPackageName (packageName : List Char) : List Char :=
  if isScoped packageName then (packageName.takeWhile (· ≠ '/')).tail else []

/-- An npm purl; the producers differ in how they encode the scope. -/
def npmPurl (encodeScope : List Char → List Char)
    (packageName version : List Char) : List Char :=
  "pkg:npm/".toList ++
    (if isScoped packageName then
      encodeScope (packageName.takeWhile (· ≠ '/')) ++ ['/'] ++
        percentEncodeText (packageName.dropWhile (· ≠ '/')).tail
    else percentEncodeText packageName) ++
    ['@'] ++ percentEncodeText version

def buildNpmPurl (packageName version : List Char) : List Char :=
  npmPurl percentEncodeText packageName version

/-- `entry.value(key, false)`; nothing when the member is no boolean, for the
library throws then. -/
def booleanValue (entry : Json) (key : String) : Option Bool :=
  match entry.find? key with
  | none => some false
  | some (.boolean value) => some value
  | some _ => none

/-- `get<int>()` of an integer. -/
def toInt32 (value : Int) : Int :=
  (value + 2 ^ 31) % 2 ^ 32 - 2 ^ 31

def lockfileVersion (lockfile : Json) : Int :=
  match lockfile.find? "lockfileVersion" with
  | some (.integer value) => toInt32 value
  | _ => 0

def minSupportedLockfileVersion : Int := 2

/-- `component.evidence.detail`. -/
def evidenceDetail (label : String) (entry : Json) : String :=
  match entry.findString? "integrity" with
  | some integrity =>
    label ++ " (integrity " ++ String.ofList (utf8Text integrity) ++ ")"
  | none => label

/-- The component of a valid entry; nothing when the library throws. -/
def component? (label : String) (packageName version : List Char)
    (entry : Json) : Option Component :=
  (booleanValue entry "dev").map fun dev =>
    { name := String.ofList packageName
      version := String.ofList version
      purl := String.ofList (buildNpmPurl packageName version)
      supplier := String.ofList (npmSupplierFromPackageName packageName)
      scope := if dev then .excluded else .required
      license := match entry.findString? "license" with
        | some license => String.ofList (trimmed (utf8Text license))
        | none => ""
      evidence := [⟨.manifest, evidenceDetail label entry, .high⟩] }

/-- One turn of the loop of `parse_package_lock` before the package limit. -/
def readEntry (label : String) (packagesKey : String) (entry : Json) :
    Outcome :=
  if packagesKey = "" then .ignored
  else if !entry.isObject then .skipped .unresolved
  else
    match booleanValue entry "link" with
    | none => .thrown
    | some true => .skipped .unresolved
    | some false =>
      match entry.findString? "version" with
      | none => .skipped .unresolved
      | some version =>
        let packageName := packageNameFromKey (utf8Text packagesKey)
        if packageName = [] then .skipped .unresolved
        else .valid (component? label packageName
          (trimmed (utf8Text version)) entry)

def withoutUtf8Bom (bytes : List UInt8) : List UInt8 :=
  if [0xEF, 0xBB, 0xBF].isPrefixOf bytes then bytes.drop 3 else bytes

def warning (code : WarningCode) (message : String) : Warning where
  code := code
  message := "npm: " ++ message
  ecosystem := "npm"

section Parse

-- `nlohmann::json::parse`; nothing for a discarded value.
variable (parseJson : List UInt8 → Option Json)

/-- `parse_package_lock`, before any limit. -/
def packageLock (label : String) (bytes : List UInt8) : Manifest :=
  let jsonBytes := withoutUtf8Bom bytes
  if JsonUtils.exceedsJsonNestingDepth jsonBytes maxJsonNestingDepth then
    { warnings := [warning .jsonNestingDepthExceeded
        (label ++ ": JSON nesting exceeds depth limit, skipped")] }
  else
    match (parseJson jsonBytes).filter Json.isObject with
    | none =>
      { warnings :=
          [warning .invalidJson (label ++ ": not valid JSON, skipped")] }
    | some lockfile =>
      if lockfileVersion lockfile < minSupportedLockfileVersion then
        { warnings := [warning .lockfileFormatUnsupported
            (label ++ ": lockfileVersion 1 unsupported, regenerate with " ++
              "npm 7+, skipped")] }
      else
        match lockfile.find? "packages" with
        | some (.object packages) =>
          { entries := packages.map fun (packagesKey, entry) =>
              { outcome := readEntry label packagesKey entry }
            summary := fun _ skipped =>
              if skipped = [] then []
              else [warning .entriesSkippedUnresolved
                (toString skipped.length ++ " workspace/link entrie(s) " ++
                  "without a resolved version skipped: " ++ label)] }
        | _ =>
          { warnings := [warning .malformedEntrySkipped
              (label ++ ": packages map missing or malformed, skipped")] }

/-- The `parse` of npm. -/
def producer : Producer where
  ecosystem := "npm"
  fileKind := packageLockName
  accepts path := path.filename = packageLockName
  keepsFirstPart _ := false
  manifest path bytes := packageLock parseJson path.genericString bytes

end Parse
end Bomwerk.Lockfiles.Npm
