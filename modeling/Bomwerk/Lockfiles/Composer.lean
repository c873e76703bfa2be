import Bomwerk.Core.BuildVariables
import Bomwerk.Lockfiles.Npm

/-!
# composer.lock and composer.json

`parsers/lockfiles/composer.cpp`.  The JSON library is a parameter that gives
the value of a text, if it is JSON.
-/

namespace Bomwerk.Lockfiles.Composer

open Bomwerk.Core

def composerLockName : String := "composer.lock"

def composerJsonName : String := "composer.json"

def warning (code : WarningCode) (message : String) : Warning where
  code := code
  message := "composer: " ++ message
  ecosystem := "composer"

def buildComposerPurl (vendor packageName version : List Char) : List Char :=
  "pkg:composer/".toList ++ percentEncodeText vendor ++ ['/'] ++
    percentEncodeText packageName ++
    if version = [] then [] else '@' :: percentEncodeText version

/-- The component of `emit_composer_component`, before its purl is
canonicalized. -/
def composerComponent (vendor packageName version : List Char) (scope : Scope)
    (confidence : Confidence) (detail : String) (license : List Char) :
    Component where
  name := String.ofList (vendor ++ '/' :: packageName)
  version := String.ofList version
  purl := String.ofList (buildComposerPurl vendor packageName version)
  supplier := String.ofList vendor
  scope := scope
  license := String.ofList license
  evidence := [⟨.manifest, detail, confidence⟩]

def isPlatformRequirement (requirementName : List Char) : Bool :=
  '/' ∉ requirementName &&
    (requirementName = "php".toList || requirementName = "hhvm".toList ||
      "php-".toList.isPrefixOf requirementName ||
      "ext-".toList.isPrefixOf requirementName ||
      "lib-".toList.isPrefixOf requirementName ||
      "composer-".toList.isPrefixOf requirementName)

/-- The vendor and the package around the first `/`, neither of them empty. -/
def splitFullName (fullName : List Char) : Option (List Char × List Char) :=
  let vendor := fullName.takeWhile (· ≠ '/')
  let packageName := (fullName.dropWhile (· ≠ '/')).tail
  if vendor = [] ∨ packageName = [] then none
  else some (vendor, packageName)

def entryLicense (entry : Json) : List Char :=
  match entry.findArray? "license" with
  | some (.string license :: _) => trimmed (utf8Text license)
  | _ => []

/-- `component.evidence.detail` of an entry. -/
def entryDetail (label : String) (entry : Json) : String :=
  match entry.find? "dist" with
  | some (.object dist) =>
    match (Json.object dist).findString? "shasum" with
    | some shasum =>
      if shasum = "" then label
      else label ++ " (dist shasum " ++
        String.ofList (utf8Text shasum) ++ ")"
    | none => label
  | _ => label

/-- One turn of the loop of `parse_package_array` before the package limit. -/
def readEntry (label : String) (scope : Scope) (entry : Json) : Outcome :=
  if !entry.isObject then .skipped .malformed
  else
    match entry.findString? "name", entry.findString? "version" with
    | some name, some version =>
      match splitFullName (trimmed (utf8Text name)) with
      | none => .skipped .malformed
      | some (vendor, packageName) =>
        let version := trimmed (utf8Text version)
        if version = [] then .skipped .malformed
        else .valid (some (composerComponent vendor packageName version
          scope .high (entryDetail label entry) (entryLicense entry)))
    | _, _ => .skipped .malformed

/-- One turn of the loop of `parse_requirement_map` before the package
limit.  A platform requirement is unresolved, a bad name malformed. -/
def readRequirement (label : String) (scope : Scope) (name : String)
    (constraint : Json) : Outcome :=
  let fullName := trimmed (utf8Text name)
  if isPlatformRequirement fullName then .skipped .unresolved
  else
    match splitFullName fullName with
    | none => .skipped .malformed
    | some (vendor, packageName) =>
      let range := match constraint.asString? with
        | some range => trimmed (utf8Text range)
        | none => []
      .valid (some (composerComponent vendor packageName [] scope .medium
        (if range = [] then label
          else label ++ " (requires " ++ String.ofList range ++ ")") []))

/-- `parse_package_array` on a member of the document; a member of another
type is passed over. -/
def packageReadings (label : String) (scope : Scope) (document : Json)
    (key : String) : List Reading :=
  match document.find? key with
  | some (.array packages) =>
    packages.map fun entry => { outcome := readEntry label scope entry }
  | _ => []

/-- `parse_composer_lock`, behind `parse_json_object`. -/
def lockManifest (label : String) (lockfile : Json) : Manifest :=
  if (lockfile.find? "packages").isNone ∧
      (lockfile.find? "packages-dev").isNone then
    { warnings := [warning .malformedEntrySkipped
        (label ++ ": packages arrays missing, skipped")] }
  else
    { entries := packageReadings label .required lockfile "packages" ++
        packageReadings label .excluded lockfile "packages-dev"
      summary := fun _ skipped =>
        if skipped = [] then []
        else [warning .entriesSkippedUnresolved
          (toString skipped.length ++
            " package entrie(s) without vendor/name/version skipped: " ++
            label)] }

/-- `parse_requirement_map` on a member of the document, or the warning about
another type. -/
def requirementReadings (label : String) (scope : Scope) (document : Json)
    (key : String) : List Reading :=
  match document.find? key with
  | none => []
  | some (.object requirements) =>
    requirements.map fun (name, constraint) =>
      { outcome := readRequirement label scope name constraint }
  | some _ =>
    [{ warnings := [warning .malformedEntrySkipped
        (label ++ ": " ++ key ++ " is not an object, skipped")]
       outcome := .ignored }]

/-- A counted skip of `parse_composer_json`. -/
def skipWarning (skipped : List SkipReason) (reason : SkipReason)
    (message label : String) : List Warning :=
  if skipped.count reason = 0 then []
  else [warning .entriesSkippedUnresolved
    (toString (skipped.count reason) ++ message ++ label)]

/-- `parse_composer_json`, behind `parse_json_object`. -/
def jsonManifest (label : String) (manifest : Json) : Manifest where
  entries := requirementReadings label .required manifest "require" ++
    requirementReadings label .excluded manifest "require-dev"
  summary _ skipped :=
    skipWarning skipped .unresolved
        " platform requirement(s) (php/ext-*/lib-*) skipped: " label ++
      skipWarning skipped .malformed
        " requirement(s) not named vendor/package skipped: " label

/-- `parse_json_object`, and the parser of the document. -/
def documentManifest (parseJson : List UInt8 → Option Json)
    (manifestOf : String → Json → Manifest) (label : String)
    (bytes : List UInt8) : Manifest :=
  let jsonBytes := Npm.withoutUtf8Bom bytes
  if JsonUtils.exceedsJsonNestingDepth jsonBytes maxJsonNestingDepth then
    { warnings := [warning .jsonNestingDepthExceeded
        (label ++ ": JSON nesting exceeds depth limit, skipped")] }
  else
    match (parseJson jsonBytes).filter Json.isObject with
    | none =>
      { warnings :=
          [warning .invalidJson (label ++ ": not valid JSON, skipped")] }
    | some document => manifestOf label document

/-- `versioned_names`. -/
def isVersionedName (components : List Component) (name : String) : Bool :=
  components.any fun component =>
    component.version ≠ "" ∧ component.name = name

/-- `versioned_required_names`. -/
def isVersionedRequiredName (components : List Component) (name : String) :
    Bool :=
  components.any fun component =>
    component.version ≠ "" ∧ component.scope = .required ∧
      component.name = name

/-- The test of `std::erase_if`. -/
def isShadowed (components : List Component) (component : Component) : Bool :=
  component.version = "" &&
    (isVersionedRequiredName components component.name ||
      component.scope = .excluded && isVersionedName components component.name)

def dropVersionlessShadowedByVersioned (components : List Component) :
    List Component :=
  components.filter fun component => !isShadowed components component

/-- The end of `parse`. -/
def mergedResult (components : List Component) : List Component :=
  mergeAll (dropVersionlessShadowedByVersioned components)

end Bomwerk.Lockfiles.Composer
