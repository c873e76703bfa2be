import Bomwerk.Core.BuildVariables
import Bomwerk.Core.ManifestNames
import Bomwerk.Core.Toml
import Bomwerk.Core.YamlSubset
import Bomwerk.Lockfiles.Producer

/-!
# Python

`parsers/lockfiles/python.cpp`: uv.lock, poetry.lock and the requirements
files.  The TOML library is a parameter.
-/

namespace Bomwerk.Lockfiles.Python

open Bomwerk.Core

def uvLockName : String := "uv.lock"

def poetryLockName : String := "poetry.lock"

def requirementsName : String := "requirements.txt"

def poetryMainGroup : String := "main"

def warning (code : WarningCode) (message : String) : Warning where
  code := code
  message := "python: " ++ message
  ecosystem := "python"

def isNameSeparator (c : Char) : Bool :=
  c = '-' ∨ c = '_' ∨ c = '.'

/-- The loop of `normalize_pypi_name`, by `previous_was_separator`. -/
def normalizeNameFrom : Bool → List Char → List Char
  | _, [] => []
  | previousWasSeparator, c :: rest =>
    if isNameSeparator c then normalizeNameFrom true rest
    else
      (if previousWasSeparator then ['-'] else []) ++
        toLowerAsciiChar c :: normalizeNameFrom false rest

def normalizePypiName (declaredName : List Char) : List Char :=
  normalizeNameFrom false declaredName

def buildPypiPurl (normalizedName version : List Char) : List Char :=
  "pkg:pypi/".toList ++ percentEncodeText normalizedName ++
    if version = [] then [] else ['@'] ++ percentEncodeText version

/-- What an entry of a file declares. -/
structure Package where
  declaredName : List Char
  version : List Char
  scope : Scope := .required
  /-- What the evidence says behind the names. -/
  note : List Char := []
  confidence : Confidence := .high

/-- The component of a package, before its purl is canonicalized:
`emit_lock_component` and the end of the loop of `parse_requirements`. -/
def Package.component (label : String) (package : Package) : Component :=
  let name := normalizePypiName package.declaredName
  { name := String.ofList name
    version := String.ofList package.version
    purl := String.ofList (buildPypiPurl name package.version)
    scope := package.scope
    evidence :=
      [⟨.manifest, label ++ (if name ≠ package.declaredName then
          " declared=" ++ String.ofList package.declaredName
        else "") ++ String.ofList package.note, package.confidence⟩] }

/-- What an entry of a file amounts to. -/
inductive Entry
  | ignored
  | skipped (reason : SkipReason)
  | package (declared : Package)

def Entry.outcome (label : String) : Entry → Outcome
  | ignored => .ignored
  | skipped reason => .skipped reason
  | package declared => .valid (some (declared.component label))

def nameAndVersion? (entry : Toml) : Option (String × String) :=
  match (entry.find? "name").bind Toml.asString?,
      (entry.find? "version").bind Toml.asString? with
  | some name, some version =>
    if name = "" ∨ version = "" then none else some (name, version)
  | _, _ => none

/-- A lock entry under the scope its file gives it. -/
def lockPackage (entry : Toml) (scope : Scope) : Entry :=
  match nameAndVersion? entry with
  | none => .skipped .unresolved
  | some (name, version) =>
    .package
      { declaredName := utf8Text name
        version := trimmed (utf8Text version)
        scope := scope }

/-- One turn of the loop of `parse_uv_lock`. -/
def readUvEntry (entry : Toml) : Entry :=
  if !entry.isTable then .skipped .unresolved
  else if entry.memberContains "source" "virtual" ||
      entry.memberContains "source" "editable" then .ignored
  else lockPackage entry .required

/-- The scope of a poetry package: its groups, or else its category. -/
def poetryScope (entry : Toml) : Scope :=
  match (entry.find? "groups").bind Toml.asArray? with
  | some groups =>
    let groupNames := groups.filterMap Toml.asString?
    if groupNames ≠ [] ∧ poetryMainGroup ∉ groupNames then .excluded
    else .required
  | none =>
    match (entry.find? "category").bind Toml.asString? with
    | some category =>
      if category ≠ poetryMainGroup then .excluded else .required
    | none => .required

/-- One turn of the loop of `parse_poetry_lock`. -/
def readPoetryEntry (entry : Toml) : Entry :=
  if !entry.isTable then .skipped .unresolved
  else lockPackage entry (poetryScope entry)

def isRequirementNameCharacter (c : Char) : Bool :=
  let lowered := toLowerAsciiChar c
  ('a' ≤ lowered ∧ lowered ≤ 'z') ∨ ('0' ≤ lowered ∧ lowered ≤ '9') ∨
    lowered = '-' ∨ lowered = '_' ∨ lowered = '.'

/-- A line before its comment; a `#` within a word opens none. -/
def beforeComment : (previous : Option Char) → List Char → List Char
  | _, [] => []
  | previous, c :: rest =>
    if YamlSubset.startsComment previous c rest then []
    else c :: beforeComment (some c) rest

/-- The requirement of a line, without comment and continuation mark. -/
def requirementText (rawLine : List Char) : List Char :=
  let line := trimmed (beforeComment none rawLine)
  if line.getLast? = some '\\' then trimmed line.dropLast else line

def isUnsupportedRequirement (line : List Char) : Bool :=
  line.head? = some '-' || line.head? = some '.' || line.head? = some '/' ||
    containsText "://".toList line

/-- The extras of a requirement, and the text behind them; nothing when the
bracket stays open. -/
def splitExtras (rest : List Char) : Option (List Char × List Char) :=
  match rest with
  | '[' :: inner =>
    if ']' ∈ inner then
      some (inner.takeWhile (· ≠ ']'), trimmed (inner.dropWhile (· ≠ ']')).tail)
    else none
  | _ => some ([], rest)

/-- The version of an exact pin; empty for any other constraint. -/
def pinnedVersion (constraint : List Char) : List Char :=
  if ['=', '='].isPrefixOf constraint then
    let candidate := trimmed
      (constraint.drop (if ['=', '=', '='].isPrefixOf constraint then 3 else 2))
    if ',' ∈ candidate ∨ '*' ∈ candidate then [] else candidate
  else []

/-- A part of the evidence, when there is something to say. -/
def labelled (label : String) (text : List Char) : List Char :=
  if text = [] then [] else label.toList ++ text

/-- One turn of the loop of `parse_requirements` before the package limit. -/
def readRequirement (rawLine : List Char) : Entry :=
  let line := requirementText rawLine
  if line = [] then .ignored
  else if isUnsupportedRequirement line then .skipped .unsupportedLine
  else
    let marker := trimmed (line.dropWhile (· ≠ ';')).tail
    let requirement := trimmed (line.takeWhile (· ≠ ';'))
    let declaredName := requirement.takeWhile isRequirementNameCharacter
    if declaredName = [] then .skipped .unsupportedLine
    else
      match splitExtras
          (trimmed (requirement.dropWhile isRequirementNameCharacter)) with
      | none => .skipped .unsupportedLine
      | some (extras, constraint) =>
        let version := pinnedVersion constraint
        .package
          { declaredName := declaredName
            version := version
            note :=
              (if version = [] then labelled " constraint=" constraint
                else []) ++
                labelled " extras=" extras ++ labelled " marker=" marker
            confidence := if version = [] then .low else .high }

section Parse

-- `toml::parse`; nothing for a text that is not TOML.
variable (parseToml : List UInt8 → Option Toml)

def lockEntries (readEntry : Toml → Entry) (bytes : List UInt8) :
    Option (List Entry) :=
  (parseToml bytes).map fun document =>
    (((document.find? "package").bind Toml.asArray?).getD []).map readEntry

def fileEntries (path : FsPath) (bytes : List UInt8) : Option (List Entry) :=
  if path.filename = uvLockName then lockEntries parseToml readUvEntry bytes
  else if path.filename = poetryLockName then
    lockEntries parseToml readPoetryEntry bytes
  else some (((byteText bytes).splitOn '\n').map readRequirement)

/-- The warning about the entries of a file that were skipped. -/
def skipSummary (path : FsPath) (skipped : List SkipReason) : List Warning :=
  if skipped = [] then []
  else if path.filename = uvLockName ∨ path.filename = poetryLockName then
    [warning .entriesSkippedUnresolved
      (toString skipped.length ++ " package entrie(s) without name/version " ++
        "skipped: " ++ path.genericString)]
  else
    [warning .malformedEntrySkipped
      (toString skipped.length ++ " unsupported requirement line(s) " ++
        "skipped: " ++ path.genericString)]

/-- `parse_uv_lock`, `parse_poetry_lock` and `parse_requirements`, before any
limit. -/
def manifest (path : FsPath) (bytes : List UInt8) : Manifest :=
  match fileEntries parseToml path bytes with
  | none =>
    { warnings := [warning .invalidToml
        (path.genericString ++ ": not valid TOML, skipped")] }
  | some entries =>
    { entries := entries.map fun entry =>
        { outcome := entry.outcome path.genericString }
      summary := fun _ skipped => skipSummary path skipped }

def isRequirements (path : FsPath) : Bool :=
  matchesManifestName path.filename requirementsName

/-- The `parse` of python. -/
def producer : Producer where
  ecosystem := "python"
  fileKind := "python"
  accepts path :=
    path.filename = uvLockName || path.filename = poetryLockName ||
      isRequirements path
  keepsFirstPart path := isRequirements path
  manifest := manifest parseToml

end Parse
end Bomwerk.Lockfiles.Python
