import Bomwerk.Lockfiles.Yarn

/-!
# pnpm-lock.yaml

`parsers/lockfiles/pnpm.cpp`.
-/

namespace Bomwerk.Lockfiles.Pnpm

open Bomwerk.Core Bomwerk.Core.YamlSubset

def pnpmLockName : String := "pnpm-lock.yaml"

def documentIndentation : Nat := 0

def lockfileVersionKey : List Char := "lockfileVersion".toList

def packagesKey : List Char := "packages".toList

def entryKeyIndentation : Nat := 2

def entryFieldIndentation : Nat := 4

def resolutionKey : List Char := "resolution".toList

def integrityField : List Char := "integrity".toList

def lockfileVersionV9 : Nat := 9

def lockfileVersionV6 : Nat := 6

def maxVersionDigits : Nat := 3

def warning (code : WarningCode) (message : String) : Warning where
  code := code
  message := "pnpm: " ++ message
  ecosystem := "pnpm"

def lockfileMajorVersion (lockfileVersion : List Char) : Option Nat :=
  let digits := lockfileVersion.takeWhile Char.isDigit
  if digits = [] ∨ maxVersionDigits < digits.length then none
  else some (digits.foldl
    (fun majorVersion digit =>
      majorVersion * 10 + (digit.toNat - '0'.toNat)) 0)

def isSupportedLockfileVersion (lockfileVersion : List Char) : Bool :=
  (lockfileMajorVersion lockfileVersion).any fun majorVersion =>
    majorVersion = lockfileVersionV9 ∨ majorVersion = lockfileVersionV6

/-- `split_package_key`: the name and the version. -/
def splitPackageKey (packagesKey : List Char) :
    Option (List Char × List Char) :=
  let spelled :=
    if packagesKey.head? = some '/' then packagesKey.tail else packagesKey
  let key := spelled.takeWhile (· ≠ '(')
  match afterLast? '@' key with
  | none => none
  | some version =>
    let packageName := beforeLast '@' key
    if packageName = [] ∨ version = [] then none
    else some (packageName, version)

/-- A `,` of `unquoted_comma_offset`. -/
def isComma (_ : Option Char) (c : Char) (_ : List Char) : Bool :=
  c = ','

/-- The segments of a flow mapping; every turn consumes a character or ends the
loop. -/
def flowSegments : (fuel : Nat) → List Char → List (List Char)
  | 0, _ => []
  | fuel + 1, text =>
    match splitOutsideQuotes isComma none none text with
    | (segment, []) => [trimmed segment]
    | (segment, _ :: rest) => trimmed segment :: flowSegments fuel rest

/-- `flow_mapping_field`; empty when there is no such field. -/
def flowMappingField (interiorText field : List Char) : List Char :=
  match (flowSegments (interiorText.length + 1) interiorText).find?
      fun segment => ':' ∈ segment ∧
        trimmed (segment.takeWhile (· ≠ ':')) = field with
  | some segment => trimmed (segment.dropWhile (· ≠ ':')).tail
  | none => []

/-! ## The parser -/

/-- What the loop of `parse_pnpm_lock` carries from node to node. -/
structure LoopState where
  /-- The entry whose resolution is still to come. -/
  pending : Option (List Char × List Char) := none
  insidePackages : Bool := false
  versionSupported : Bool := false

/-- The entries of a file.  The parser abandons a file of another lockfile
version where it finds out. -/
structure LockEntries where
  readings : List Reading
  abandoned : Bool := false

def closePendingEntry (pending : Option (List Char × List Char)) :
    List Reading :=
  if pending.isSome then [{ outcome := .skipped .missingResolution }] else []

def resolutionOutcome (label : String) (node : Node)
    (pending : List Char × List Char) : Outcome :=
  let integrity :=
    if node.isFlowMapping then flowMappingField node.value integrityField
    else []
  if integrity = [] then .skipped .unsupportedResolution
  else .valid (some (Yarn.npmComponent pending.1 pending.2
    (label ++ " (integrity " ++ String.ofList integrity ++ ")")))

/-- The warning about a lockfile version. -/
def unsupportedVersion (label : String) (node : Node) : Reading where
  warnings := [warning .lockfileFormatUnsupported
    (label ++ ": lockfileVersion '" ++ String.ofList node.value ++
      "' unsupported (reads 6 and 9), skipped")]
  outcome := .ignored

def LockEntries.prepend (readings : List Reading) (entries : LockEntries) :
    LockEntries :=
  { entries with readings := readings ++ entries.readings }

/-- The loop of `parse_pnpm_lock`. -/
def lockEntries (label : String) : LoopState → List LineResult → LockEntries
  | state, [] => { readings := closePendingEntry state.pending }
  | state, .nothing :: lines => lockEntries label state lines
  | state, .unsupported :: lines =>
    (lockEntries label state lines).prepend
      [{ outcome := .skipped .unsupportedLine }]
  | state, .node node :: lines =>
    if node.indentation = documentIndentation then
      let closed := closePendingEntry state.pending
      let insidePackages : Bool := node.key = packagesKey
      if node.key = lockfileVersionKey then
        if isSupportedLockfileVersion node.value then
          (lockEntries label
            { insidePackages := insidePackages, versionSupported := true }
            lines).prepend closed
        else
          { readings := closed ++ [unsupportedVersion label node]
            abandoned := true }
      else
        (lockEntries label
          { insidePackages := insidePackages
            versionSupported := state.versionSupported } lines).prepend
          closed
    else if node.indentation ≤ entryKeyIndentation then
      let closed := closePendingEntry state.pending
      let state := { state with pending := none }
      if !state.insidePackages ∨ !state.versionSupported ∨
          node.indentation ≠ entryKeyIndentation then
        (lockEntries label state lines).prepend closed
      else
        match splitPackageKey node.key with
        | none =>
          (lockEntries label state lines).prepend
            (closed ++ [{ outcome := .skipped .malformed }])
        | some entry =>
          (lockEntries label { state with pending := some entry }
            lines).prepend closed
    else if !state.insidePackages ∨ !state.versionSupported ∨
        node.indentation ≠ entryFieldIndentation ∨
        node.key ≠ resolutionKey then
      lockEntries label state lines
    else
      match state.pending with
      | none => lockEntries label state lines
      | some pending =>
        (lockEntries label { state with pending := none } lines).prepend
          [{ outcome := resolutionOutcome label node pending }]

/-- `version_seen`. -/
def seesVersion (lines : List LineResult) : Bool :=
  lines.any fun line =>
    match line with
    | .node node =>
      node.indentation = documentIndentation ∧ node.key = lockfileVersionKey
    | _ => false

/-- A counted skip of `warn_skip_counts`. -/
def skipWarning (skipped : List SkipReason) (reason : SkipReason)
    (code : WarningCode) (message label : String) : List Warning :=
  if skipped.count reason = 0 then []
  else [warning code
    (toString (skipped.count reason) ++ message ++ label)]

/-- The warnings behind the loop of a file that was not abandoned. -/
def summaryOf (label : String) (lines : List LineResult)
    (skipped : List SkipReason) : List Warning :=
  if !seesVersion lines then
    [warning .lockfileFormatUnsupported
      (label ++ ": no lockfileVersion, skipped")]
  else
    skipWarning skipped .unsupportedResolution .entriesSkippedUnresolved
        " git/URL entrie(s) without a registry integrity skipped: " label ++
      skipWarning skipped .missingResolution .entriesSkippedUnresolved
        " entrie(s) without a resolution skipped: " label ++
      skipWarning skipped .malformed .malformedEntrySkipped
        " malformed package key(s) skipped: " label ++
      skipWarning skipped .unsupportedLine .malformedEntrySkipped
        " line(s) outside the readable YAML subset skipped: " label

/-- `parse_pnpm_lock`, before any limit. -/
def lockManifest (label : String) (text : List Char) : Manifest :=
  let lines := lineResults text
  let entries := lockEntries label {} lines
  { entries := entries.readings
    summary := fun limitReached skipped =>
      if entries.abandoned && !limitReached then []
      else summaryOf label lines skipped }

/-- The `parse` of pnpm. -/
def producer : Producer where
  ecosystem := "pnpm"
  fileKind := pnpmLockName
  accepts path := path.filename = pnpmLockName
  keepsFirstPart _ := true
  manifest path bytes := lockManifest path.genericString (byteText bytes)

end Bomwerk.Lockfiles.Pnpm
