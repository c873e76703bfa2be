import Bomwerk.Core.BuildVariables
import Bomwerk.Core.YamlSubset
import Bomwerk.Lockfiles.Npm

/-!
# yarn.lock

`parsers/lockfiles/yarn.cpp`: Yarn Berry's YAML and Yarn Classic's own format,
read line by line.
-/

namespace Bomwerk.Lockfiles.Yarn

open Bomwerk.Core Bomwerk.Core.YamlSubset

def yarnLockName : String := "yarn.lock"

def classicBanner : List Char := "# yarn lockfile v1".toList

def formatProbeBytes : Nat := 512

def entryKeyIndentation : Nat := 0

def entryFieldIndentation : Nat := 2

def metadataKey : List Char := "__metadata".toList

def resolutionKey : List Char := "resolution".toList

def classicVersionPrefix : List Char := "version ".toList

def npmProtocol : List Char := "npm".toList

def patchProtocol : List Char := "patch".toList

def workspaceProtocol : List Char := "workspace".toList

def localPathProtocols : List (List Char) :=
  ["link".toList, "portal".toList, "file".toList]

def patchQualifierSeparator : List Char := [':', ':']

def warning (code : WarningCode) (message : String) : Warning where
  code := code
  message := "yarn: " ++ message
  ecosystem := "yarn"

def buildNpmPurl (packageName version : List Char) : List Char :=
  Npm.npmPurl percentEncodePurlNamespace packageName version

/-- The component of `append_npm_component`, before its purl is
canonicalized. -/
def npmComponent (packageName version : List Char) (detail : String) :
    Component where
  name := String.ofList packageName
  version := String.ofList version
  purl := String.ofList (buildNpmPurl packageName version)
  supplier := String.ofList (Npm.npmSupplierFromPackageName packageName)
  evidence := [⟨.manifest, detail, .high⟩]

structure Locator where
  packageName : List Char
  protocol : List Char
  selector : List Char
  deriving DecidableEq, Repr

def isProtocolCharacter (c : Char) : Bool :=
  ('a' ≤ c ∧ c ≤ 'z') ∨ c = '+'

/-- The loop of `split_locator`, behind the part of the name read so far. -/
def splitLocatorFrom (name : List Char) : List Char → Option Locator
  | [] => none
  | c :: rest =>
    let protocol := rest.takeWhile isProtocolCharacter
    match rest.dropWhile isProtocolCharacter with
    | ':' :: selector =>
      if c = '@' ∧ protocol ≠ [] then
        if selector = [] then none
        else some
          { packageName := name, protocol := protocol, selector := selector }
      else splitLocatorFrom (name ++ [c]) rest
    | _ => splitLocatorFrom (name ++ [c]) rest

def splitLocator : List Char → Option Locator
  | [] => none
  | c :: rest => splitLocatorFrom [c] rest

def descriptorName (descriptor : List Char) : List Char :=
  match descriptor with
  | [] => []
  | c :: rest => if '@' ∈ rest then c :: rest.takeWhile (· ≠ '@') else []

def isClassicFormat (text : List Char) : Bool :=
  containsText classicBanner (text.take formatProbeBytes)

/-- The locator under a `patch:` locator, and the note about the patch. -/
def underlyingLocator (selector : List Char) : Option Locator × List Char :=
  (splitLocator (percentDecodeText (selector.takeWhile (· ≠ '#'))),
    match XmlScan.splitAtFirst patchQualifierSeparator
        (selector.dropWhile (· ≠ '#')).tail with
    | some (note, _) => note
    | none => (selector.dropWhile (· ≠ '#')).tail)

/-- What a locator amounts to that is not a patch. -/
def locatorOutcome (label : String) (locator : Locator)
    (patchNote : List Char) : Outcome :=
  if locator.protocol = workspaceProtocol then .ignored
  else if localPathProtocols.contains locator.protocol then
    .skipped .localPath
  else if locator.protocol ≠ npmProtocol then .skipped .unsupportedProtocol
  else
    .valid (some (npmComponent locator.packageName locator.selector
      (if patchNote = [] then label
        else label ++ " (patched: " ++ String.ofList patchNote ++ ")")))

/-- A `resolution` field. -/
def readResolution (label : String) (value : List Char) : Outcome :=
  match splitLocator value with
  | none => .skipped .malformed
  | some locator =>
    if locator.protocol = patchProtocol then
      match underlyingLocator locator.selector with
      | (none, _) => .skipped .malformed
      | (some underlying, patchNote) =>
        locatorOutcome label underlying patchNote
    else locatorOutcome label locator []

/-- The loop of `parse_berry_lock`, by whether it is in the metadata. -/
def berryEntries (label : String) : Bool → List LineResult → List Reading
  | _, [] => []
  | insideMetadata, .nothing :: lines =>
    berryEntries label insideMetadata lines
  | insideMetadata, .unsupported :: lines =>
    { outcome := .skipped .unsupportedLine } ::
      berryEntries label insideMetadata lines
  | insideMetadata, .node node :: lines =>
    if node.indentation = entryKeyIndentation then
      berryEntries label (node.key = metadataKey) lines
    else if insideMetadata ∨ node.indentation ≠ entryFieldIndentation ∨
        node.key ≠ resolutionKey then
      berryEntries label insideMetadata lines
    else
      { outcome := readResolution label node.value } ::
        berryEntries label insideMetadata lines

/-- `recognized_berry`: there is metadata, or a resolution outside of it. -/
def recognizesBerry : Bool → List LineResult → Bool
  | _, [] => false
  | insideMetadata, .node node :: lines =>
    if node.indentation = entryKeyIndentation then
      node.key = metadataKey || recognizesBerry false lines
    else
      !insideMetadata && node.indentation = entryFieldIndentation &&
          node.key = resolutionKey || recognizesBerry insideMetadata lines
  | insideMetadata, _ :: lines => recognizesBerry insideMetadata lines

/-- A counted skip of `warn_skip_counts`. -/
def skipWarning (skipped : List SkipReason) (reason : SkipReason)
    (code : WarningCode) (message label : String) : List Warning :=
  if skipped.count reason = 0 then []
  else [warning code
    (toString (skipped.count reason) ++ message ++ label)]

def warnSkipCounts (label : String) (skipped : List SkipReason) :
    List Warning :=
  skipWarning skipped .localPath .entriesSkippedUnresolved
      " link/portal/file entrie(s) skipped as first-party: " label ++
    skipWarning skipped .unsupportedProtocol .entriesSkippedUnresolved
      " entrie(s) with an unsupported protocol skipped: " label ++
    skipWarning skipped .versionless .entriesSkippedUnresolved
      " entrie(s) without a resolved version skipped: " label ++
    skipWarning skipped .malformed .malformedEntrySkipped
      " malformed entrie(s) skipped: " label

/-- `parse_berry_lock`, before any limit.  A run that the package limit ends
has recognized the format, for it has seen a resolution. -/
def berryManifest (label : String) (text : List Char) : Manifest where
  entries := berryEntries label false (lineResults text)
  summary _ skipped :=
    (if recognizesBerry false (lineResults text) then []
      else [warning .lockfileFormatUnsupported
        ("no Berry entries and no v1 banner, unrecognized lockfile format: " ++
          label)]) ++
      warnSkipCounts label skipped ++
      skipWarning skipped .unsupportedLine .malformedEntrySkipped
        " line(s) outside the readable YAML subset skipped: " label

/-- The name that an entry key opens its entry with; empty when it has none. -/
def entryName (line : List Char) : List Char :=
  descriptorName (YamlSubset.unquoted
    (trimmed (line.dropLast.takeWhile (· ≠ ','))))

/-- The loop of `parse_classic_lock`, by `pending_name`. -/
def classicEntries (label : String) :
    List Char → List (List Char) → List Reading
  | pendingName, [] =>
    if pendingName = [] then []
    else [{ outcome := .skipped .versionless }]
  | pendingName, rawLine :: lines =>
    let line := trimmed rawLine
    let indentation := leadingSpaceCount rawLine
    if line = [] ∨ line.head? = some '#' then
      classicEntries label pendingName lines
    else if indentation = entryKeyIndentation then
      -- The entry before has ended without a resolved version.
      (if pendingName = [] then []
        else [{ outcome := .skipped .versionless }]) ++
        if line.getLast? ≠ some ':' then
          { outcome := .skipped .malformed } :: classicEntries label [] lines
        else
          (if entryName line = [] then
            [{ outcome := .skipped .malformed }]
          else []) ++ classicEntries label (entryName line) lines
    else if indentation ≠ entryFieldIndentation ∨ pendingName = [] ∨
        !classicVersionPrefix.isPrefixOf line then
      classicEntries label pendingName lines
    else
      let version :=
        YamlSubset.unquoted
          (trimmed (line.drop classicVersionPrefix.length))
      (if version = [] then { outcome := .skipped .versionless }
        else { outcome :=
          .valid (some (npmComponent pendingName version label)) }) ::
        classicEntries label [] lines

/-- `parse_classic_lock`, before any limit. -/
def classicManifest (label : String) (text : List Char) : Manifest where
  entries := classicEntries label [] (text.splitOn '\n')
  summary _ skipped := warnSkipCounts label skipped

/-- The `parse` of yarn. -/
def producer : Producer where
  ecosystem := "yarn"
  fileKind := yarnLockName
  accepts path := path.filename = yarnLockName
  keepsFirstPart _ := true
  manifest path bytes :=
    let text := byteText bytes
    if isClassicFormat text then classicManifest path.genericString text
    else berryManifest path.genericString text

end Bomwerk.Lockfiles.Yarn
