import Bomwerk.Core.Component
import Bomwerk.Core.Text

/-!
# Lockfile producers

What the `parse` functions of `parsers/lockfiles/npm.cpp` and `maven.cpp`
share: the loop over the files of the index, the limits on files, bytes and
packages, and the loop over the entries of one file.

A file is read into a `Manifest` first, which no limit has touched yet; the
loop over its entries then applies the package limit.
-/

namespace Bomwerk.Lockfiles

open Bomwerk.Core

structure ParseOptions where
  maxFileBytes : Nat := 8 * 1024 * 1024
  maxScannedFiles : Nat := 10000
  maxTotalPackages : Nat := 10000

structure BoundedFileRead where
  readable : Bool := false
  bytes : List UInt8 := []
  truncated : Bool := false

/-- `read_file_bounded`; a file that cannot be opened has no content. -/
def readFileBounded (content : Option (List UInt8)) (maxBytes : Nat) :
    BoundedFileRead :=
  match content with
  | none => {}
  | some bytes =>
    { readable := true
      bytes := bytes.take maxBytes
      truncated := maxBytes < bytes.length }

/-! ## Entries -/

/-- Why an entry is left out without a limit; each file counts them. -/
inductive SkipReason
  | malformed
  | unresolved
  | localPath
  | unsupportedProtocol
  | versionless
  | unsupportedResolution
  | missingResolution
  | unsupportedLine
  deriving DecidableEq, Repr

/-- What one entry of a file amounts to.  A valid entry without a component,
and a thrown one, stand for an exception of the JSON library. -/
inductive Outcome
  | ignored
  | skipped (reason : SkipReason)
  | valid (component : Option Component)
  | thrown

/-- An entry, with the warnings raised before its outcome is known. -/
structure Reading where
  warnings : List Warning := []
  outcome : Outcome

/-- One file, before any limit. -/
structure Manifest where
  warnings : List Warning := []
  /-- The component that the file itself is. -/
  ownIdentity : Option Component := none
  entries : List Reading := []
  /-- The warnings behind the loop, by whether the package limit ended it and
  from the entries skipped in it. -/
  summary : (limitReached : Bool) → List SkipReason → List Warning :=
    fun _ _ => []

/-- A component in the order of its emission.  The source keeps the components
only; the mark sets a pom's own identity apart from its dependencies. -/
structure Emission where
  component : Component
  ownIdentity : Bool := false

/-- A component with its purl in canonical form, when it has one. -/
def canonicalized (component : Component) : Component :=
  if (parsePurl component.purl).complete then
    { component with purl := (parsePurl component.purl).value }
  else component

/-- `components`, `result` and `package_budget`. -/
structure ParseState where
  emitted : List Emission := []
  warnings : List Warning := []
  complete : Bool := true
  packageBudget : Nat

namespace ParseState

def warn (state : ParseState) (ecosystem : String) (code : WarningCode)
    (message : String) : ParseState :=
  { state with
    warnings := state.warnings ++
      [{ code := code, message := ecosystem ++ ": " ++ message,
         ecosystem := ecosystem }] }

def absorb (state : ParseState) (warnings : List Warning) : ParseState :=
  { state with warnings := state.warnings ++ warnings }

/-- The end of an emission: the purl is canonicalized, or kept with a
warning. -/
def emit (state : ParseState) (ecosystem : String) (component : Component)
    (ownIdentity : Bool) : ParseState :=
  let state :=
    if (parsePurl component.purl).complete then state
    else state.warn ecosystem .purlValidationFailed
      ("produced purl failed validation: " ++ component.purl)
  { state with
    emitted := state.emitted ++
      [{ component := canonicalized component, ownIdentity := ownIdentity }] }

/-- The entry that the package limit leaves out. -/
def reachLimit (state : ParseState) (ecosystem : String) (limit : Nat) :
    ParseState :=
  { state.warn ecosystem .entryLimitReached
      ("package limit " ++ toString limit ++
        " reached; remaining entries skipped") with
    complete := false }

end ParseState

/-- What the loop over the entries of a file leaves behind. -/
structure EntryLoop where
  state : ParseState
  limitReached : Bool := false
  skipped : List SkipReason := []

section Loops

variable (ecosystem : String) (limit : Nat)

/-- The loop over the entries of one file; nothing when the JSON library
throws. -/
def parseEntries :
    List Reading → ParseState → List SkipReason → Option EntryLoop
  | [], state, skipped => some { state := state, skipped := skipped }
  | reading :: entries, state, skipped =>
    let state := state.absorb reading.warnings
    match reading.outcome with
    | .ignored => parseEntries entries state skipped
    | .skipped reason => parseEntries entries state (skipped ++ [reason])
    | .thrown => none
    | .valid component? =>
      if state.packageBudget = 0 then
        some
          { state := state.reachLimit ecosystem limit
            limitReached := true
            skipped := skipped }
      else
        match component? with
        | none => none
        | some component =>
          parseEntries entries
            ({ state with
              packageBudget := state.packageBudget - 1 }.emit ecosystem
                component false) skipped

def parseManifest (manifest : Manifest) (state : ParseState) :
    Option ParseState :=
  let state := state.absorb manifest.warnings
  let state :=
    match manifest.ownIdentity with
    | some component => state.emit ecosystem component true
    | none => state
  (parseEntries ecosystem limit manifest.entries state []).map fun loop =>
    loop.state.absorb (manifest.summary loop.limitReached loop.skipped)

end Loops

/-- What tells one producer from another. -/
structure Producer where
  ecosystem : String
  /-- How the producer calls its files in the file-limit warning. -/
  fileKind : String
  accepts : FsPath → Bool
  /-- The files whose readable first part is parsed when they are too large. -/
  keepsFirstPart : FsPath → Bool
  /-- One file, by its path and its bytes. -/
  manifest : FsPath → List UInt8 → Manifest

def wholeLines (bytes : List UInt8) : List UInt8 :=
  (bytes.reverse.dropWhile (· ≠ '\n'.toUInt8)).reverse

section Run

variable (producer : Producer) (options : ParseOptions)
  (contents : FsPath → Option (List UInt8))

/-- The bytes of a file that are parsed; nothing for a file that is not. -/
def parsedBytes (path : FsPath) : Option (List UInt8) :=
  let fileRead := readFileBounded (contents path) options.maxFileBytes
  if !fileRead.readable then none
  else if fileRead.truncated then
    if producer.keepsFirstPart path then some (wholeLines fileRead.bytes)
    else none
  else some fileRead.bytes

/-- The warning about a file that is not parsed, or not as a whole. -/
def readWarnings (path : FsPath) : List Warning :=
  let fileRead := readFileBounded (contents path) options.maxFileBytes
  let warning (code : WarningCode) (message : String) : Warning :=
    { code := code
      message := producer.ecosystem ++ ": " ++ message ++ path.genericString
      ecosystem := producer.ecosystem }
  if !fileRead.readable then
    [warning .unreadableFile "unreadable file: "]
  else if fileRead.truncated then
    if producer.keepsFirstPart path then
      [warning .fileSizeLimitExceeded
        "file exceeds size limit, parsing first part only: "]
    else
      [warning .fileSizeLimitExceeded "file exceeds size limit, skipped: "]
  else []

def parseFile (path : FsPath) (state : ParseState) : Option ParseState :=
  let state := state.absorb (readWarnings producer options contents path)
  match parsedBytes producer options contents path with
  | none => some state
  | some bytes =>
    parseManifest producer.ecosystem options.maxTotalPackages
      (producer.manifest path bytes) state

/-- The loop over the files of the index. -/
def parseFiles : List FsPath → (scannedFileCount : Nat) → ParseState →
    Option ParseState
  | [], _, state => some state
  | path :: paths, scannedFileCount, state =>
    if !producer.accepts path then parseFiles paths scannedFileCount state
    else if options.maxScannedFiles ≤ scannedFileCount then
      some (state.warn producer.ecosystem .fileLimitReached
        ("file limit reached; remaining " ++ producer.fileKind ++
          " files skipped"))
    -- An entry left out before has proved that the limit is exhausted.
    else if state.packageBudget = 0 && !state.complete then some state
    else
      (parseFile producer options contents path state).bind
        (parseFiles paths (scannedFileCount + 1))

/-- `parse` before the merge, over the files of an index. -/
def parseUnmerged (files : List FsPath) : Option ParseState :=
  parseFiles producer options contents files 0
    { packageBudget := options.maxTotalPackages }

def parse (files : List FsPath) : Option (Result (List Component)) :=
  (parseUnmerged producer options contents files).map fun state =>
    { value := mergeAll (state.emitted.map Emission.component)
      warnings := state.warnings
      complete := state.complete }

end Run
end Bomwerk.Lockfiles
