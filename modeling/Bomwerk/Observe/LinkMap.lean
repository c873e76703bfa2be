import Bomwerk.Observe.CompileMap
import Mathlib.Data.List.Sort

/-!
# Links mapped onto component roots

`observe/link_map.cpp`: the argument scan of a link line, the loop over a trace
that attributes link inputs to component roots, the files a build wrote or
consumed, and the merge of link evidence into the compile map.
-/

namespace Bomwerk.Observe

open Bomwerk.Core Bomwerk.Support

/-! ## The argument scan -/

def linkOptionsConsumingNextArgument : List String :=
  ["-o", "-T", "--script", "-soname", "-h", "--soname", "-dynamic-linker",
    "-rpath", "--rpath", "-e", "-u"]

structure LinkInput where
  argument : String
  insideWholeArchive : Bool := false
  deriving DecidableEq, Repr

structure LinkName where
  name : String
  insideWholeArchive : Bool := false
  deriving DecidableEq, Repr

structure LinkLine where
  directInputs : List LinkInput := []
  namedLibraries : List LinkName := []
  searchDirectories : List String := []
  responseFileCount : Nat := 0
  mapFile : Option FsPath := none
  outputPath : Option FsPath := none
  deriving DecidableEq

def isAllDigits (text : List Char) : Bool :=
  !text.isEmpty && text.all fun c => '0' ≤ c ∧ c ≤ '9'

/-- The loop of `has_versioned_shared_object_extension`. -/
def sharedObjectBehindVersions : Nat → FsPath → Bool
  | 0, _ => false
  | fuel + 1, candidate =>
    let extension := toLowerAscii candidate.extension
    if extension = ".so" then true
    else if extension.length ≤ 1 || !isAllDigits (extension.toList.drop 1) then
      false
    else sharedObjectBehindVersions fuel (FsPath.ofString candidate.stem)

/-- `has_versioned_shared_object_extension`: up to three version segments. -/
def hasVersionedSharedObjectExtension (candidate : FsPath) : Bool :=
  sharedObjectBehindVersions 4 candidate

def hasLinkInputExtension (argument : String) : Bool :=
  let path := FsPath.ofString argument
  [".o", ".a"].contains (toLowerAscii path.extension) ||
    hasVersionedSharedObjectExtension path

/-- `map_file_value`, with `consumed_next`. -/
def mapFileValue (token nextToken : String) : Option (String × Bool) :=
  if startsWith token "-Map=" then
    some (String.ofList (token.toList.drop 5), false)
  else if token = "-Map" ∧ nextToken ≠ "" then some (nextToken, true)
  else none

/-- `output_path_value`, with `consumed_next`. -/
def outputPathValue (token nextToken : String) : Option (String × Bool) :=
  if startsWith token "--output=" then
    some (String.ofList (token.toList.drop 9), false)
  else if (token = "-o" ∨ token = "--output") ∧ nextToken ≠ "" then
    some (nextToken, true)
  else if token ≠ "-o" ∧ startsWith token "-o" ∧
      !startsWith token "-oformat" then
    some (String.ofList (token.toList.drop 2), false)
  else none

/-- `search_directory_value` and `library_name_value`: an option with a value
that is not empty, with `consumed_next`. -/
def namedValue (option token nextToken : String) : Option (String × Bool) :=
  (optionValue option token nextToken).filter (·.1 ≠ "")

/-- The pieces of a `-Wl,` argument. -/
def wlSegments (argument : String) : List String :=
  (((argument.toList.drop 4).splitOn ',').filter (· ≠ [])).map String.ofList

/-- The loop of `flatten_linker_tokens`. -/
def flattenLinkerArguments : List String → List String
  | [] => []
  | argument :: rest =>
    if argument = "-Xlinker" then
      match rest with
      | [] => []
      | token :: rest => token :: flattenLinkerArguments rest
    else if startsWith argument "-Wl," then
      wlSegments argument ++ flattenLinkerArguments rest
    else argument :: flattenLinkerArguments rest

def flattenLinkerTokens (record : TraceRecord) : List String :=
  flattenLinkerArguments (record.arguments.drop 1)

/-- What one token of a link line is, with whether its value was the following
token. -/
inductive LinkToken
  | nothing
  | wholeArchive (inside : Bool)
  | responseFile
  | output (value : String)
  | map (value : String)
  | searchDirectory (value : String)
  | library (name : String)
  | input
  deriving DecidableEq, Repr

/-- The tests of the loop of `scan_link_tokens`, in order. -/
def classifyLinkToken (token nextToken : String) : LinkToken × Bool :=
  if token = "" then (.nothing, false)
  else if token = "--whole-archive" then (.wholeArchive true, false)
  else if token = "--no-whole-archive" then (.wholeArchive false, false)
  else if isResponseFile token then (.responseFile, false)
  else
    match outputPathValue token nextToken with
    | some (value, consumed) => (.output value, consumed)
    | none =>
    match mapFileValue token nextToken with
    | some (value, consumed) => (.map value, consumed)
    | none =>
    match namedValue "-L" token nextToken with
    | some (value, consumed) => (.searchDirectory value, consumed)
    | none =>
    match namedValue "-l" token nextToken with
    | some (name, consumed) => (.library name, consumed)
    | none =>
    if isOperand token then
      (if hasLinkInputExtension token then .input else .nothing, false)
    else (.nothing, linkOptionsConsumingNextArgument.contains token)

/-- What a token adds to the line.  The first output and the first map file
win. -/
def LinkLine.add (line : LinkLine) (insideWholeArchive : Bool)
    (token : String) : LinkToken → LinkLine
  | .nothing => line
  | .wholeArchive _ => line
  | .responseFile =>
    { line with responseFileCount := line.responseFileCount + 1 }
  | .output value =>
    { line with outputPath := line.outputPath <|> some (.ofString value) }
  | .map value =>
    { line with mapFile := line.mapFile <|> some (.ofString value) }
  | .searchDirectory value =>
    { line with searchDirectories := line.searchDirectories ++ [value] }
  | .library name =>
    { line with
      namedLibraries := line.namedLibraries ++ [⟨name, insideWholeArchive⟩] }
  | .input =>
    { line with
      directInputs := line.directInputs ++ [⟨token, insideWholeArchive⟩] }

/-- The region a `--whole-archive` bracket leaves open behind a token. -/
def wholeArchiveAfter (insideWholeArchive : Bool) : LinkToken → Bool
  | .wholeArchive inside => inside
  | _ => insideWholeArchive

/-- The loop of `scan_link_tokens`. -/
def scanLinkTokensFrom : List String → Bool → LinkLine → LinkLine
  | [], _, line => line
  | token :: rest, insideWholeArchive, line =>
    let (kind, consumed) := classifyLinkToken token (rest.head?.getD "")
    let line := line.add insideWholeArchive token kind
    let insideWholeArchive := wholeArchiveAfter insideWholeArchive kind
    if consumed then
      match rest with
      | [] => line
      | _ :: rest => scanLinkTokensFrom rest insideWholeArchive line
    else scanLinkTokensFrom rest insideWholeArchive line

def scanLinkTokens (tokens : List String) : LinkLine :=
  scanLinkTokensFrom tokens false {}

def scanLinkLine (record : TraceRecord) : LinkLine :=
  scanLinkTokens (flattenLinkerTokens record)

/-! ## The loop over the records -/

structure LinkMap where
  usageByRoot : UsageByRoot := ∅
  linkInvocations : Nat := 0
  unresolvedLibraryNames : Nat := 0
  unexpandedResponseFiles : Nat := 0

/-- What the loop keeps. -/
structure LinkScan where
  linkInvocations : Nat := 0
  unresolvedLibraryNames : Nat := 0
  unexpandedResponseFiles : Nat := 0
  linkedInputsByRoot : OrderedMap FsPath (OrderedSet FsPath) := ∅

/-- What a link-mode record makes the loop do. -/
inductive LinkEvent
  | linkInvocation
  | responseFiles (count : Nat)
  | linkedInput (absoluteInput : FsPath)
  | unresolvedLibrary
  deriving DecidableEq

/-- `resolve_library_name`: directories in order, shared objects first. -/
def resolveLibraryName (fileSystem : FileSystem) (name : String)
    (searchDirectories : List FsPath) : Option FsPath :=
  searchDirectories.findSome? fun directory =>
    ([".so", ".a"].map fun suffix =>
      directory.append (FsPath.ofString ("lib" ++ name ++ suffix))).find?
        fileSystem.fileExists

/-- What a `-l` argument leads to; nothing on a line without `-L`. -/
def libraryEvents (fileSystem : FileSystem) (searchDirectories : List FsPath)
    (library : LinkName) : List LinkEvent :=
  if searchDirectories.isEmpty then []
  else
    match resolveLibraryName fileSystem library.name searchDirectories with
    | none => [.unresolvedLibrary]
    | some resolved => [.linkedInput resolved]

/-- The body of the loop, up to what it does to the state. -/
def linkEvents (fileSystem : FileSystem) (record : TraceRecord) :
    List LinkEvent :=
  if !isLinkModeInvocation record then []
  else
    let line := scanLinkLine record
    let workingDirectory := recordDirectory fileSystem record
    let searchDirectories := line.searchDirectories.map
      (resolveDirectoryArgument fileSystem workingDirectory)
    [.linkInvocation, .responseFiles line.responseFileCount] ++
      line.directInputs.map (fun input =>
        .linkedInput
          (resolveFileArgument fileSystem workingDirectory input.argument)) ++
      line.namedLibraries.flatMap (libraryEvents fileSystem searchDirectories)

section Loop

variable (canonicalRoot : FsPath) (componentRoots : OrderedSet FsPath)

def LinkScan.attributeLinkInput (scan : LinkScan) (absoluteInput : FsPath) :
    LinkScan :=
  match toRootRelative absoluteInput canonicalRoot with
  | none => scan
  | some relativeInput =>
    match enclosingRoot relativeInput.parentPath componentRoots with
    | some root =>
      { scan with
        linkedInputsByRoot :=
          updateAt scan.linkedInputsByRoot root fun inputs =>
            (inputs.getD ∅).insert relativeInput }
    | none => scan

def LinkScan.apply (scan : LinkScan) : LinkEvent → LinkScan
  | .linkInvocation =>
    { scan with linkInvocations := scan.linkInvocations + 1 }
  | .responseFiles count =>
    { scan with
      unexpandedResponseFiles := scan.unexpandedResponseFiles + count }
  | .unresolvedLibrary =>
    { scan with unresolvedLibraryNames := scan.unresolvedLibraryNames + 1 }
  | .linkedInput absoluteInput =>
    scan.attributeLinkInput canonicalRoot componentRoots absoluteInput

end Loop

def linkScan (fileSystem : FileSystem) (records : List TraceRecord)
    (scanRoot : FsPath) (componentRoots : OrderedSet FsPath) : LinkScan :=
  accumulate (linkEvents fileSystem)
    (LinkScan.apply (fileSystem.canonical scanRoot) componentRoots) {} records

def ComponentUsage.withLinkedInputs (inputs : OrderedSet FsPath)
    (usage : ComponentUsage) : ComponentUsage :=
  if inputs.isEmpty then { usage with linkedInputCount := inputs.size }
  else
    { usage with
      linkedInputCount := inputs.size
      firstLinkedInput := firstPath inputs
      signal := max usage.signal .linked }

/-- What the code after the loop returns. -/
def LinkScan.toMap (componentRoots : OrderedSet FsPath) (scan : LinkScan) :
    LinkMap where
  usageByRoot :=
    scan.linkedInputsByRoot.toList.foldl
      (fun usage entry =>
        updateAt usage entry.1 fun kept =>
          (kept.getD {}).withLinkedInputs entry.2)
      (initialUsage componentRoots)
  linkInvocations := scan.linkInvocations
  unresolvedLibraryNames := scan.unresolvedLibraryNames
  unexpandedResponseFiles := scan.unexpandedResponseFiles

/-- The map with the warnings about what it could not show. -/
def linkResult (map : LinkMap) : Result LinkMap :=
  let result : Result LinkMap := { value := map }
  let result := result.warnIf (0 < map.unresolvedLibraryNames)
    .observeUnresolvedLinkArgument
    (toString map.unresolvedLibraryNames ++
      " -l<name> argument(s) did not resolve to a file in any -L directory " ++
      "seen on the same link line; a component supplied only that way may " ++
      "be reported unused")
  result.warnIf (0 < map.unexpandedResponseFiles)
    .observeResponseFilesUnexpanded
    (toString map.unexpandedResponseFiles ++
      " link argument(s) were response files (@file), which bomwerk does not " ++
      "open; a component whose link inputs appear only inside one may be " ++
      "reported unused")

def mapLinksToRoots (fileSystem : FileSystem) (records : List TraceRecord)
    (scanRoot : FsPath) (componentRoots : OrderedSet FsPath) :
    Result LinkMap :=
  linkResult
    ((linkScan fileSystem records scanRoot componentRoots).toMap componentRoots)

/-- The body of the loop of `merge_link_evidence`. -/
def ComponentUsage.mergeLink (usage : ComponentUsage) (root : FsPath)
    (linkUsage : ComponentUsage) : ComponentUsage :=
  { usage with
    root := root
    linkedInputCount := linkUsage.linkedInputCount
    firstLinkedInput := linkUsage.firstLinkedInput
    signal := max usage.signal linkUsage.signal }

def mergeLinkEvidence (compileMap : CompileMap) (linkMap : LinkMap) :
    CompileMap :=
  { compileMap with
    usageByRoot :=
      linkMap.usageByRoot.toList.foldl
        (fun usage entry =>
          updateAt usage entry.1 fun kept =>
            (kept.getD {}).mergeLink entry.1 entry.2)
        compileMap.usageByRoot }

/-! ## Build artifacts -/

/-- The options in front of the key letters of `ar`. -/
def archiveOperands : List String → List String
  | [] => []
  | argument :: rest =>
    if ["--plugin", "--target"].contains argument then
      match rest with
      | [] => []
      | _ :: rest => archiveOperands rest
    else if startsWith argument "--" then archiveOperands rest
    else argument :: rest

def archiveKeyLetters : List Char := "dmpqrstxMabcDfilNoPsSTuUvV".toList

def archiveKeysTakingOperand : List Char := "abiN".toList

def scanArchiveOutput (record : TraceRecord) : Option String :=
  match archiveOperands (record.arguments.drop 1) with
  | [] => none
  | keys :: operands =>
    let letters :=
      if startsWith keys "-" then keys.toList.drop 1 else keys.toList
    if letters.isEmpty ∨
        letters.any (fun key => !archiveKeyLetters.contains key || key = 'M')
        then none
    else operands[letters.countP archiveKeysTakingOperand.contains]?

def isArchiveOrSharedObject (argument : String) : Bool :=
  let path := FsPath.ofString argument
  toLowerAscii path.extension = ".a" || hasVersionedSharedObjectExtension path

structure BuildArtifacts where
  linkOutputs : OrderedSet FsPath := ∅
  archiveOutputs : OrderedSet FsPath := ∅
  linkedArchives : OrderedSet FsPath := ∅
  outOfTreeArtifacts : Nat := 0
  unexpandedResponseFiles : Nat := 0

def BuildArtifacts.allPaths (artifacts : BuildArtifacts) : List FsPath :=
  ((artifacts.linkOutputs.toList ++ artifacts.archiveOutputs.toList ++
    artifacts.linkedArchives.toList).insertionSort (· ≤ ·)).dedup

/-- What a record makes the loop of `collect_build_artifacts` do. -/
inductive ArtifactEvent
  | responseFiles (count : Nat)
  | archiveOutput (absolute : FsPath)
  | linkOutput (absolute : FsPath)
  | linkedArchive (absolute : FsPath)
  deriving DecidableEq

/-- The body of the loop, up to what it does to the state. -/
def artifactEvents (fileSystem : FileSystem) (record : TraceRecord) :
    List ArtifactEvent :=
  let workingDirectory := recordDirectory fileSystem record
  if record.tool = "ar" then
    (scanArchiveOutput record).toList.map fun archive =>
      .archiveOutput (resolveFileArgument fileSystem workingDirectory archive)
  else if !isLinkModeInvocation record then []
  else
    let line := scanLinkLine record
    [.responseFiles line.responseFileCount] ++
      line.outputPath.toList.map (fun output =>
        .linkOutput (resolveFileArgument fileSystem workingDirectory
          output.genericString)) ++
      (line.directInputs.filter fun input =>
          isArchiveOrSharedObject input.argument).map fun input =>
        .linkedArchive
          (resolveFileArgument fileSystem workingDirectory input.argument)

/-- The closure `record_artifact`, over the set it inserts into. -/
def BuildArtifacts.recordArtifact (canonicalRoot : FsPath)
    (artifacts : BuildArtifacts) (absolute : FsPath)
    (destination : FsPath → BuildArtifacts) : BuildArtifacts :=
  match toRootRelative absolute canonicalRoot with
  | none =>
    { artifacts with outOfTreeArtifacts := artifacts.outOfTreeArtifacts + 1 }
  | some relative => destination relative

def BuildArtifacts.apply (canonicalRoot : FsPath)
    (artifacts : BuildArtifacts) : ArtifactEvent → BuildArtifacts
  | .responseFiles count =>
    { artifacts with
      unexpandedResponseFiles := artifacts.unexpandedResponseFiles + count }
  | .archiveOutput absolute =>
    artifacts.recordArtifact canonicalRoot absolute fun relative =>
      { artifacts with
        archiveOutputs := artifacts.archiveOutputs.insert relative }
  | .linkOutput absolute =>
    artifacts.recordArtifact canonicalRoot absolute fun relative =>
      { artifacts with linkOutputs := artifacts.linkOutputs.insert relative }
  | .linkedArchive absolute =>
    artifacts.recordArtifact canonicalRoot absolute fun relative =>
      { artifacts with
        linkedArchives := artifacts.linkedArchives.insert relative }

def artifactScan (fileSystem : FileSystem) (records : List TraceRecord)
    (scanRoot : FsPath) : BuildArtifacts :=
  accumulate (artifactEvents fileSystem)
    (BuildArtifacts.apply (fileSystem.canonical scanRoot)) {} records

/-- The artifacts with the warnings about what was left out. -/
def artifactResult (artifacts : BuildArtifacts) (scanRoot : FsPath) :
    Result BuildArtifacts :=
  let result : Result BuildArtifacts := { value := artifacts }
  let result := result.warnIf (0 < artifacts.outOfTreeArtifacts)
    .observeEvidenceOutsideRoot
    (toString artifacts.outOfTreeArtifacts ++
      " build artifact(s) lie outside " ++ scanRoot.genericString ++
      "; bomwerk reads no binary evidence from them")
  result.warnIf (0 < artifacts.unexpandedResponseFiles)
    .observeResponseFilesUnexpanded
    (toString artifacts.unexpandedResponseFiles ++
      " link argument(s) were response files (@file), which bomwerk does not " ++
      "open; an output named only inside one is not scanned")

def collectBuildArtifacts (fileSystem : FileSystem)
    (records : List TraceRecord) (scanRoot : FsPath) : Result BuildArtifacts :=
  artifactResult (artifactScan fileSystem records scanRoot) scanRoot

end Bomwerk.Observe
