import Bomwerk.Core.Component
import Bomwerk.Core.Warning
import Bomwerk.Observe.Trace
import Bomwerk.Support.Tally

/-!
# Compiles mapped onto component roots

`observe/compile_map.cpp`: the argument scan of a compile line, the loop over a
trace that attributes sources and include directories to component roots, and
the verdict it leads to.
-/

namespace Bomwerk.Observe

open Bomwerk.Core Bomwerk.Support

def sourceFileExtensions : List String :=
  [".c", ".cc", ".cpp", ".cxx", ".c++", ".m", ".mm", ".s"]

def includePathOptions : List String :=
  ["-I", "-isystem", "-iquote", "-idirafter"]

def optionsConsumingNextArgument : List String :=
  ["-o", "-include", "-imacros", "-D", "-U", "-L", "-l", "-MF", "-MT", "-MQ",
    "-x", "--sysroot", "-isysroot", "-Xclang", "-Xlinker", "-Xpreprocessor",
    "-T", "-u", "-e", "-arch", "-framework"]

structure CompileLine where
  sourceArguments : List String := []
  includePathArguments : List String := []
  responseFileCount : Nat := 0
  deriving DecidableEq, Repr

def hasSourceFileExtension (argument : String) : Bool :=
  sourceFileExtensions.contains
    (toLowerAscii (FsPath.ofString argument).extension)

/-- The value of an option in either spelling, and whether it was the following
argument. -/
def optionValue (option argument nextArgument : String) :
    Option (String × Bool) :=
  if argument = option then some (nextArgument, true)
  else if startsWith argument option then
    some (String.ofList (argument.toList.drop option.length), false)
  else none

/-- `include_path_value`, with `consumed_next`. -/
def includePathValue (argument nextArgument : String) : String × Bool :=
  (includePathOptions.findSome? fun option =>
    optionValue option argument nextArgument).getD ("", false)

/-- The loop of `scan_compile_line`. -/
def scanCompileArguments : List String → CompileLine → CompileLine
  | [], line => line
  | argument :: rest, line =>
    if argument = "" ∨ argument = "-" then scanCompileArguments rest line
    else if isResponseFile argument then
      scanCompileArguments rest
        { line with responseFileCount := line.responseFileCount + 1 }
    else if isOperand argument then
      scanCompileArguments rest
        (if hasSourceFileExtension argument then
          { line with
            sourceArguments := line.sourceArguments ++ [argument] }
        else line)
    else
      let value := includePathValue argument (rest.head?.getD "")
      let line :=
        if value.1 ≠ "" then
          { line with
            includePathArguments := line.includePathArguments ++ [value.1] }
        else line
      if value.2 || optionsConsumingNextArgument.contains argument then
        match rest with
        | [] => line
        | _ :: rest => scanCompileArguments rest line
      else scanCompileArguments rest line

def scanCompileLine (record : TraceRecord) : CompileLine :=
  scanCompileArguments (record.arguments.drop 1) {}

/-- `UsageSignal`, weakest first. -/
inductive UsageSignal
  | none
  | includePath
  | linked
  | compiledSource
  deriving DecidableEq, Repr

/-- The position of a signal in its enumeration. -/
def UsageSignal.rank : UsageSignal → Nat
  | none => 0
  | includePath => 1
  | linked => 2
  | compiledSource => 3

theorem UsageSignal.rank_injective : Function.Injective UsageSignal.rank := by
  intro a b h
  cases a <;> cases b <;> simp_all [UsageSignal.rank]

instance : LinearOrder UsageSignal :=
  LinearOrder.lift' UsageSignal.rank UsageSignal.rank_injective

instance : OrderBot UsageSignal where
  bot := .none
  bot_le _ := Nat.zero_le _

structure ComponentUsage where
  root : FsPath := .empty
  signal : UsageSignal := .none
  compiledSourceCount : Nat := 0
  includePathCount : Nat := 0
  linkedInputCount : Nat := 0
  firstCompiledSource : FsPath := .empty
  firstIncludePath : FsPath := .empty
  firstLinkedInput : FsPath := .empty
  deriving DecidableEq

abbrev UsageByRoot := OrderedMap FsPath ComponentUsage

/-- The usage of every root that is asked about, before any record. -/
def initialUsage (componentRoots : OrderedSet FsPath) : UsageByRoot :=
  componentRoots.toList.foldl
    (fun usage root => usage.insert root { root := root }) ∅

def keepLowest (kept candidate : FsPath) : FsPath :=
  if kept.isEmpty || candidate < kept then candidate else kept

def firstPath (paths : OrderedSet FsPath) : FsPath :=
  paths.min?.getD .empty

/-! ## The loop over the records -/

structure CompileMap where
  usageByRoot : UsageByRoot := ∅
  compiledSources : OrderedSet FsPath := ∅
  compileInvocations : Nat := 0
  outOfTreeSources : Nat := 0
  unexpandedResponseFiles : Nat := 0

/-- What the loop keeps besides the map it returns. -/
structure CompileScan where
  usageByRoot : UsageByRoot
  compiledSources : OrderedSet FsPath := ∅
  compileInvocations : Nat := 0
  unexpandedResponseFiles : Nat := 0
  sourcesByRoot : OrderedMap FsPath (OrderedSet FsPath) := ∅
  outOfTreeSources : OrderedSet FsPath := ∅

/-- What a compiler's record makes the loop do, one argument at a time. -/
inductive CompileEvent
  | compileInvocation
  | responseFiles (count : Nat)
  | source (absoluteSource : FsPath)
  | includePath (absoluteInclude : FsPath)
  deriving DecidableEq

/-- The body of the loop, up to what it does to the state.  A link-mode record
is no compile invocation, but its arguments are scanned all the same. -/
def compileEvents (fileSystem : FileSystem) (record : TraceRecord) :
    List CompileEvent :=
  if !isCompilerToolName record.tool then []
  else
    let line := scanCompileLine record
    let workingDirectory := recordDirectory fileSystem record
    (if isLinkModeInvocation record then [] else [.compileInvocation]) ++
      [.responseFiles line.responseFileCount] ++
      line.sourceArguments.map (fun argument =>
        .source (resolveFileArgument fileSystem workingDirectory argument)) ++
      line.includePathArguments.map fun argument =>
        .includePath
          (resolveDirectoryArgument fileSystem workingDirectory argument)

section Loop

variable (canonicalRoot : FsPath) (componentRoots : OrderedSet FsPath)

def CompileScan.addSource (scan : CompileScan) (absoluteSource : FsPath) :
    CompileScan :=
  match toRootRelative absoluteSource canonicalRoot with
  | none =>
    { scan with
      outOfTreeSources := scan.outOfTreeSources.insert absoluteSource }
  | some relativeSource =>
    { scan with
      compiledSources := scan.compiledSources.insert relativeSource
      sourcesByRoot :=
        match enclosingRoot relativeSource.parentPath componentRoots with
        | some root =>
          updateAt scan.sourcesByRoot root fun sources =>
            (sources.getD ∅).insert relativeSource
        | none => scan.sourcesByRoot }

/-- One more include directory of a root. -/
def ComponentUsage.addIncludePath (relativeInclude : FsPath)
    (usage : ComponentUsage) : ComponentUsage :=
  { usage with
    includePathCount := usage.includePathCount + 1
    firstIncludePath := keepLowest usage.firstIncludePath relativeInclude
    signal := max usage.signal .includePath }

def CompileScan.addIncludePath (scan : CompileScan)
    (absoluteInclude : FsPath) : CompileScan :=
  match toRootRelative absoluteInclude canonicalRoot with
  | none => scan
  | some relativeInclude =>
    match enclosingRoot relativeInclude componentRoots with
    | some root =>
      { scan with
        usageByRoot :=
          updateAt scan.usageByRoot root fun usage =>
            (usage.getD {}).addIncludePath relativeInclude }
    | none => scan

def CompileScan.apply (scan : CompileScan) : CompileEvent → CompileScan
  | .compileInvocation =>
    { scan with compileInvocations := scan.compileInvocations + 1 }
  | .responseFiles count =>
    { scan with
      unexpandedResponseFiles := scan.unexpandedResponseFiles + count }
  | .source absoluteSource =>
    scan.addSource canonicalRoot componentRoots absoluteSource
  | .includePath absoluteInclude =>
    scan.addIncludePath canonicalRoot componentRoots absoluteInclude

end Loop

def compileScan (fileSystem : FileSystem) (records : List TraceRecord)
    (scanRoot : FsPath) (componentRoots : OrderedSet FsPath) : CompileScan :=
  accumulate (compileEvents fileSystem)
    (CompileScan.apply (fileSystem.canonical scanRoot) componentRoots)
    { usageByRoot := initialUsage componentRoots } records

def ComponentUsage.withSources (sources : OrderedSet FsPath)
    (usage : ComponentUsage) : ComponentUsage :=
  if sources.isEmpty then { usage with compiledSourceCount := sources.size }
  else
    { usage with
      compiledSourceCount := sources.size
      firstCompiledSource := firstPath sources
      signal := max usage.signal .compiledSource }

/-- What the code after the loop returns. -/
def CompileScan.toMap (scan : CompileScan) : CompileMap where
  usageByRoot :=
    scan.sourcesByRoot.toList.foldl
      (fun usage entry =>
        updateAt usage entry.1 fun kept =>
          (kept.getD {}).withSources entry.2) scan.usageByRoot
  compiledSources := scan.compiledSources
  compileInvocations := scan.compileInvocations
  outOfTreeSources := scan.outOfTreeSources.size
  unexpandedResponseFiles := scan.unexpandedResponseFiles

/-- The map with the warnings about what it could not show. -/
def compileResult (map : CompileMap) (scanRoot : FsPath) : Result CompileMap :=
  let result : Result CompileMap := { value := map }
  let result := result.warnIf
    (map.compileInvocations = 0 && map.compiledSources.isEmpty)
    .observeNoCompilerInvocations
    ("the trace holds no compiler invocations naming a source file, so no " ++
      "component's compiled-source or include-path evidence can be produced " ++
      "from it; link evidence, if any, is judged separately. Record the " ++
      "build with `bomwerk observe` first, and configure it under observe " ++
      "too if it is a CMake tree")
  let result := result.warnIf
    (0 < map.compileInvocations && map.compiledSources.isEmpty &&
      0 < map.outOfTreeSources)
    .observeEvidenceOutsideRoot
    ("every compiled source lies outside " ++ scanRoot.genericString ++
      ", so no component there can be shown to be used. The trace was " ++
      "almost certainly recorded against a different directory: point " ++
      "--root at the repository this SBOM describes")
  result.warnIf (0 < map.unexpandedResponseFiles)
    .observeResponseFilesUnexpanded
    (toString map.unexpandedResponseFiles ++
      " compile argument(s) were response files (@file), which bomwerk does " ++
      "not open; a component whose sources appear only inside one may be " ++
      "reported unused")

def mapCompilesToRoots (fileSystem : FileSystem) (records : List TraceRecord)
    (scanRoot : FsPath) (componentRoots : OrderedSet FsPath) :
    Result CompileMap :=
  compileResult
    (compileScan fileSystem records scanRoot componentRoots).toMap scanRoot

def componentRootsOf (components : List Component) : OrderedSet FsPath :=
  components.foldl
    (fun roots component =>
      let normalizedRoot := component.root.normalizedSubtreePath
      if normalizedRoot.isEmpty then roots else roots.insert normalizedRoot) ∅

def compiledSourceDetail (usage : ComponentUsage) : String :=
  "observed build: " ++ toString usage.compiledSourceCount ++
    " source file(s) compiled under " ++ usage.root.genericString ++
    " (e.g. " ++ usage.firstCompiledSource.genericString ++ ")"

def includePathDetail (usage : ComponentUsage) : String :=
  "observed build: no source compiled, but " ++
    toString usage.includePathCount ++ " compile line(s) added " ++
    usage.firstIncludePath.genericString ++ " to the include search path"

def linkedInputDetail (usage : ComponentUsage) : String :=
  "observed build: no source compiled, but " ++
    toString usage.linkedInputCount ++ " link input(s) resolved under " ++
    usage.root.genericString ++ " (e.g. " ++
    usage.firstLinkedInput.genericString ++ ")"

/-- The evidence a used component gains; nothing without a signal. -/
def usageEvidence (usage : ComponentUsage) : Option Evidence :=
  match usage.signal with
  | .none => none
  | .compiledSource =>
    some ⟨.observedBuild, compiledSourceDetail usage, .high⟩
  | .linked => some ⟨.observedBuild, linkedInputDetail usage, .high⟩
  | .includePath => some ⟨.observedBuild, includePathDetail usage, .medium⟩

/-- The body of the loop of `mark_used_in_build`. -/
def markComponent (map : CompileMap) (component : Component) : Component :=
  let normalizedRoot := component.root.normalizedSubtreePath
  if normalizedRoot.isEmpty then component
  else
    match usageEvidence (map.usageByRoot[normalizedRoot]?.getD {}) with
    | none => { component with usedInBuild := false }
    | some evidence =>
      { component with
        usedInBuild := true
        evidence := component.evidence ++ [evidence] }

structure UsedSetSummary where
  judged : Nat := 0
  used : Nat := 0
  unused : Nat := 0
  notJudgeable : Nat := 0
  deriving DecidableEq, Repr

def UsedSetSummary.add (summary : UsedSetSummary) (marked : Component) :
    UsedSetSummary :=
  if marked.root.normalizedSubtreePath.isEmpty then
    { summary with notJudgeable := summary.notJudgeable + 1 }
  else if marked.usedInBuild then
    { summary with judged := summary.judged + 1, used := summary.used + 1 }
  else
    { summary with judged := summary.judged + 1, unused := summary.unused + 1 }

def markUsedInBuild (components : List Component) (map : CompileMap) :
    List Component × UsedSetSummary :=
  let marked := components.map (markComponent map)
  (marked, marked.foldl UsedSetSummary.add {})

end Bomwerk.Observe
