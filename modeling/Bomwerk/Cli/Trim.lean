import Bomwerk.Observe.Signals
import Bomwerk.Output.Cyclonedx
import Bomwerk.Sbom.Read
import Bomwerk.Vuln.Cpe

/-!
# The trim command

`cli/observe_trim.cpp` and `cli/trim_command.cpp`: a build trace is applied to
the components of a document, and a document without the unused ones is
written.  What the command reads is its input: the document as the reader
returned it and the trace as it was parsed.
-/

namespace Bomwerk.Cli

open Bomwerk.Core Bomwerk.Support Bomwerk.Observe Bomwerk.Output Bomwerk.Sbom
open Bomwerk.Vuln

/-- `ObserveTraceApplication`, with the component list it leaves behind. -/
structure ObserveTraceApplication where
  components : List Component
  summary : UsedSetSummary := {}
  compileMap : CompileMap := {}
  linkMap : LinkMap := {}

/-- `apply_observe_trace`.  Nothing is judged by a trace without records. -/
def applyObserveTrace (fileSystem : FileSystem)
    (trace : Result (List TraceRecord)) (scanRoot : FsPath)
    (components : List Component) : Result ObserveTraceApplication :=
  let result : Result ObserveTraceApplication :=
    { value := { components := components }, warnings := trace.warnings }
  if !trace.complete || trace.value.isEmpty then
    { result with complete := false }
  else
    let componentRoots := componentRootsOf components
    let compileMap :=
      mapCompilesToRoots fileSystem trace.value scanRoot componentRoots
    let linkMap :=
      mapLinksToRoots fileSystem trace.value scanRoot componentRoots
    let result :=
      (result.absorb compileMap.warnings).absorb linkMap.warnings
    if !compileMap.complete || !linkMap.complete then
      { result with complete := false }
    else
      let merged := mergeLinkEvidence compileMap.value linkMap.value
      let (marked, summary) := markUsedInBuild components merged
      { result with
        value :=
          { components := marked
            summary := summary
            compileMap := merged
            linkMap := linkMap.value } }

/-- The exit codes of `core/exit_codes.hpp` a rewriting command ends with. -/
inductive ExitCode
  | clean
  | completedWithWarnings
  | incomplete
  deriving DecidableEq, Repr

/-- How a rewriting command ended and the document it wrote, if it wrote one. -/
structure CommandRun where
  exitCode : ExitCode
  warnings : List Warning
  written : Option JsonText

/-- A run that ends at its first unusable input. -/
def refused (warnings : List Warning) : CommandRun where
  exitCode := .incomplete
  warnings := warnings
  written := none

def finished (warnings : List Warning) (written : Option JsonText) :
    CommandRun where
  exitCode := if warnings.isEmpty then .clean else .completedWithWarnings
  warnings := warnings
  written := written

/-- The options both rewriting commands share. -/
structure RewriteOptions where
  rootDirectory : FsPath
  /-- `--output` was given. -/
  writesOutput : Bool
  allCpes : Bool
  deriving DecidableEq

def RewriteOptions.cpeScope (options : RewriteOptions) : CpePopulationScope :=
  if options.allCpes then .allVersioned else .unmappedOnly

/-- `version()`. -/
def bomwerkTool (version : String) : ToolInfo where
  name := "bomwerk"
  version := version

/-- The product identity both commands carry over. -/
def releaseMetaOf (document : SbomDocument) : ReleaseMeta where
  productId := document.productId
  version := document.productVersion

def noRootedComponentsExplanation : String :=
  "no component in this SBOM records where it lives in the repository, so a " ++
    "compile trace has nothing to attribute compiles to. Only vendored " ++
    "source and git submodules carry a location; components read from a " ++
    "lockfile (npm, conan, vcpkg, ...) never can."

/-- The components with the verdict of the trace, before any is dropped. -/
def judgedComponents (fileSystem : FileSystem) (options : RewriteOptions)
    (document : SbomDocument) (trace : Result (List TraceRecord)) :
    Result ObserveTraceApplication :=
  applyObserveTrace fileSystem trace options.rootDirectory
    (populateCpeIdentifiers document.components options.cpeScope)

/-- The components of the trimmed document. -/
def keptComponents (components : List Component) : List Component :=
  components.filter Component.usedInBuild

/-- `run_trim`, without its console listing and HTML report. -/
def runTrim (environment : WriterEnvironment) (version : String)
    (fileSystem : FileSystem) (options : RewriteOptions)
    (document : Result SbomDocument) (trace : Result (List TraceRecord)) :
    CommandRun :=
  if options.allCpes && !options.writesOutput then refused []
  else if document.value.components.isEmpty then refused document.warnings
  else
    let application :=
      judgedComponents fileSystem options document.value trace
    let warnings := document.warnings ++ application.warnings
    if !application.complete then refused warnings
    else
      let warnings :=
        if application.value.summary.judged = 0 then
          warnings ++
            [{ code := .observeNoRootedComponents
               message := noRootedComponentsExplanation }]
        else warnings
      finished warnings
        (if options.writesOutput then
          some (writeCyclonedx environment
            (keptComponents application.value.components)
            (bomwerkTool version) (releaseMetaOf document.value) {})
        else none)

end Bomwerk.Cli
