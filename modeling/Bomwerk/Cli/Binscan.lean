import Bomwerk.Binscan.SharedObjectIndex
import Bomwerk.Cli.Trim

/-!
# The binscan command

`cli/binscan_command.cpp`: what the binaries of a build prove is added to the
components of a document, and the enriched document is written.  Reading the
binaries themselves is a parameter: it takes the artifact paths, the scan root
and the component roots, and returns what was found under each root.
-/

namespace Bomwerk.Cli

open Bomwerk.Core Bomwerk.Support Bomwerk.Observe Bomwerk.Output Bomwerk.Sbom
open Bomwerk.Vuln Bomwerk.Binscan

/-- The signature of `map_binaries_to_roots`. -/
abbrev BinaryMapper :=
  List FsPath → FsPath → OrderedSet FsPath → Result BinaryMap

def noArtifactsExplanation : String :=
  "this trace names no build output bomwerk can open. `binscan` reads the " ++
    "files a build WROTE, so the build tree must still exist; re-record " ++
    "with `bomwerk observe -- <build command>` if it was cleaned."

/-- `kNoRootedComponentsExplanation` of `binscan`. -/
def noRootedBinariesExplanation : String :=
  "no component in this SBOM records where it lives in the repository, so a " ++
    "binary has nothing to be attributed to. Only vendored source and git " ++
    "submodules carry a location; components read from a lockfile (npm, " ++
    "conan, vcpkg, ...) never can."

/-- The components of a document before any evidence is added. -/
def populatedComponents (options : RewriteOptions) (document : SbomDocument) :
    List Component :=
  populateCpeIdentifiers document.components options.cpeScope

/-- What the binaries of a recorded build proved. -/
def readBinaries (fileSystem : FileSystem)
    (mapBinariesToRoots : BinaryMapper) (options : RewriteOptions)
    (document : SbomDocument) (records : List TraceRecord) :
    Result BinaryMap :=
  mapBinariesToRoots
    (collectBuildArtifacts fileSystem records
      options.rootDirectory).value.allPaths
    options.rootDirectory
    (componentRootsOf (populatedComponents options document))

/-- `run_binscan`, without its console listing and sidecar. -/
def runBinscan (environment : WriterEnvironment) (version : String)
    (fileSystem : FileSystem) (mapBinariesToRoots : BinaryMapper)
    (options : RewriteOptions) (document : Result SbomDocument)
    (trace : Result (List TraceRecord)) : CommandRun :=
  if options.allCpes && !options.writesOutput then refused []
  else if document.value.components.isEmpty then refused document.warnings
  else if trace.value.isEmpty then
    refused (document.warnings ++ trace.warnings)
  else
    let components := populatedComponents options document.value
    let artifacts :=
      collectBuildArtifacts fileSystem trace.value options.rootDirectory
    let binaries :=
      readBinaries fileSystem mapBinariesToRoots options document.value
        trace.value
    let warnings :=
      document.warnings ++ trace.warnings ++ artifacts.warnings ++
        binaries.warnings
    let warnings :=
      if artifacts.value.allPaths.isEmpty then
        warnings ++
          [{ code := .binaryEvidenceLimited
             message := noArtifactsExplanation }]
      else warnings
    let warnings :=
      if (componentRootsOf components).isEmpty then
        warnings ++
          [{ code := .observeNoRootedComponents
             message := noRootedBinariesExplanation }]
      else warnings
    finished warnings
      (if options.writesOutput then
        some (writeCyclonedx environment
          (applyBinaryEvidence components binaries.value).1
          (bomwerkTool version) (releaseMetaOf document.value) {})
      else none)

end Bomwerk.Cli
