import Bomwerk.Core.Path
import Bomwerk.Core.Warning
import Mathlib.Data.List.Sort

/-!
# The file index

`core/file_index.cpp`, and the subtree lists of `core/scan_config.cpp` that
restrict it.  A directory tree is what a walk over it sees when no read fails;
a link to a directory is not entered and counts as neither file nor directory.
-/

namespace Bomwerk.Core

/-- A name that a directory lists. -/
structure EntryName where
  text : String
  valid : IsFileName text
  proper : text ≠ "." ∧ text ≠ ".."
  deriving DecidableEq

inductive Entry
  | regularFile
  | directory (entries : List (EntryName × Entry))
  | other

/-- A path of listed names, relative to the root of the walk. -/
def FsPath.ofEntryNames (chain : List EntryName) : FsPath where
  absolute := false
  names := chain.map EntryName.text
  trailing := false
  names_valid := by
    intro name hname
    obtain ⟨entry, -, rfl⟩ := List.mem_map.mp hname
    exact entry.valid
  trailing_names := by simp

namespace Entry

def isRegularFile : Entry → Bool
  | regularFile => true
  | _ => false

/-- What a directory lists; nothing for anything else. -/
def entries : Entry → List (EntryName × Entry)
  | directory entries => entries
  | _ => []

end Entry

mutual

/-- The regular files at and below an entry, each as the names that lead to
it. -/
def filesAt (chain : List EntryName) : Entry → List (List EntryName)
  | .regularFile => [chain]
  | .directory entries => filesBelow chain entries
  | .other => []

def filesBelow (chain : List EntryName) :
    List (EntryName × Entry) → List (List EntryName)
  | [] => []
  | (name, entry) :: entries =>
    filesAt (chain ++ [name]) entry ++ filesBelow chain entries

end

def regularFiles (tree : Entry) : List (List EntryName) :=
  filesBelow [] tree.entries

mutual

def directoryNamesAt (name : EntryName) : Entry → List EntryName
  | .directory entries => name :: directoryNamesBelow entries
  | .regularFile => []
  | .other => []

def directoryNamesBelow : List (EntryName × Entry) → List EntryName
  | [] => []
  | (name, entry) :: entries =>
    directoryNamesAt name entry ++ directoryNamesBelow entries

end

def directoryNames (tree : Entry) : List EntryName :=
  directoryNamesBelow tree.entries

def defaultExcludedDirNames : List String :=
  [".git", ".svn", ".hg", ".idea", ".vscode", "build", "cmake-build-debug",
    "cmake-build-release", "out", ".cache", "vcpkg_installed", "buildtrees",
    "downloads", "_deps"]

def collisionProneExcludedDirNames : List String :=
  ["build", "cmake-build-debug", "cmake-build-release", "out"]

def defaultManifestNames : List String :=
  [".gitmodules", "CMakeLists.txt", "conanfile.txt", "conanfile.py",
    "conan.lock", "vcpkg.json", "package-lock.json", "go.sum", "Cargo.lock",
    "requirements.txt", "pom.xml", "uv.lock", "poetry.lock",
    "gradle.lockfile", "packages.lock.json", "composer.lock", "composer.json",
    "Gemfile.lock", "yarn.lock", "pnpm-lock.yaml", "pubspec.lock",
    "packages.config", ".csproj", "Directory.Packages.props", "west.yml",
    "west.yaml"]

/-- A regular file with the name of a manifest. -/
def isManifest (listed : EntryName × Entry) : Bool :=
  listed.2.isRegularFile && defaultManifestNames.contains listed.1.text

def excludedDirectoryMayHideAManifest (entries : List (EntryName × Entry)) :
    Bool :=
  entries.any fun listed =>
    isManifest listed || listed.2.entries.any isManifest

/-- What an iteration over a path visits, its root directory first. -/
def FsPath.allElements (p : FsPath) : List String :=
  (if p.absolute then ["/"] else []) ++ p.elements

def pathIsWithin (candidate enclosing : FsPath) : Bool :=
  enclosing.allElements.isPrefixOf candidate.allElements

def directoryReachesInclude (relativeDir : FsPath)
    (includedSubtrees : List FsPath) : Bool :=
  includedSubtrees.any fun includedSubtree =>
    pathIsWithin includedSubtree relativeDir ||
      pathIsWithin relativeDir includedSubtree

def fileIsIncluded (relativePath : FsPath) (includedSubtrees : List FsPath) :
    Bool :=
  includedSubtrees.any fun includedSubtree =>
    pathIsWithin relativePath includedSubtree

def pathInScanScope (relativePath : FsPath)
    (excludedSubtrees includedSubtrees : List FsPath) : Bool :=
  if excludedSubtrees.any (pathIsWithin relativePath) then false
  else if includedSubtrees.isEmpty then true
  else fileIsIncluded relativePath includedSubtrees

/-- The arguments of `build_file_index`. -/
structure WalkOptions where
  root : FsPath
  excludedDirNames : List String
  excludedSubtrees : List FsPath
  includedSubtrees : List FsPath

/-- What a part of the walk collected. -/
structure Walked where
  files : List FsPath := []
  warnings : List Warning := []

def Walked.append (left right : Walked) : Walked where
  files := left.files ++ right.files
  warnings := left.warnings ++ right.warnings

section Walk

variable (options : WalkOptions)

/-- `entry_path.lexically_relative(root)`, for the entry behind these names. -/
def relativeEntryPath (chain : List EntryName) : FsPath :=
  (options.root.append (FsPath.ofEntryNames chain)).lexicallyRelative
    options.root

def hiddenManifestWarning (relativePath : FsPath) : Warning where
  code := .buildOutputDirectoryHoldsManifest
  message := "directory walk: skipped '" ++ relativePath.genericString ++
    "' as a build-output directory, but it holds a recognized manifest file " ++
    "within two levels: if this is real source rather than build output, " ++
    "rerun with -A/--all or configure [scan] include for this path"

def hasExcludedName (name : EntryName) : Bool :=
  options.excludedDirNames.contains name.text

/-- The directory is an excluded subtree or outside every included one. -/
def isPruned (chain : List EntryName) : Bool :=
  let relativeDir := (relativeEntryPath options chain).lexicallyNormal
  options.excludedSubtrees.contains relativeDir ||
    (!options.includedSubtrees.isEmpty &&
      !directoryReachesInclude relativeDir options.includedSubtrees)

mutual

/-- One turn of the loop of `build_file_index`, and the walk of what is below
the entry. -/
def walkEntry (parents : List EntryName) (name : EntryName) : Entry → Walked
  | .directory entries =>
    let chain := parents ++ [name]
    if hasExcludedName options name then
      { warnings :=
          if collisionProneExcludedDirNames.contains name.text &&
              excludedDirectoryMayHideAManifest entries then
            [hiddenManifestWarning (relativeEntryPath options chain)]
          else [] }
    else if isPruned options chain then {}
    else walkEntries chain entries
  | .regularFile =>
    let relativePath := relativeEntryPath options (parents ++ [name])
    if !options.includedSubtrees.isEmpty &&
        !fileIsIncluded relativePath options.includedSubtrees then {}
    else { files := [relativePath] }
  | .other => {}

def walkEntries (parents : List EntryName) :
    List (EntryName × Entry) → Walked
  | [] => {}
  | (name, entry) :: entries =>
    (walkEntry parents name entry).append (walkEntries parents entries)

end

/-- `build_file_index`; the value is the list of files. -/
def buildFileIndex (tree : Entry) : Result (List FsPath) :=
  let walked := walkEntries options [] tree.entries
  { value := walked.files.insertionSort (· ≤ ·), warnings := walked.warnings }

end Walk

/-- One turn of the loop of `read_subtree_array`. -/
def readSubtree (configPath : FsPath) (tableName key : String)
    (result : Result (List FsPath)) (entry : String) : Result (List FsPath) :=
  let normalized := (FsPath.ofString entry).normalizedSubtreePath
  let place := "scan config " ++ configPath.genericString ++ ": [" ++
    tableName ++ "]." ++ key ++ " entry \"" ++ entry
  if normalized = FsPath.dot then
    result.warn .configArrayEntryInvalid
      (place ++ "\" names the whole scanned tree, which this per-subtree " ++
        "filter can never match, ignored")
  else if !normalized.isContainedRelativePath then
    result.warn .configArrayEntryInvalid
      (place ++ "\" must be a relative path inside the repo (no absolute, " ++
        "no \"..\"), ignored")
  else { result with value := result.value ++ [normalized] }

/-- `read_subtree_array`, for the strings of the array. -/
def readSubtreeArray (configPath : FsPath) (tableName key : String)
    (entries : List String) : Result (List FsPath) :=
  entries.foldl (readSubtree configPath tableName key) { value := [] }

/-- The walk of a scan whose configuration lists these subtrees. -/
def configuredWalk (root configPath : FsPath) (excludes includes : List String) :
    WalkOptions where
  root := root
  excludedDirNames := defaultExcludedDirNames
  excludedSubtrees :=
    (readSubtreeArray configPath "scan" "exclude" excludes).value
  includedSubtrees :=
    (readSubtreeArray configPath "scan" "include" includes).value

end Bomwerk.Core
