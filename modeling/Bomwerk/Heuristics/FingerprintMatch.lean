import Bomwerk.Core.Component
import Bomwerk.Core.Sha256
import Bomwerk.Heuristics.FingerprintIndex
import Bomwerk.Heuristics.VendorRoot
import Bomwerk.Support.Grouping

/-!
# Matching vendored files

`match_vendored_files` of `heuristics/fingerprint.cpp`: the files below each
vendor root are hashed, tallied by release and by library, and attributed to at
most one library.
-/

namespace Bomwerk.Heuristics.Fingerprint

open Bomwerk.Core Bomwerk.Support

structure RootTally where
  matchedByRelease : OrderedMap Nat Nat := ∅
  matchedByLibrary : OrderedMap Nat Nat := ∅
  matchedFiles : List (FsPath × List UInt8) := []
  unmatchedFiles : List FsPath := []
  filesConsidered : Nat := 0

/-- `++counts[key]`. -/
def countUp (counts : OrderedMap Nat Nat) (key : Nat) : OrderedMap Nat Nat :=
  updateAt counts key fun count => count.getD 0 + 1

/-- `index.releases[release].library`. -/
def libraryOf (index : Index) (release : Nat) : Nat :=
  (index.releases.getD release default).library

/-- `libraries_for_this_file`. -/
def librariesFor (index : Index) (releases : List Nat) : OrderedSet Nat :=
  releases.foldl (fun libraries release =>
    libraries.insert (libraryOf index release)) ∅

/-- A file that the first pass excludes. -/
def RootTally.reject (tally : RootTally) (path : FsPath) : RootTally :=
  { tally with
    filesConsidered := tally.filesConsidered + 1
    unmatchedFiles := tally.unmatchedFiles ++ [path] }

def RootTally.judge (index : Index) (tally : RootTally) (path : FsPath)
    (digest : List UInt8) : RootTally :=
  let releases := releasesForDigest index digest
  if releases = [] then tally.reject path
  else
    { tally with
      filesConsidered := tally.filesConsidered + 1
      matchedByRelease := releases.foldl countUp tally.matchedByRelease
      matchedByLibrary :=
        (librariesFor index releases).toList.foldl countUp
          tally.matchedByLibrary
      matchedFiles := tally.matchedFiles ++ [(path, digest)] }

/-! ## The attribution -/

/-- One turn of the loop of `best_library`, on the best library so far and its
matches. -/
def betterLibrary (index : Index) (best : Option (Nat × Nat))
    (entry : Nat × Nat) : Option (Nat × Nat) :=
  let nameOf (library : Nat) := (index.libraries.getD library default).name
  match best with
  | none => some entry
  | some (library, matched) =>
    if matched < entry.2 ∨
        (entry.2 = matched ∧ nameOf entry.1 < nameOf library) then some entry
    else best

def bestLibrary (index : Index) (tally : RootTally) : Option Nat :=
  (tally.matchedByLibrary.toList.foldl (betterLibrary index) none).map Prod.fst

/-- The variables of the loop of `best_releases`. -/
structure BestReleases where
  best : List Nat := []
  bestMatches : Nat := 0
  bestFileCount : Nat := 0

/-- One turn of the loop of `best_releases`. -/
def betterReleases (index : Index) (library : Nat) (state : BestReleases)
    (entry : Nat × Nat) : BestReleases :=
  let release := index.releases.getD entry.1 default
  let alone : BestReleases :=
    { best := [entry.1]
      bestMatches := entry.2
      bestFileCount := release.fileCount }
  if release.library ≠ library then state
  else if state.best = [] then alone
  else if entry.2 < state.bestMatches then state
  else if state.bestMatches < entry.2 ∨
      release.fileCount < state.bestFileCount then alone
  else if release.fileCount = state.bestFileCount then
    { state with best := state.best ++ [entry.1] }
  else state

/-- `best_releases`: the releases and `matched_files`. -/
def bestReleases (index : Index) (tally : RootTally) (library : Nat) :
    List Nat × Nat :=
  let state := tally.matchedByRelease.toList.foldl
    (betterReleases index library) {}
  (state.best, state.bestMatches)

def confidenceFor (matchedFiles filesConsidered releaseFileCount : Nat)
    (uniqueRelease : Bool) : Confidence :=
  if !uniqueRelease then .low
  else if 3 ≤ matchedFiles ∧ filesConsidered * 3 ≤ matchedFiles * 4 ∧
      releaseFileCount ≤ matchedFiles * 2 then .high
  else .medium

structure RootMatch where
  vendorRoot : FsPath
  libraryName : String
  purlType : String
  purlNamespace : String
  license : String
  version : String
  candidateVersions : List String
  releaseRef : String
  releaseCommit : String
  corpusRevision : String
  matchedFiles : Nat
  filesConsidered : Nat
  releaseFileCount : Nat
  confidence : Confidence
  unmatchedFiles : List FsPath

/-- The versions of the releases, sorted and each one once. -/
def versionsOf (index : Index) (releases : List Nat) : List String :=
  sortUnique (· ≤ ·) id
    (releases.map fun release => (index.releases.getD release default).version)

/-- `version` and `candidate_versions` of a match with these releases. -/
def versionVerdict (index : Index) (releases : List Nat) :
    String × List String :=
  match releases with
  | [release] => ((index.releases.getD release default).version, [])
  | _ =>
    match versionsOf index releases with
    | [version] => (version, [])
    | candidates => ("", candidates)

/-- What the loop of `match_vendored_files` does with the tally of a root. -/
def rootMatch (index : Index) (vendorRoot : FsPath) (tally : RootTally) :
    Option RootMatch :=
  match bestLibrary index tally with
  | none => none
  | some libraryIndex =>
    let (releases, matchedFiles) := bestReleases index tally libraryIndex
    if releases = [] ∨ matchedFiles = 0 then none
    else if matchedFiles * 8 < tally.filesConsidered then none
    else
      let library := index.libraries.getD libraryIndex default
      let first := index.releases.getD (releases.headD 0) default
      let (version, candidateVersions) := versionVerdict index releases
      some
        { vendorRoot := vendorRoot
          libraryName := library.name
          purlType := library.purlType
          purlNamespace := library.purlNamespace
          license := library.license
          version := version
          candidateVersions := candidateVersions
          releaseRef := if candidateVersions = [] then first.ref else ""
          releaseCommit :=
            if candidateVersions = [] then first.commit else ""
          corpusRevision := index.corpusRevision
          matchedFiles := matchedFiles
          filesConsidered := tally.filesConsidered
          releaseFileCount := first.fileCount
          confidence := confidenceFor matchedFiles tally.filesConsidered
            first.fileCount (candidateVersions = [])
          unmatchedFiles :=
            (tally.unmatchedFiles ++ (tally.matchedFiles.filter fun file =>
                !(releasesForDigest index file.2).any releases.contains).map
                  Prod.fst).insertionSort (· ≤ ·) }

structure MatchLimits where
  maxHashedFiles : Nat := 100000
  maxHashedFileBytes : Nat := 16 * 1024 * 1024
  minHashableBytes : Nat := 64

/-- `BoundedFileDigest` and `BoundedFileFastHash`; a hash is there when the file
was readable and not over the limit. -/
structure BoundedFileHash (α : Type) where
  hash : Option α := none
  bytesHashed : Nat := 0
  readable : Bool := false
  overLimit : Bool := false

/-- `sha256_file_bounded` and `xxh3_file_bounded`, by the hash of the content; a
file that cannot be read has none. -/
def hashFileBounded {α : Type} (hash : List UInt8 → α)
    (content : Option (List UInt8)) (maxBytes : Nat) : BoundedFileHash α :=
  match content with
  | none => {}
  | some bytes =>
    if maxBytes < bytes.length then { readable := true, overLimit := true }
    else
      { hash := some (hash bytes)
        bytesHashed := bytes.length
        readable := true }

def BoundedFileHash.voting? {α : Type} (file : BoundedFileHash α)
    (limits : MatchLimits) : Option α :=
  if !file.readable || file.overLimit ||
      decide (file.bytesHashed < limits.minHashableBytes) then none
  else file.hash

/-- What the loops share between roots. -/
structure Progress where
  hashedFiles : Nat := 0
  fileBudgetReported : Bool := false
  warnings : List Warning := []

def Progress.stop (progress : Progress) (limits : MatchLimits)
    (vendorRoot : FsPath) : Progress :=
  if progress.fileBudgetReported then progress
  else
    { progress with
      fileBudgetReported := true
      warnings := progress.warnings ++
        [{ code := .fingerprintFileBudgetReached
           message := "fingerprint: stopped after hashing " ++
             toString limits.maxHashedFiles ++
             " vendored file(s), later roots were not matched"
           ecosystem := "fingerprint"
           affectedPath := vendorRoot.genericString }] }

section Loops

-- `XXH3_64bits`, and the files below the scanned directory.
variable (xxh3 : List UInt8 → UInt64) (contents : FsPath → Option (List UInt8))
  (index : Index) (limits : MatchLimits)

/-- The two passes over a file: the tally after it, when it is counted. -/
def judgeFile (tally : RootTally) (path : FsPath) : Option RootTally :=
  let secondPass :=
    ((hashFileBounded sha256 (contents path)
      limits.maxHashedFileBytes).voting? limits).map fun digest =>
        tally.judge index path digest
  if index.prefilter = [] then secondPass
  else
    ((hashFileBounded xxh3 (contents path)
      limits.maxHashedFileBytes).voting? limits).bind fun fastHash =>
        if mayContainFastHash index fastHash then secondPass
        else some (tally.reject path)

/-- The inner loop of `match_vendored_files`. -/
def tallyFiles (vendorRoot : FsPath) :
    Progress → RootTally → List FsPath → Progress × RootTally
  | progress, tally, [] => (progress, tally)
  | progress, tally, path :: files =>
    if limits.maxHashedFiles ≤ progress.hashedFiles then
      (progress.stop limits vendorRoot, tally)
    else
      match judgeFile xxh3 contents index limits tally path with
      | none => tallyFiles vendorRoot progress tally files
      | some tally =>
        tallyFiles vendorRoot
          { progress with hashedFiles := progress.hashedFiles + 1 } tally
          files

/-- The outer loop of `match_vendored_files`. -/
def matchRoots :
    Progress → List (FsPath × List FsPath) → Progress × List RootMatch
  | progress, [] => (progress, [])
  | progress, (vendorRoot, files) :: roots =>
    let (progress, tally) :=
      tallyFiles xxh3 contents index limits vendorRoot progress {} files
    let (progress, found) := matchRoots progress roots
    (progress, (rootMatch index vendorRoot tally).toList ++ found)

def filesByVendorRoot (files : List FsPath) : List (FsPath × List FsPath) :=
  (groupInto Prod.fst (files.filterMap fun relativePath =>
    (vendorRootFor relativePath).map fun vendorRoot =>
      (vendorRoot, relativePath))).toList.map fun group =>
        (group.1, group.2.map Prod.snd)

def matchVendoredFiles (fileIndex : List FsPath) : Result (List RootMatch) :=
  if index.files = [] then { value := [] }
  else
    let (progress, found) :=
      matchRoots xxh3 contents index limits {} (filesByVendorRoot fileIndex)
    { value := found.insertionSort fun left right =>
        left.vendorRoot ≤ right.vendorRoot
      warnings := progress.warnings }

end Loops

end Bomwerk.Heuristics.Fingerprint
