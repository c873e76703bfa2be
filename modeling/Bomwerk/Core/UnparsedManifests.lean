import Bomwerk.Core.FileIndex
import Bomwerk.Core.ManifestNames
import Bomwerk.Support.Grouping

/-!
# Unparsed manifests

`find_unparsed_manifests` of `core/manifest_names.cpp`, and what its reports
say: which ecosystems have a manifest that nothing reads, and which one is
named.  A manifest is covered by a supported lockfile in its directory or above
it.
-/

namespace Bomwerk.Core

open Bomwerk.Support

def installedDependencyDirNames : List String :=
  ["node_modules", "vendor", "venv", ".venv", "bower_components"]

structure EcosystemManifests where
  ecosystem : String
  supportedLocks : List String
  unsupportedLocks : List String
  looseManifests : List String
  deriving DecidableEq

def ecosystemManifests : List EcosystemManifests :=
  [⟨"cargo", ["Cargo.lock"], [], ["Cargo.toml"]⟩,
    ⟨"composer", ["composer.lock", "composer.json"], [], []⟩,
    ⟨"go", ["go.sum"], [], ["go.mod"]⟩,
    ⟨"maven", ["pom.xml", "gradle.lockfile"], [],
      ["build.gradle", "build.gradle.kts"]⟩,
    ⟨"npm", ["package-lock.json", "yarn.lock", "pnpm-lock.yaml"],
      ["bun.lock", "bun.lockb", "npm-shrinkwrap.json"], ["package.json"]⟩,
    ⟨"nuget",
      ["packages.lock.json", "packages.config", ".csproj",
        "Directory.Packages.props"], [], []⟩,
    ⟨"pub", ["pubspec.lock"], [], ["pubspec.yaml"]⟩,
    ⟨"python", ["poetry.lock", "requirements.txt", "uv.lock"],
      ["Pipfile.lock"], ["Pipfile", "pyproject.toml"]⟩,
    ⟨"rubygems", ["Gemfile.lock"], [], ["Gemfile"]⟩]

def isInsideInstalledDependencies (relativePath : FsPath) : Bool :=
  relativePath.allElements.any installedDependencyDirNames.contains

/-- `has_covered_ancestor`.  From a relative path the walk upwards ends at the
empty one, after as many steps as the path has names. -/
def hasCoveredAncestor (coveredDirectories : OrderedSet FsPath) :
    (fuel : Nat) → FsPath → Bool
  | 0, _ => false
  | fuel + 1, candidateDirectory =>
    if coveredDirectories.contains candidateDirectory then true
    else if candidateDirectory.isEmpty then false
    else hasCoveredAncestor coveredDirectories fuel
      candidateDirectory.parentPath

def matchingPaths (files : List FsPath) (names : List String) : List FsPath :=
  files.filter fun relativePath =>
    names.any (matchesManifestName relativePath.filename) &&
      !isInsideInstalledDependencies relativePath

structure UnparsedManifestReport where
  ecosystem : String
  filename : String
  paths : List FsPath
  isLockfile : Bool
  deriving DecidableEq

/-- The candidates of a tier that no lockfile covers. -/
def uncoveredCandidates (files : List FsPath) (tierNames : List String)
    (coveredDirectories : OrderedSet FsPath) : List FsPath :=
  (matchingPaths files tierNames).filter fun candidatePath =>
    !hasCoveredAncestor coveredDirectories (candidatePath.names.length + 1)
      candidatePath.parentPath

def reportForTier (files : List FsPath) (ecosystem : EcosystemManifests)
    (tierNames : List String) (coveredDirectories : OrderedSet FsPath)
    (isLockfile : Bool) : Option UnparsedManifestReport :=
  let pathsByFilename := groupInto FsPath.filename
    (uncoveredCandidates files tierNames coveredDirectories)
  match pathsByFilename.toList with
  | [] => none
  | first :: rest =>
    let winningEntry :=
      firstLargest (fun entry => entry.2.length) first (first :: rest)
    some {
      ecosystem := ecosystem.ecosystem
      filename := winningEntry.1
      paths := winningEntry.2
      isLockfile := isLockfile }

/-- The directories of the lockfiles that a producer reads. -/
def coveredDirectories (files : List FsPath) (ecosystem : EcosystemManifests) :
    OrderedSet FsPath :=
  (matchingPaths files ecosystem.supportedLocks).foldl
    (fun directories supportedPath =>
      directories.insert supportedPath.parentPath) ∅

/-- One turn of the loop of `find_unparsed_manifests`. -/
def reportForEcosystem (files : List FsPath) (ecosystem : EcosystemManifests) :
    Option UnparsedManifestReport :=
  let covered := coveredDirectories files ecosystem
  match reportForTier files ecosystem ecosystem.unsupportedLocks covered
      true with
  | some report => some report
  | none =>
    reportForTier files ecosystem ecosystem.looseManifests covered false

def findUnparsedManifests (files : List FsPath) : List UnparsedManifestReport :=
  (ecosystemManifests.filterMap (reportForEcosystem files)).insertionSort
    fun left right => left.ecosystem ≤ right.ecosystem

/-- A file of the index: relative to the root, without a trailing separator. -/
structure IsFilePath (path : FsPath) : Prop where
  relative : path.absolute = false
  noTrailing : path.trailing = false

/-- The names of the directories that lead to a file. -/
def directoriesAbove (path : FsPath) : List String :=
  path.names.dropLast

def IsInstalled (path : FsPath) : Prop :=
  ∃ directory ∈ directoriesAbove path, directory ∈ installedDependencyDirNames

def IsNamed (names : List String) (path : FsPath) : Prop :=
  ∃ name ∈ names, matchesManifestName path.filename name = true

/-- A supported lockfile of the project itself, in the directory of the path or
above it. -/
structure Covers (ecosystem : EcosystemManifests) (lock path : FsPath) :
    Prop where
  supported : IsNamed ecosystem.supportedLocks lock
  ours : ¬ IsInstalled lock
  above : directoriesAbove lock <+: directoriesAbove path

def IsUncovered (files : List FsPath) (ecosystem : EcosystemManifests)
    (path : FsPath) : Prop :=
  ¬ IsInstalled path ∧ ∀ lock ∈ files, ¬ Covers ecosystem lock path

open scoped Classical in
/-- The uncovered paths with a name of the tier. -/
noncomputable def uncoveredOf (files : List FsPath)
    (ecosystem : EcosystemManifests) (names : List String) : List FsPath :=
  files.filter fun path =>
    IsNamed names path ∧ IsUncovered files ecosystem path

/-- The tier that is reported: unsupported lockfiles outrank loose manifests. -/
def tierOf (ecosystem : EcosystemManifests) (isLockfile : Bool) : List String :=
  if isLockfile then ecosystem.unsupportedLocks else ecosystem.looseManifests

/-- The uncovered paths of a tier with one filename. -/
noncomputable def uncoveredNamed (files : List FsPath)
    (ecosystem : EcosystemManifests) (names : List String)
    (filename : String) : List FsPath :=
  (uncoveredOf files ecosystem names).filter (·.filename = filename)

/-- An ecosystem with something to report. -/
def HasGap (files : List FsPath) (ecosystem : EcosystemManifests) : Prop :=
  uncoveredOf files ecosystem ecosystem.unsupportedLocks ≠ [] ∨
    uncoveredOf files ecosystem ecosystem.looseManifests ≠ []

/-- The report an ecosystem calls for. -/
structure IsExactReport (files : List FsPath) (ecosystem : EcosystemManifests)
    (report : UnparsedManifestReport) : Prop where
  sameEcosystem : report.ecosystem = ecosystem.ecosystem
  isLockfile : report.isLockfile = true ↔
    uncoveredOf files ecosystem ecosystem.unsupportedLocks ≠ []
  paths : report.paths = uncoveredNamed files ecosystem
    (tierOf ecosystem report.isLockfile) report.filename
  paths_ne_nil : report.paths ≠ []
  most : ∀ filename, (uncoveredNamed files ecosystem
    (tierOf ecosystem report.isLockfile) filename).length ≤ report.paths.length
  smallest : ∀ filename, (uncoveredNamed files ecosystem
      (tierOf ecosystem report.isLockfile) filename).length =
        report.paths.length → report.filename ≤ filename

theorem mem_coveredDirectories_iff {files : List FsPath}
    {ecosystem : EcosystemManifests} {directory : FsPath} :
    directory ∈ coveredDirectories files ecosystem ↔
      ∃ lock ∈ matchingPaths files ecosystem.supportedLocks,
        lock.parentPath = directory := by
  rw [coveredDirectories, mem_foldl_insert_iff FsPath.parentPath]
  simp

theorem IsFilePath.parentPath {path : FsPath} (hpath : IsFilePath path) :
    IsFilePath path.parentPath ∧ path.parentPath.names = directoriesAbove path := by
  simp only [FsPath.parentPath, hpath.noTrailing, Bool.false_eq_true, if_false]
  exact ⟨⟨hpath.relative, rfl⟩, rfl⟩

theorem IsFilePath.eq_of_names {left right : FsPath} (hleft : IsFilePath left)
    (hright : IsFilePath right) (hnames : left.names = right.names) :
    left = right :=
  FsPath.ext (hleft.relative.trans hright.relative.symm) hnames
    (hleft.noTrailing.trans hright.noTrailing.symm)

/-- The walk upwards finds a covered directory exactly when one is an
ancestor. -/
theorem hasCoveredAncestor_iff {covered : OrderedSet FsPath}
    (hcovered : ∀ directory ∈ covered, IsFilePath directory) {fuel : Nat}
    {candidate : FsPath} (hcandidate : IsFilePath candidate)
    (hfuel : candidate.names.length < fuel) :
    hasCoveredAncestor covered fuel candidate = true ↔
      ∃ directory ∈ covered, directory.names <+: candidate.names := by
  induction fuel generalizing candidate with
  | zero => omega
  | succ fuel ih =>
    rw [hasCoveredAncestor]
    obtain ⟨hparent, hnames⟩ := hcandidate.parentPath
    split_ifs with hmem hempty
    · exact iff_of_true rfl
        ⟨candidate, Std.ExtTreeSet.contains_iff_mem.mp hmem, List.prefix_rfl⟩
    · have hnil : candidate.names = [] := by
        simpa [FsPath.isEmpty, hcandidate.relative] using hempty
      refine iff_of_false id ?_
      rintro ⟨directory, hdirectory, hstarts⟩
      rw [hnil, List.prefix_nil] at hstarts
      have hsame := (hcovered directory hdirectory).eq_of_names hcandidate
        (hstarts.trans hnil.symm)
      exact hmem (Std.ExtTreeSet.contains_iff_mem.mpr (hsame ▸ hdirectory))
    · have hne : candidate.names ≠ [] := by
        simpa [FsPath.isEmpty, hcandidate.relative] using hempty
      have hlast : candidate.names =
          directoriesAbove candidate ++ [candidate.names.getLast hne] :=
        (List.dropLast_append_getLast hne).symm
      have hshorter : candidate.parentPath.names.length < fuel := by
        rw [hnames, directoriesAbove, List.length_dropLast]
        have := List.length_pos_of_ne_nil hne
        omega
      rw [ih hparent hshorter, hnames]
      constructor
      · rintro ⟨directory, hdirectory, hstarts⟩
        exact ⟨directory, hdirectory, hstarts.trans (List.dropLast_prefix _)⟩
      · rintro ⟨directory, hdirectory, hstarts⟩
        refine ⟨directory, hdirectory, ?_⟩
        rw [hlast, List.prefix_concat_iff] at hstarts
        rcases hstarts with hsame | hstarts
        · have heq := (hcovered directory hdirectory).eq_of_names hcandidate
            (hsame.trans hlast.symm)
          exact absurd (Std.ExtTreeSet.contains_iff_mem.mpr (heq ▸ hdirectory))
            hmem
        · exact hstarts

/-! ## Candidates -/

def EcosystemManifests.allNames (ecosystem : EcosystemManifests) :
    List String :=
  ecosystem.supportedLocks ++ ecosystem.unsupportedLocks ++
    ecosystem.looseManifests

theorem not_matches_installedDependencyDirNames :
    ∀ ecosystem ∈ ecosystemManifests, ∀ name ∈ ecosystem.allNames,
      ∀ directory ∈ installedDependencyDirNames,
        matchesManifestName directory name = false := by
  decide +kernel

section Candidates

variable {ecosystem : EcosystemManifests}
  (hecosystem : ecosystem ∈ ecosystemManifests) {names : List String}
  (hnames : names ⊆ ecosystem.allNames)

include hecosystem hnames

/-- No manifest has the name of a directory of installed dependencies, so only
the directories above a manifest count. -/
theorem isInsideInstalledDependencies_iff {path : FsPath}
    (hpath : IsFilePath path) (hnamed : IsNamed names path) :
    isInsideInstalledDependencies path = true ↔ IsInstalled path := by
  obtain ⟨name, hname, hmatches⟩ := hnamed
  have hfilename : path.filename ∉ installedDependencyDirNames := by
    intro hmem
    have hno := not_matches_installedDependencyDirNames ecosystem hecosystem
      name (hnames hname) path.filename hmem
    rw [hmatches] at hno
    exact absurd hno (by simp)
  have helements : path.allElements = path.names := by
    simp [FsPath.allElements, FsPath.elements, hpath.relative, hpath.noTrailing]
  simp only [isInsideInstalledDependencies, helements, List.any_eq_true,
    List.contains_iff_mem, IsInstalled, directoriesAbove]
  by_cases hempty : path.names = []
  · simp [hempty]
  · have hlast : path.filename = path.names.getLast hempty := by
      simp [FsPath.filename, hpath.noTrailing,
        List.getLast?_eq_some_getLast hempty]
    rw [hlast] at hfilename
    constructor
    · rintro ⟨element, helement, hinstalled⟩
      rw [← List.dropLast_append_getLast hempty, List.mem_append,
        List.mem_singleton] at helement
      rcases helement with helement | rfl
      · exact ⟨element, helement, hinstalled⟩
      · exact absurd hinstalled hfilename
    · rintro ⟨element, helement, hinstalled⟩
      exact ⟨element, List.dropLast_subset _ helement, hinstalled⟩

theorem mem_matchingPaths_iff {files : List FsPath}
    (hfiles : ∀ path ∈ files, IsFilePath path) {path : FsPath} :
    path ∈ matchingPaths files names ↔
      path ∈ files ∧ IsNamed names path ∧ ¬ IsInstalled path := by
  rw [matchingPaths, List.mem_filter, Bool.and_eq_true, List.any_eq_true,
    Bool.not_eq_true', ← Bool.not_eq_true]
  apply and_congr_right
  intro hpath
  apply and_congr_right
  intro hnamed
  rw [isInsideInstalledDependencies_iff hecosystem hnames (hfiles path hpath)
    hnamed]

end Candidates

theorem covers_iff_coveredDirectories {files : List FsPath}
    (hfiles : ∀ path ∈ files, IsFilePath path)
    {ecosystem : EcosystemManifests}
    (hecosystem : ecosystem ∈ ecosystemManifests) (path : FsPath) :
    (∃ lock ∈ files, Covers ecosystem lock path) ↔
      ∃ directory ∈ coveredDirectories files ecosystem,
        directory.names <+: directoriesAbove path := by
  have hsubset : ecosystem.supportedLocks ⊆ ecosystem.allNames := by
    simp [EcosystemManifests.allNames]
  constructor
  · rintro ⟨lock, hlock, hcovers⟩
    refine ⟨lock.parentPath, mem_coveredDirectories_iff.mpr ⟨lock, ?_, rfl⟩, ?_⟩
    · exact (mem_matchingPaths_iff hecosystem hsubset hfiles).mpr
        ⟨hlock, hcovers.supported, hcovers.ours⟩
    · rw [(hfiles lock hlock).parentPath.2]
      exact hcovers.above
  · rintro ⟨directory, hdirectory, hstarts⟩
    obtain ⟨lock, hlock, rfl⟩ := mem_coveredDirectories_iff.mp hdirectory
    obtain ⟨hmem, hsupported, hours⟩ :=
      (mem_matchingPaths_iff hecosystem hsubset hfiles).mp hlock
    rw [(hfiles lock hmem).parentPath.2] at hstarts
    exact ⟨lock, hmem, hsupported, hours, hstarts⟩

theorem uncoveredCandidates_eq {files : List FsPath}
    (hfiles : ∀ path ∈ files, IsFilePath path)
    {ecosystem : EcosystemManifests}
    (hecosystem : ecosystem ∈ ecosystemManifests) {names : List String}
    (hnames : names ⊆ ecosystem.allNames) :
    uncoveredCandidates files names (coveredDirectories files ecosystem) =
      uncoveredOf files ecosystem names := by
  classical
  rw [uncoveredCandidates, uncoveredOf, matchingPaths, List.filter_filter]
  apply List.filter_congr
  intro path hpath
  have hplain := hfiles path hpath
  have hmatching : path ∈ matchingPaths files names ↔ _ :=
    mem_matchingPaths_iff hecosystem hnames hfiles
  rw [matchingPaths, List.mem_filter] at hmatching
  have hdirectories : ∀ directory ∈ coveredDirectories files ecosystem,
      IsFilePath directory := by
    intro directory hdirectory
    obtain ⟨lock, hlock, rfl⟩ := mem_coveredDirectories_iff.mp hdirectory
    exact (hfiles lock (List.mem_filter.mp hlock).1).parentPath.1
  obtain ⟨hparent, hparentNames⟩ := hplain.parentPath
  have hshort : path.parentPath.names.length < path.names.length + 1 := by
    rw [hparentNames, directoriesAbove, List.length_dropLast]
    omega
  have hcovered := hasCoveredAncestor_iff hdirectories hparent hshort
  rw [hparentNames, ← covers_iff_coveredDirectories hfiles hecosystem]
    at hcovered
  rw [Bool.eq_iff_iff, Bool.and_eq_true, Bool.not_eq_true', ← Bool.not_eq_true,
    hcovered, decide_eq_true_eq, IsUncovered]
  constructor
  · rintro ⟨hnone, hmatches⟩
    obtain ⟨-, hnamed, hours⟩ := hmatching.mp ⟨hpath, hmatches⟩
    exact ⟨hnamed, hours, fun lock hlock h => hnone ⟨lock, hlock, h⟩⟩
  · rintro ⟨hnamed, hours, hnone⟩
    refine ⟨?_, (hmatching.mpr ⟨hpath, hnamed, hours⟩).2⟩
    rintro ⟨lock, hlock, h⟩
    exact hnone lock hlock h

/-! ## Reports -/

section Tier

variable {files : List FsPath} (hfiles : ∀ path ∈ files, IsFilePath path)
  {ecosystem : EcosystemManifests}
  (hecosystem : ecosystem ∈ ecosystemManifests) {names : List String}
  (hnames : names ⊆ ecosystem.allNames)

include hfiles hecosystem hnames

theorem reportForTier_eq_none_iff (isLockfile : Bool) :
    reportForTier files ecosystem names (coveredDirectories files ecosystem)
        isLockfile = none ↔
      uncoveredOf files ecosystem names = [] := by
  rw [reportForTier, uncoveredCandidates_eq hfiles hecosystem hnames]
  cases hgroups : (groupInto FsPath.filename
      (uncoveredOf files ecosystem names)).toList with
  | nil =>
    refine iff_of_true rfl (List.eq_nil_iff_forall_not_mem.mpr ?_)
    intro path hpath
    have hgroup : (path.filename, (uncoveredOf files ecosystem names).filter
        (·.filename = path.filename)) ∈ (groupInto FsPath.filename
          (uncoveredOf files ecosystem names)).toList := by
      refine mem_toList_groupInto_iff.mpr ⟨rfl, ?_⟩
      exact List.ne_nil_of_mem (List.mem_filter.mpr ⟨hpath, by simp⟩)
    rw [hgroups] at hgroup
    exact absurd hgroup List.not_mem_nil
  | cons first rest =>
    refine iff_of_false (by simp) ?_
    intro hempty
    have hfirst : (first.1, first.2) ∈ (groupInto FsPath.filename
        (uncoveredOf files ecosystem names)).toList := by
      rw [hgroups]
      exact List.mem_cons_self
    obtain ⟨hgroup, hne⟩ := mem_toList_groupInto_iff.mp hfirst
    rw [hempty] at hgroup
    exact hne hgroup

/-- The report of a tier names the filename with the most paths. -/
theorem reportForTier_spec {isLockfile : Bool} {report : UnparsedManifestReport}
    (hreport : reportForTier files ecosystem names
      (coveredDirectories files ecosystem) isLockfile = some report) :
    report.ecosystem = ecosystem.ecosystem ∧ report.isLockfile = isLockfile ∧
      report.paths = uncoveredNamed files ecosystem names report.filename ∧
      report.paths ≠ [] ∧
      (∀ filename, (uncoveredNamed files ecosystem names filename).length ≤
        report.paths.length) ∧
      ∀ filename, (uncoveredNamed files ecosystem names filename).length =
        report.paths.length → report.filename ≤ filename := by
  rw [reportForTier, uncoveredCandidates_eq hfiles hecosystem hnames]
    at hreport
  have hsorted := pairwise_lt_toList (groupInto FsPath.filename
    (uncoveredOf files ecosystem names))
  have hmem : ∀ filename group, (filename, group) ∈ (groupInto FsPath.filename
      (uncoveredOf files ecosystem names)).toList ↔
        group = uncoveredNamed files ecosystem names filename ∧ group ≠ [] :=
    fun filename group => mem_toList_groupInto_iff
  cases hgroups : (groupInto FsPath.filename
      (uncoveredOf files ecosystem names)).toList with
  | nil =>
    rw [hgroups] at hreport
    exact absurd hreport (by simp)
  | cons first rest =>
    rw [hgroups] at hreport hsorted
    simp only [hgroups] at hmem
    simp only [firstLargest_cons_self, Option.some.injEq] at hreport
    subst hreport
    have hlargest := isFirstLargest_firstLargest
      (fun entry : String × List FsPath => entry.2.length) first rest
    generalize firstLargest (fun entry : String × List FsPath =>
      entry.2.length) first rest = winner at hlargest ⊢
    obtain ⟨hpaths, hne⟩ := (hmem winner.1 winner.2).mp hlargest.mem
    have hpositive := List.length_pos_of_ne_nil hne
    refine ⟨rfl, rfl, hpaths, hne, ?_, ?_⟩
    · intro filename
      by_cases hgroup : uncoveredNamed files ecosystem names filename = []
      · rw [hgroup]
        exact Nat.zero_le _
      · exact hlargest.le _ ((hmem filename _).mpr ⟨rfl, hgroup⟩)
    · intro filename hlength
      have hgroup : uncoveredNamed files ecosystem names filename ≠ [] := by
        apply List.ne_nil_of_length_pos
        rw [hlength]
        exact hpositive
      rcases hlargest.eq_or_earlier hsorted
        ((hmem filename _).mpr ⟨rfl, hgroup⟩) hlength with hsame | hearlier
      · exact (congrArg Prod.fst hsame).ge
      · exact hearlier.le

end Tier

section Ecosystem

variable {files : List FsPath} (hfiles : ∀ path ∈ files, IsFilePath path)
  {ecosystem : EcosystemManifests}
  (hecosystem : ecosystem ∈ ecosystemManifests)

include hfiles hecosystem

theorem isExactReport_of_reportForEcosystem {report : UnparsedManifestReport}
    (hreport : reportForEcosystem files ecosystem = some report) :
    IsExactReport files ecosystem report := by
  have hunsupported : ecosystem.unsupportedLocks ⊆ ecosystem.allNames := by
    simp [EcosystemManifests.allNames]
  have hloose : ecosystem.looseManifests ⊆ ecosystem.allNames := by
    simp [EcosystemManifests.allNames]
  rw [reportForEcosystem] at hreport
  cases hfirst : reportForTier files ecosystem ecosystem.unsupportedLocks
      (coveredDirectories files ecosystem) true with
  | some first =>
    simp only [hfirst, Option.some.injEq] at hreport
    subst hreport
    obtain ⟨hsame, hlock, hpaths, hne, hmost, hsmallest⟩ :=
      reportForTier_spec hfiles hecosystem hunsupported hfirst
    have htier : tierOf ecosystem first.isLockfile =
        ecosystem.unsupportedLocks := by
      rw [hlock]
      rfl
    have hgap : uncoveredOf files ecosystem ecosystem.unsupportedLocks ≠ [] := by
      intro hempty
      have hnone := (reportForTier_eq_none_iff hfiles hecosystem hunsupported
        true).mpr hempty
      rw [hfirst] at hnone
      exact absurd hnone (by simp)
    refine ⟨hsame, iff_of_true hlock hgap, ?_, hne, ?_, ?_⟩
    · rw [htier]
      exact hpaths
    · rw [htier]
      exact hmost
    · rw [htier]
      exact hsmallest
  | none =>
    simp only [hfirst] at hreport
    have hempty := (reportForTier_eq_none_iff hfiles hecosystem hunsupported
      true).mp hfirst
    obtain ⟨hsame, hlock, hpaths, hne, hmost, hsmallest⟩ :=
      reportForTier_spec hfiles hecosystem hloose hreport
    have htier : tierOf ecosystem report.isLockfile =
        ecosystem.looseManifests := by
      rw [hlock]
      rfl
    refine ⟨hsame, ?_, ?_, hne, ?_, ?_⟩
    · exact iff_of_false (by simp [hlock]) (not_not.mpr hempty)
    · rw [htier]
      exact hpaths
    · rw [htier]
      exact hmost
    · rw [htier]
      exact hsmallest

theorem reportForEcosystem_eq_none_iff :
    reportForEcosystem files ecosystem = none ↔ ¬ HasGap files ecosystem := by
  have hsubset : ecosystem.unsupportedLocks ⊆ ecosystem.allNames := by
    simp [EcosystemManifests.allNames]
  have hsubset' : ecosystem.looseManifests ⊆ ecosystem.allNames := by
    simp [EcosystemManifests.allNames]
  have hunsupported := reportForTier_eq_none_iff hfiles hecosystem hsubset true
  have hloose := reportForTier_eq_none_iff hfiles hecosystem hsubset' false
  rw [HasGap, not_or, not_not, not_not, ← hunsupported, ← hloose,
    reportForEcosystem]
  cases reportForTier files ecosystem ecosystem.unsupportedLocks
      (coveredDirectories files ecosystem) true with
  | some report => simp
  | none => simp

end Ecosystem

theorem pairwise_lt_ecosystemManifests :
    ecosystemManifests.Pairwise fun left right =>
      left.ecosystem < right.ecosystem := by
  decide +kernel

open scoped Classical in
/-- A loop that makes at most one report for each element makes one for those
that call for it. -/
theorem forall₂_filter_filterMap {α β : Type*} {calls : α → Prop}
    {isReport : α → β → Prop} {reportFor : α → Option β} {elements : List α}
    (hnone : ∀ element ∈ elements, reportFor element = none ↔ ¬ calls element)
    (hsome : ∀ element ∈ elements, ∀ report,
      reportFor element = some report → isReport element report) :
    List.Forall₂ isReport (elements.filter fun element => calls element)
      (elements.filterMap reportFor) := by
  induction elements with
  | nil => exact .nil
  | cons element elements ih =>
    rw [List.forall_mem_cons] at hnone hsome
    have htail := ih hnone.2 hsome.2
    cases hreport : reportFor element with
    | none =>
      rw [List.filterMap_cons_none hreport,
        List.filter_cons_of_neg (by simpa using hnone.1.mp hreport)]
      exact htail
    | some report =>
      have hcalls : calls element := by
        by_contra hno
        rw [hnone.1.mpr hno] at hreport
        exact absurd hreport (by simp)
      rw [List.filterMap_cons_some hreport,
        List.filter_cons_of_pos (by simpa using hcalls)]
      exact .cons (hsome.1 report hreport) htail

/-- The reports come in the order of the table, so sorting them changes
nothing. -/
theorem findUnparsedManifests_eq {files : List FsPath}
    (hfiles : ∀ path ∈ files, IsFilePath path) :
    findUnparsedManifests files =
      ecosystemManifests.filterMap (reportForEcosystem files) := by
  apply List.Pairwise.insertionSort_eq
  rw [List.pairwise_filterMap]
  have hpairs : ecosystemManifests.Pairwise fun left right =>
      (left ∈ ecosystemManifests ∧ right ∈ ecosystemManifests) ∧
        left.ecosystem < right.ecosystem := by
    refine List.Pairwise.and ?_ pairwise_lt_ecosystemManifests
    exact List.pairwise_of_forall_mem_list fun left hleft right hright =>
      ⟨hleft, hright⟩
  refine hpairs.imp ?_
  rintro left right ⟨⟨hleft, hright⟩, hlt⟩ report hreport other hother
  rw [(isExactReport_of_reportForEcosystem hfiles hleft hreport).sameEcosystem,
    (isExactReport_of_reportForEcosystem hfiles hright hother).sameEcosystem]
  exact hlt.le

/-! ## Reordered files -/

section Reordered

variable {files reordered : List FsPath} (hperm : files.Perm reordered)
  (ecosystem : EcosystemManifests)

include hperm

theorem isUncovered_iff_of_perm (path : FsPath) :
    IsUncovered files ecosystem path ↔ IsUncovered reordered ecosystem path := by
  simp only [IsUncovered, hperm.mem_iff]

theorem uncoveredOf_perm (names : List String) :
    (uncoveredOf files ecosystem names).Perm
      (uncoveredOf reordered ecosystem names) := by
  classical
  have hsame : uncoveredOf reordered ecosystem names =
      reordered.filter fun path =>
        IsNamed names path ∧ IsUncovered files ecosystem path := by
    apply List.filter_congr
    intro path _
    apply decide_eq_decide.mpr
    rw [isUncovered_iff_of_perm hperm]
  rw [hsame]
  exact hperm.filter _

theorem uncoveredOf_ne_nil_iff_of_perm (names : List String) :
    uncoveredOf files ecosystem names ≠ [] ↔
      uncoveredOf reordered ecosystem names ≠ [] := by
  rw [ne_eq, ne_eq, not_iff_not]
  have h := uncoveredOf_perm hperm ecosystem names
  constructor
  · intro hempty
    exact List.perm_nil.mp (hempty ▸ h.symm)
  · intro hempty
    exact List.perm_nil.mp (hempty ▸ h)

theorem hasGap_iff_of_perm :
    HasGap files ecosystem ↔ HasGap reordered ecosystem := by
  simp only [HasGap, uncoveredOf_ne_nil_iff_of_perm hperm ecosystem]

end Reordered

/-- Reports that differ in the order of their paths only. -/
structure SameButForOrder (left right : UnparsedManifestReport) : Prop where
  ecosystem : left.ecosystem = right.ecosystem
  filename : left.filename = right.filename
  isLockfile : left.isLockfile = right.isLockfile
  paths : left.paths.Perm right.paths

theorem IsExactReport.sameButForOrder {files reordered : List FsPath}
    (hperm : files.Perm reordered) {ecosystem : EcosystemManifests}
    {left right : UnparsedManifestReport}
    (hleft : IsExactReport files ecosystem left)
    (hright : IsExactReport reordered ecosystem right) :
    SameButForOrder left right := by
  have hlockfile : left.isLockfile = right.isLockfile := by
    rw [Bool.eq_iff_iff, hleft.isLockfile, hright.isLockfile]
    exact uncoveredOf_ne_nil_iff_of_perm hperm ecosystem _
  have hnamed : ∀ filename, (uncoveredNamed files ecosystem
      (tierOf ecosystem left.isLockfile) filename).Perm
        (uncoveredNamed reordered ecosystem
          (tierOf ecosystem right.isLockfile) filename) := by
    intro filename
    rw [hlockfile]
    exact (uncoveredOf_perm hperm ecosystem _).filter _
  have hpaths := hleft.paths
  have hpaths' := hright.paths
  have hle := hleft.most right.filename
  have hle' := hright.most left.filename
  rw [(hnamed right.filename).length_eq, ← hpaths'] at hle
  rw [← (hnamed left.filename).length_eq, ← hpaths] at hle'
  have hlength := le_antisymm hle hle'
  have hfilename : left.filename = right.filename := by
    apply le_antisymm
    · apply hleft.smallest
      rw [(hnamed right.filename).length_eq, ← hpaths', hlength]
    · apply hright.smallest
      rw [← (hnamed left.filename).length_eq, ← hpaths, hlength]
  refine ⟨hleft.sameEcosystem.trans hright.sameEcosystem.symm, hfilename,
    hlockfile, ?_⟩
  rw [hpaths, hpaths', hfilename]
  exact hnamed right.filename

theorem forall₂_of_common {α β γ : Type*} {first : α → β → Prop}
    {second : α → γ → Prop} {joined : β → γ → Prop}
    (hjoined : ∀ a b c, first a b → second a c → joined b c)
    {elements : List α} {left : List β} {right : List γ}
    (hleft : List.Forall₂ first elements left)
    (hright : List.Forall₂ second elements right) :
    List.Forall₂ joined left right := by
  induction hleft generalizing right with
  | nil =>
    cases hright
    exact .nil
  | cons hfirst _ ih =>
    cases hright with
    | cons hsecond htail => exact .cons (hjoined _ _ _ hfirst hsecond) (ih htail)

open scoped Classical in
/-- Exactly the ecosystems with an uncovered manifest are reported, each with
the report it calls for, and reordering the files only reorders the paths of
the reports. -/
theorem findUnparsedManifests_exact {files : List FsPath}
    (hfiles : ∀ path ∈ files, IsFilePath path) :
    List.Forall₂ (IsExactReport files)
        (ecosystemManifests.filter fun ecosystem => HasGap files ecosystem)
        (findUnparsedManifests files) ∧
      ∀ reordered, files.Perm reordered →
        List.Forall₂ SameButForOrder (findUnparsedManifests files)
          (findUnparsedManifests reordered) := by
  have hexact : ∀ {files : List FsPath}, (∀ path ∈ files, IsFilePath path) →
      List.Forall₂ (IsExactReport files)
        (ecosystemManifests.filter fun ecosystem => HasGap files ecosystem)
        (findUnparsedManifests files) := by
    intro files hfiles
    rw [findUnparsedManifests_eq hfiles]
    apply forall₂_filter_filterMap
    · intro ecosystem hecosystem
      exact reportForEcosystem_eq_none_iff hfiles hecosystem
    · intro ecosystem hecosystem report
      exact isExactReport_of_reportForEcosystem hfiles hecosystem
  refine ⟨hexact hfiles, ?_⟩
  intro reordered hperm
  have hreordered := hexact fun path hpath =>
    hfiles path (hperm.mem_iff.mpr hpath)
  simp only [← hasGap_iff_of_perm hperm] at hreordered
  exact forall₂_of_common
    (fun _ _ _ hleft hright => hleft.sameButForOrder hperm hright)
    (hexact hfiles) hreordered

/-- Two workspaces of one tree, one of them with a lockfile. -/
theorem findUnparsedManifests_exact_workspaces :
    let files := [FsPath.ofString "a/package.json",
      .ofString "b/package-lock.json", .ofString "b/c/package.json"]
    (∀ path ∈ files, IsFilePath path) ∧
      ∀ reordered, files.Perm reordered →
        List.Forall₂ SameButForOrder (findUnparsedManifests files)
          (findUnparsedManifests reordered) := by
  have hfiles : ∀ path ∈ [FsPath.ofString "a/package.json",
      .ofString "b/package-lock.json", .ofString "b/c/package.json"],
      IsFilePath path := by
    simp only [List.forall_mem_cons]
    exact ⟨⟨by decide, by decide⟩, ⟨by decide, by decide⟩,
      ⟨by decide, by decide⟩, by simp⟩
  exact ⟨hfiles, (findUnparsedManifests_exact hfiles).2⟩

end Bomwerk.Core
