import Bomwerk.Heuristics.FingerprintVerdict

/-!
# The file budget

The budget is shared by the vendor roots and tested before each file.  A root
that is cut in the middle is still judged, by the files that came first.
-/

namespace Bomwerk.Heuristics.Fingerprint

open Bomwerk.Core Bomwerk.Support

/-- The best releases hold at least an eighth of the files. -/
def IsAttributed (index : Index) (files : List Judged) : Prop :=
  ∃ library release, IsBestLibrary index files library ∧
    IsBestRelease index files library release ∧
    files.length ≤ releaseScore index files release * 8

theorem rootMatch_ne_none_iff {index : Index} (hindex : index.Consistent)
    {vendorRoot : FsPath} {files : List Judged} :
    rootMatch index vendorRoot (tallyOf index files) ≠ none ↔
      IsAttributed index files := by
  have h := countsOf_tallyOf hindex files
  cases hlibrary : bestLibrary index (tallyOf index files) with
  | none =>
    have hzero := (bestLibrary_eq_none_iff h).mp hlibrary
    have hnone : rootMatch index vendorRoot (tallyOf index files) = none := by
      rw [rootMatch, hlibrary]
    refine iff_of_false (not_not.mpr hnone) ?_
    rintro ⟨library, release, hbest, -⟩
    exact absurd (hzero library) (Nat.ne_of_gt hbest.pos)
  | some library =>
    have hbest := isBestLibrary_of_bestLibrary h hlibrary
    obtain ⟨releases, hne, -, hmem, hfew, hmany⟩ :=
      @rootMatch_of_bestLibrary _ hindex vendorRoot _ _ h _ hlibrary
    constructor
    · intro hsome
      obtain ⟨release, hrelease⟩ := List.exists_mem_of_ne_nil _ hne
      refine ⟨library, release, hbest, (hmem release).mp hrelease, ?_⟩
      by_contra hless
      exact hsome (hfew ⟨release, hrelease, not_le.mp hless⟩)
    · rintro ⟨other, release, hother, hrelease, hmanyFiles⟩
      obtain rfl := hother.unique hbest
      obtain ⟨found, hfound, -⟩ := hmany (by
        intro first hfirst
        rwa [((hmem first).mp hfirst).releaseScore_eq hrelease])
      rw [hfound]
      simp

theorem vendorRoot_of_rootMatch {index : Index} {vendorRoot : FsPath}
    {tally : RootTally} {found : RootMatch}
    (h : rootMatch index vendorRoot tally = some found) :
    found.vendorRoot = vendorRoot := by
  rw [rootMatch] at h
  split at h
  · cases h
  · dsimp only at h
    split_ifs at h
    all_goals
      obtain rfl := Option.some.inj h
      rfl

/-! ## What the budget covers -/

section Budget

variable (xxh3 : List UInt8 → UInt64) (contents : FsPath → Option (List UInt8))
  (index : Index) (limits : MatchLimits)

/-- What a file counts as, if it counts. -/
def judged? (path : FsPath) : Option Judged :=
  let secondPass :=
    ((hashFileBounded sha256 (contents path)
      limits.maxHashedFileBytes).voting? limits).map (Judged.hashed path)
  if index.prefilter = [] then secondPass
  else
    ((hashFileBounded xxh3 (contents path)
      limits.maxHashedFileBytes).voting? limits).bind fun fastHash =>
        if mayContainFastHash index fastHash then secondPass
        else some (.excluded path)

def judgedFiles (files : List FsPath) : List Judged :=
  files.filterMap (judged? xxh3 contents index limits)

/-- The files before the budget is used up. -/
def examinedFiles : Nat → List FsPath → List FsPath
  | _, [] => []
  | budget, path :: files =>
    if budget = 0 then []
    else
      path :: examinedFiles
        (budget - (judgedFiles xxh3 contents index limits [path]).length)
        files

/-- A vendor root with the files that the budget covers. -/
structure ExaminedRoot where
  vendorRoot : FsPath
  files : List FsPath
  examined : List FsPath

def examinedRoots : Nat → List (FsPath × List FsPath) → List ExaminedRoot
  | _, [] => []
  | budget, (vendorRoot, files) :: roots =>
    let examined := examinedFiles xxh3 contents index limits budget files
    ⟨vendorRoot, files, examined⟩ :: examinedRoots
        (budget - (judgedFiles xxh3 contents index limits examined).length)
        roots

/-- The match of the files that the budget covers. -/
def examinedMatch (root : ExaminedRoot) : Option RootMatch :=
  rootMatch index root.vendorRoot
    (tallyOf index (judgedFiles xxh3 contents index limits root.examined))

variable {xxh3 contents index limits}

theorem judgeFile_eq (tally : RootTally) (path : FsPath) :
    judgeFile xxh3 contents index limits tally path =
      (judged? xxh3 contents index limits path).map (tallyStep index tally) := by
  unfold judgeFile judged?
  dsimp only
  split_ifs with hprefilter
  · rw [Option.map_map]
    rfl
  · rw [Option.map_bind]
    congr 1
    funext fastHash
    rw [Function.comp_apply]
    split_ifs
    · rw [Option.map_map]
      rfl
    · rfl

theorem judgedFiles_cons (path : FsPath) (files : List FsPath) :
    judgedFiles xxh3 contents index limits (path :: files) =
      judgedFiles xxh3 contents index limits [path] ++
        judgedFiles xxh3 contents index limits files := by
  rw [judgedFiles, ← List.singleton_append, List.filterMap_append]
  rfl

theorem tallyFiles_eq (vendorRoot : FsPath) (files : List FsPath)
    (progress : Progress) (start : List Judged) :
    let examined := examinedFiles xxh3 contents index limits
      (limits.maxHashedFiles - progress.hashedFiles) files
    let result := tallyFiles xxh3 contents index limits vendorRoot progress
      (tallyOf index start) files
    result.2 = tallyOf index
        (start ++ judgedFiles xxh3 contents index limits examined) ∧
      result.1.hashedFiles = progress.hashedFiles +
        (judgedFiles xxh3 contents index limits examined).length := by
  induction files generalizing progress start with
  | nil => simp [examinedFiles, tallyFiles, judgedFiles]
  | cons path files ih =>
    dsimp only
    rw [tallyFiles, examinedFiles]
    by_cases hfull : limits.maxHashedFiles ≤ progress.hashedFiles
    · rw [if_pos hfull, if_pos (Nat.sub_eq_zero_of_le hfull)]
      refine ⟨by simp [judgedFiles], ?_⟩
      unfold Progress.stop
      split_ifs <;> rfl
    · rw [if_neg hfull, if_neg (by omega), judgeFile_eq, judgedFiles_cons]
      cases hjudged : judged? xxh3 contents index limits path with
      | none =>
        have hnone : judgedFiles xxh3 contents index limits [path] = [] := by
          simp [judgedFiles, hjudged]
        rw [hnone]
        exact ih progress start
      | some file =>
        have hsome :
            judgedFiles xxh3 contents index limits [path] = [file] := by
          simp [judgedFiles, hjudged]
        have hstep : tallyStep index (tallyOf index start) file =
            tallyOf index (start ++ [file]) := by
          rw [tallyOf, tallyOf, List.foldl_append]
          rfl
        obtain ⟨htally, hcount⟩ := ih
          { progress with hashedFiles := progress.hashedFiles + 1 }
          (start ++ [file])
        rw [hsome]
        dsimp only [Option.map_some]
        rw [hstep]
        rw [Nat.sub_add_eq] at htally hcount
        refine ⟨?_, ?_⟩
        · rw [htally, List.append_assoc]
          rfl
        · rw [hcount, List.length_append, ← Nat.add_assoc]
          rfl

theorem matchRoots_eq (roots : List (FsPath × List FsPath))
    (progress : Progress) :
    (matchRoots xxh3 contents index limits progress roots).2 =
      (examinedRoots xxh3 contents index limits
        (limits.maxHashedFiles - progress.hashedFiles) roots).filterMap
          (examinedMatch xxh3 contents index limits) := by
  induction roots generalizing progress with
  | nil => rfl
  | cons root roots ih =>
    obtain ⟨vendorRoot, files⟩ := root
    obtain ⟨htally, hcount⟩ := @tallyFiles_eq xxh3 contents index limits
      vendorRoot files progress []
    have hempty : tallyOf index [] = {} := rfl
    rw [hempty] at htally hcount
    rw [List.nil_append] at htally
    rw [matchRoots, examinedRoots, List.filterMap_cons, examinedMatch]
    dsimp only
    rw [ih, hcount, Nat.sub_add_eq, htally]
    cases rootMatch index vendorRoot (tallyOf index (judgedFiles xxh3 contents
      index limits (examinedFiles xxh3 contents index limits
        (limits.maxHashedFiles - progress.hashedFiles) files))) <;> rfl

theorem length_judgedFiles_le (files : List FsPath) :
    (judgedFiles xxh3 contents index limits files).length ≤ files.length :=
  List.length_filterMap_le _ _

theorem examinedFiles_eq_self {budget : Nat} {files : List FsPath}
    (h : files.length ≤ budget) :
    examinedFiles xxh3 contents index limits budget files = files := by
  induction files generalizing budget with
  | nil => rfl
  | cons path files ih =>
    have hcount := @length_judgedFiles_le xxh3 contents index limits [path]
    rw [List.length_cons] at h hcount
    rw [List.length_nil] at hcount
    rw [examinedFiles, if_neg (by omega), ih (by omega)]

theorem examinedRoots_eq_map {budget : Nat}
    {roots : List (FsPath × List FsPath)}
    (h : (roots.map fun root => root.2.length).sum ≤ budget) :
    examinedRoots xxh3 contents index limits budget roots =
      roots.map fun root => ⟨root.1, root.2, root.2⟩ := by
  induction roots generalizing budget with
  | nil => rfl
  | cons root roots ih =>
    obtain ⟨vendorRoot, files⟩ := root
    have hcount := @length_judgedFiles_le xxh3 contents index limits files
    rw [List.map_cons, List.sum_cons] at h
    change files.length + _ ≤ budget at h
    rw [examinedRoots, examinedFiles_eq_self (by omega), ih (by omega)]
    rfl

theorem map_examinedRoots (budget : Nat) (roots : List (FsPath × List FsPath)) :
    (examinedRoots xxh3 contents index limits budget roots).map
      (fun root => (root.vendorRoot, root.files)) = roots := by
  induction roots generalizing budget with
  | nil => rfl
  | cons root roots ih =>
    obtain ⟨vendorRoot, files⟩ := root
    rw [examinedRoots, List.map_cons, ih]

/-! ## The matches of a budget -/

variable (xxh3 contents index limits)

def withoutBudget (fileIndex : List FsPath) : MatchLimits :=
  { limits with
    maxHashedFiles :=
      ((filesByVendorRoot fileIndex).map fun root => root.2.length).sum }

def coveredRoots (fileIndex : List FsPath) : List ExaminedRoot :=
  examinedRoots xxh3 contents index limits limits.maxHashedFiles
    (filesByVendorRoot fileIndex)

/-- Each match is the one that the root has without a budget, and a root that
was not examined completely has none. -/
structure IsBudgetSafe (fileIndex : List FsPath) : Prop where
  same : ∀ found ∈
    (matchVendoredFiles xxh3 contents index limits fileIndex).value,
      found ∈ (matchVendoredFiles xxh3 contents index
        (withoutBudget limits fileIndex) fileIndex).value
  left_out : ∀ root ∈ coveredRoots xxh3 contents index limits fileIndex,
    root.examined ≠ root.files → ∀ found ∈
      (matchVendoredFiles xxh3 contents index limits fileIndex).value,
        found.vendorRoot ≠ root.vendorRoot

/-- The files that come before the cut are too few of any library. -/
def CutsUnattributed (fileIndex : List FsPath) : Prop :=
  ∀ root ∈ coveredRoots xxh3 contents index limits fileIndex,
    root.examined ≠ root.files → ¬ IsAttributed index
        (judgedFiles xxh3 contents index limits root.examined)

variable {xxh3 contents index limits} {fileIndex : List FsPath}

theorem coveredRoots_withoutBudget :
    coveredRoots xxh3 contents index (withoutBudget limits fileIndex)
      fileIndex =
      (filesByVendorRoot fileIndex).map fun root => ⟨root.1, root.2, root.2⟩ :=
  examinedRoots_eq_map (le_refl _)

theorem mem_matchVendoredFiles_iff (hfiles : index.files ≠ [])
    {found : RootMatch} :
    found ∈ (matchVendoredFiles xxh3 contents index limits fileIndex).value ↔
      ∃ root ∈ coveredRoots xxh3 contents index limits fileIndex,
        examinedMatch xxh3 contents index limits root = some found := by
  rw [matchVendoredFiles, if_neg hfiles]
  dsimp only
  rw [List.mem_insertionSort, matchRoots_eq, List.mem_filterMap]
  rfl

theorem nodup_map_vendorRoot :
    ((coveredRoots xxh3 contents index limits fileIndex).map
      ExaminedRoot.vendorRoot).Nodup := by
  have hmap : (coveredRoots xxh3 contents index limits fileIndex).map
      ExaminedRoot.vendorRoot = (filesByVendorRoot fileIndex).map Prod.fst := by
    rw [← map_examinedRoots limits.maxHashedFiles (filesByVendorRoot fileIndex),
      List.map_map]
    rfl
  rw [hmap, filesByVendorRoot, List.map_map]
  exact nodup_keys_toList _

/-- A root that is examined completely has the match that it has without a
budget. -/
theorem mem_withoutBudget_of_complete (hfiles : index.files ≠ [])
    {root : ExaminedRoot}
    (hroot : root ∈ coveredRoots xxh3 contents index limits fileIndex)
    (hcomplete : root.examined = root.files) {found : RootMatch}
    (hfound : examinedMatch xxh3 contents index limits root = some found) :
    found ∈ (matchVendoredFiles xxh3 contents index
      (withoutBudget limits fileIndex) fileIndex).value := by
  rw [mem_matchVendoredFiles_iff hfiles, coveredRoots_withoutBudget]
  refine ⟨root, List.mem_map.mpr ⟨(root.vendorRoot, root.files), ?_, ?_⟩,
    hfound⟩
  · have hmem := List.mem_map_of_mem
      (f := fun root : ExaminedRoot => (root.vendorRoot, root.files)) hroot
    rwa [coveredRoots, map_examinedRoots] at hmem
  · obtain ⟨vendorRoot, files, examined⟩ := root
    obtain rfl : examined = files := hcomplete
    rfl

theorem isBudgetSafe_of_cutsUnattributed (hindex : index.Consistent)
    (hfiles : index.files ≠ [])
    (h : CutsUnattributed xxh3 contents index limits fileIndex) :
    IsBudgetSafe xxh3 contents index limits fileIndex := by
  have hcomplete : ∀ root ∈ coveredRoots xxh3 contents index limits fileIndex,
      ∀ found, examinedMatch xxh3 contents index limits root = some found →
        root.examined = root.files := by
    intro root hroot found hfound
    by_contra hcut
    apply h root hroot hcut
    rw [← rootMatch_ne_none_iff hindex, ← examinedMatch, hfound]
    simp
  constructor
  · intro found hmem
    obtain ⟨root, hroot, hfound⟩ := (mem_matchVendoredFiles_iff hfiles).mp hmem
    exact mem_withoutBudget_of_complete hfiles hroot
      (hcomplete root hroot found hfound) hfound
  · intro root hroot hcut found hmem heq
    obtain ⟨other, hother, hfound⟩ := (mem_matchVendoredFiles_iff hfiles).mp hmem
    obtain rfl : other = root :=
      List.inj_on_of_nodup_map nodup_map_vendorRoot hother hroot
        ((vendorRoot_of_rootMatch hfound).symm.trans heq)
    exact hcut (hcomplete other hother found hfound)

theorem cutsUnattributed_of_isBudgetSafe (hindex : index.Consistent)
    (hfiles : index.files ≠ [])
    (h : IsBudgetSafe xxh3 contents index limits fileIndex) :
    CutsUnattributed xxh3 contents index limits fileIndex := by
  intro root hroot hcut hattributed
  rw [← @rootMatch_ne_none_iff _ hindex root.vendorRoot] at hattributed
  obtain ⟨found, hfound⟩ := Option.ne_none_iff_exists'.mp hattributed
  exact h.left_out root hroot hcut found
    ((mem_matchVendoredFiles_iff hfiles).mpr ⟨root, hroot, hfound⟩)
    (vendorRoot_of_rootMatch hfound)

theorem not_isAttributed_of_files_nil (hindex : index.Consistent)
    (hfiles : index.files = []) (files : List Judged) :
    ¬ IsAttributed index files := by
  rintro ⟨library, release, hbest, -⟩
  obtain ⟨release, -, hpos⟩ := exists_releaseScore_pos hbest.pos
  obtain ⟨file, -, hfile⟩ := List.countP_pos_iff.mp hpos
  cases file with
  | excluded path => simp [Judged.releases] at hfile
  | hashed path digest =>
    rcases hindex.releasesForDigest_cases digest with
      hnone | ⟨entry, hentry, -⟩
    · simp [Judged.releases, hnone] at hfile
    · simp [hfiles] at hentry

theorem isBudgetSafe_iff (hindex : index.Consistent) :
    IsBudgetSafe xxh3 contents index limits fileIndex ↔
      CutsUnattributed xxh3 contents index limits fileIndex := by
  by_cases hfiles : index.files = []
  · refine iff_of_true ⟨?_, ?_⟩ ?_
    · intro found hfound
      rw [matchVendoredFiles, if_pos hfiles] at hfound
      cases hfound
    · intro root _ _ found hfound
      rw [matchVendoredFiles, if_pos hfiles] at hfound
      cases hfound
    · intro root _ _
      exact not_isAttributed_of_files_nil hindex hfiles _
  · exact ⟨cutsUnattributed_of_isBudgetSafe hindex hfiles,
      isBudgetSafe_of_cutsUnattributed hindex hfiles⟩

end Budget

/-- A library with one release of one file. -/
def oneFileIndex : Index where
  libraries := [{ name := "zlib", purlType := "generic" }]
  releases := [{ version := "1.2.11", fileCount := 1 }]
  files :=
    [{ digest := sha256 (List.replicate 64 97), firstReleaseRef := 0
       releaseRefCount := 1 }]
  releaseRefs := [0]

theorem consistent_oneFileIndex : oneFileIndex.Consistent where
  span_le := by decide
  span_lt := by decide
  ref_lt := by decide
  library_lt := by decide
  version_ne := by decide
  digest_lt := by decide

/-- The file of the release, beside a file of the project. -/
def twoFiles (path : FsPath) : Option (List UInt8) :=
  if path = .ofString "deps/zlib/a.h" then some (List.replicate 64 97)
  else some (List.replicate 64 98)

def twoPaths : List FsPath :=
  [.ofString "deps/zlib/a.h", .ofString "deps/zlib/b.h"]

theorem isBudgetSafe_iff_twoPaths :
    IsBudgetSafe (fun _ => 0) twoFiles oneFileIndex {} twoPaths ↔
      CutsUnattributed (fun _ => 0) twoFiles oneFileIndex {} twoPaths :=
  isBudgetSafe_iff consistent_oneFileIndex

/-- A budget of one file: the match knows nothing of the second file. -/
theorem not_isBudgetSafe_twoPaths :
    ¬ IsBudgetSafe (fun _ => 0) twoFiles oneFileIndex
      { maxHashedFiles := 1 } twoPaths := by
  intro h
  have hcut : ((matchVendoredFiles (fun _ => 0) twoFiles oneFileIndex
      { maxHashedFiles := 1 } twoPaths).value.any fun found =>
        found.filesConsidered = 1) = true := by
    decide +kernel
  have hfull : ((matchVendoredFiles (fun _ => 0) twoFiles oneFileIndex
      (withoutBudget { maxHashedFiles := 1 } twoPaths) twoPaths).value.all
        fun found => found.filesConsidered = 2) = true := by
    decide +kernel
  obtain ⟨found, hmem, hone⟩ := List.any_eq_true.mp hcut
  have htwo := List.all_eq_true.mp hfull found (h.same found hmem)
  rw [decide_eq_true_eq] at hone htwo
  omega

theorem mem_matchVendoredFiles_twoPaths :
    ∃ found vendorRoot judged, (∀ file ∈ judged, file.path ∈ twoPaths ∧
        vendorRootFor file.path = some vendorRoot ∧
        file.IsGenuine twoFiles) ∧
      rootMatch oneFileIndex vendorRoot (tallyOf oneFileIndex judged) =
        some found := by
  have hne : (matchVendoredFiles (fun _ => 0) twoFiles oneFileIndex {}
      twoPaths).value ≠ [] := by
    decide +kernel
  exact ⟨_, mem_matchVendoredFiles (List.head_mem hne)⟩

end Bomwerk.Heuristics.Fingerprint
