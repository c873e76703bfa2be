import Bomwerk.Heuristics.FingerprintVerdict

/-!
# The prefilter

When the first pass over the vendored files loses nothing.  An entry of the
prefilter that cannot be read is skipped, and the file of the corpus that it
was written for is then excluded without a look at its digest, unless nothing
at all could be read.
-/

namespace Bomwerk.Heuristics.Fingerprint

open Bomwerk.Core Bomwerk.Support

def Index.unfiltered (index : Index) : Index := { index with prefilter := [] }

/-- The document's corpus, by content: a file for each digest, and for each file
an entry of the prefilter, which is its fast hash or cannot be read. -/
structure DescribesCorpus (xxh3 : List UInt8 → UInt64) (document : Json)
    (corpus : List (List UInt8)) : Prop where
  nodup : (corpus.map sha256).Nodup
  listed : ∀ digest, (∃ member ∈ fileMembers document,
      sha256FromHex (utf8Encode member.1.toList) = some digest) ↔
        ∃ content ∈ corpus, sha256 content = digest
  prefilter : ∃ order : List (List UInt8), order.Perm corpus ∧
    List.Forall₂ (fun content entry =>
      readFastHash entry = some (xxh3 content) ∨ readFastHash entry = none)
      order (prefilterEntries document)

/-- Every set of vendored files has the same matches with the prefilter and
without it, as long as none of them is a hash collision with the corpus. -/
def PrefilterLosesNothing (xxh3 : List UInt8 → UInt64) (index : Index)
    (corpus : List (List UInt8)) (limits : MatchLimits) : Prop :=
  ∀ (contents : FsPath → Option (List UInt8)) (fileIndex : List FsPath),
    (∀ path bytes, contents path = some bytes →
      ∀ content ∈ corpus, sha256 bytes = sha256 content → bytes = content) →
    (matchVendoredFiles xxh3 contents index limits fileIndex).value =
      (matchVendoredFiles xxh3 contents index.unfiltered limits fileIndex).value

theorem mem_loadPrefilter_iff {document : Json} {fastHash : UInt64} :
    fastHash ∈ (loadPrefilter document).1 ↔ ∃ entry ∈ prefilterEntries document,
        readFastHash entry = some fastHash := by
  have h := @map_key_mem_uniqueBy_iff _ _ _ id
    (((prefilterEntries document).filterMap readFastHash).insertionSort
      fun left right => left.toNat ≤ right.toNat) fastHash
  rw [List.map_id, List.map_id, List.mem_insertionSort, List.mem_filterMap] at h
  exact h

theorem prefilter_of_loadDocument {limits : LoadLimits} {document : Json}
    {result : Result Index}
    (h : loadDocument limits document = .ok result) :
    result.value.prefilter = (loadPrefilter document).1 := by
  rw [loadDocument] at h
  cases hlibraries : loadLibraries document limits with
  | error message => simp [hlibraries] at h
  | ok libraries =>
    cases hreleases : loadReleases document limits libraries.length with
    | error message => simp [hlibraries, hreleases] at h
    | ok releases =>
      simp only [hlibraries, hreleases] at h
      obtain rfl := Except.ok.inj h
      rfl

/-! ## Where both agree -/

section Agreement

variable {xxh3 : List UInt8 → UInt64}
  {contents : FsPath → Option (List UInt8)} {index : Index}
  {limits : MatchLimits}

theorem matchRoots_unfiltered
    (h : ∀ vendorRoot progress files,
      tallyFiles xxh3 contents index limits vendorRoot progress {} files =
        tallyFiles xxh3 contents index.unfiltered limits vendorRoot progress {}
          files)
    (progress : Progress) (roots : List (FsPath × List FsPath)) :
    matchRoots xxh3 contents index limits progress roots =
      matchRoots xxh3 contents index.unfiltered limits progress roots := by
  induction roots generalizing progress with
  | nil => rfl
  | cons root roots ih =>
    obtain ⟨vendorRoot, files⟩ := root
    simp only [matchRoots, ← h, ih]
    rfl

theorem matchVendoredFiles_unfiltered
    (h : ∀ vendorRoot progress files,
      tallyFiles xxh3 contents index limits vendorRoot progress {} files =
        tallyFiles xxh3 contents index.unfiltered limits vendorRoot progress {}
          files) (fileIndex : List FsPath) :
    matchVendoredFiles xxh3 contents index limits fileIndex =
      matchVendoredFiles xxh3 contents index.unfiltered limits fileIndex := by
  rw [matchVendoredFiles, matchVendoredFiles, matchRoots_unfiltered h]
  rfl

theorem tallyFiles_of_maxHashedFiles_eq_zero
    (hnone : limits.maxHashedFiles = 0) (vendorRoot : FsPath)
    (progress : Progress) (files : List FsPath) :
    tallyFiles xxh3 contents index limits vendorRoot progress {} files =
      tallyFiles xxh3 contents index.unfiltered limits vendorRoot progress {}
        files := by
  cases files with
  | nil => rfl
  | cons path files =>
    have hfull : limits.maxHashedFiles ≤ progress.hashedFiles := by omega
    rw [tallyFiles, tallyFiles, if_pos hfull, if_pos hfull]

theorem tallyFiles_of_judgeFile
    (h : ∀ tally path, judgeFile xxh3 contents index limits tally path =
        judgeFile xxh3 contents index.unfiltered limits tally path)
    (vendorRoot : FsPath) (progress : Progress) (tally : RootTally)
    (files : List FsPath) :
    tallyFiles xxh3 contents index limits vendorRoot progress tally files =
      tallyFiles xxh3 contents index.unfiltered limits vendorRoot progress tally
        files := by
  induction files generalizing progress tally with
  | nil => rfl
  | cons path files ih =>
    rw [tallyFiles, tallyFiles, h]
    simp only [ih]

theorem voting?_eq {α : Type} (hash : List UInt8 → α) (bytes : List UInt8) :
    (hashFileBounded hash (some bytes) limits.maxHashedFileBytes).voting?
        limits =
      if limits.minHashableBytes ≤ bytes.length ∧
          bytes.length ≤ limits.maxHashedFileBytes then some (hash bytes)
      else none := by
  rw [hashFileBounded, BoundedFileHash.voting?]
  by_cases hlong : limits.maxHashedFileBytes < bytes.length
  · have hsize : ¬(limits.minHashableBytes ≤ bytes.length ∧
        bytes.length ≤ limits.maxHashedFileBytes) :=
      fun h => absurd h.2 (not_le.mpr hlong)
    rw [if_pos hlong, if_neg hsize]
    simp
  · rw [if_neg hlong]
    by_cases hshort : bytes.length < limits.minHashableBytes
    · have hsize : ¬(limits.minHashableBytes ≤ bytes.length ∧
          bytes.length ≤ limits.maxHashedFileBytes) :=
        fun h => absurd h.1 (not_le.mpr hshort)
      rw [if_neg hsize]
      simp [hshort]
    · have hsize : limits.minHashableBytes ≤ bytes.length ∧
          bytes.length ≤ limits.maxHashedFileBytes :=
        ⟨not_lt.mp hshort, not_lt.mp hlong⟩
      rw [if_pos hsize]
      simp [hshort]

/-- A file is judged alike when an excluded one would not have been found. -/
theorem judgeFile_unfiltered
    (h : ∀ path bytes, contents path = some bytes →
      limits.minHashableBytes ≤ bytes.length →
      bytes.length ≤ limits.maxHashedFileBytes →
      mayContainFastHash index (xxh3 bytes) = false →
        releasesForDigest index (sha256 bytes) = [])
    (tally : RootTally) (path : FsPath) :
    judgeFile xxh3 contents index limits tally path =
      judgeFile xxh3 contents index.unfiltered limits tally path := by
  by_cases hprefilter : index.prefilter = []
  · rw [judgeFile, judgeFile, if_pos hprefilter]
    rfl
  · rw [judgeFile, judgeFile, if_neg hprefilter,
      if_pos (show index.unfiltered.prefilter = [] from rfl)]
    cases hcontent : contents path with
    | none => rfl
    | some bytes =>
      rw [voting?_eq, voting?_eq]
      by_cases hsize : limits.minHashableBytes ≤ bytes.length ∧
          bytes.length ≤ limits.maxHashedFileBytes
      · rw [if_pos hsize, if_pos hsize, Option.bind_some]
        by_cases hmay : mayContainFastHash index (xxh3 bytes) = true
        · rw [if_pos hmay]
          rfl
        · rw [if_neg hmay]
          have hnone := h path bytes hcontent hsize.1 hsize.2
            (Bool.eq_false_of_not_eq_true hmay)
          have hjudge : tally.judge index.unfiltered path (sha256 bytes) =
              tally.reject path := if_pos hnone
          rw [Option.map_some, hjudge]
      · rw [if_neg hsize, if_neg hsize]
        rfl

end Agreement

/-! ## Where it excludes a file of the corpus -/

/-- A vendored copy of one file of the corpus. -/
def copyOf (content : List UInt8) : FsPath → Option (List UInt8) :=
  fun _ => some content

def copiedFile : FsPath := .ofString "deps/zlib/zlib.h"

section Copy

variable {xxh3 : List UInt8 → UInt64} {index : Index} {limits : MatchLimits}
  {content : List UInt8}

theorem filesByVendorRoot_copiedFile :
    filesByVendorRoot [copiedFile] =
      [(.ofString "deps/zlib", [copiedFile])] := by
  have hroot : vendorRootFor copiedFile = some (.ofString "deps/zlib") := by
    decide
  have hgroups : (groupInto Prod.fst
      [(FsPath.ofString "deps/zlib", copiedFile)]).toList =
      [(.ofString "deps/zlib",
        [(FsPath.ofString "deps/zlib", copiedFile)])] := by
    apply toList_eq_of_pairwise_lt (List.pairwise_singleton _ _)
    intro root group
    rw [groupInto_getElem?]
    by_cases hsame : FsPath.ofString "deps/zlib" = root
    · simp [hsame, eq_comm]
    · simp [hsame, Ne.symm hsame]
  rw [filesByVendorRoot, List.filterMap_cons, hroot]
  simp only [Option.map_some, List.filterMap_nil]
  rw [hgroups]
  rfl

theorem matchVendoredFiles_copiedFile (hfiles : index.files ≠ [])
    (hbudget : 0 < limits.maxHashedFiles) {file : Judged}
    (hjudge : judgeFile xxh3 (copyOf content) index limits {} copiedFile =
      some (tallyStep index {} file)) :
    (matchVendoredFiles xxh3 (copyOf content) index limits [copiedFile]).value =
      (rootMatch index (.ofString "deps/zlib")
        (tallyOf index [file])).toList := by
  rw [matchVendoredFiles, if_neg hfiles, filesByVendorRoot_copiedFile]
  simp only [matchRoots, tallyFiles, if_neg (not_le.mpr hbudget), hjudge,
    List.append_nil]
  change (rootMatch index _ (tallyOf index [file])).toList.insertionSort _ = _
  cases rootMatch index (.ofString "deps/zlib") (tallyOf index [file]) <;> rfl

/-- A file of the corpus that is hashed is found, when it is the only one. -/
theorem rootMatch_ne_none (hindex : index.Consistent) {path vendorRoot : FsPath}
    {digest : List UInt8} (hheld : releasesForDigest index digest ≠ []) :
    rootMatch index vendorRoot (tallyOf index [.hashed path digest]) ≠ none := by
  have h := countsOf_tallyOf hindex [.hashed path digest]
  obtain ⟨release, hrelease⟩ := List.exists_mem_of_ne_nil _ hheld
  cases hlibrary : bestLibrary index (tallyOf index [.hashed path digest]) with
  | none =>
    have hzero := (bestLibrary_eq_none_iff h).mp hlibrary
      (libraryOf index release)
    have hpos : 0 < libraryScore index [.hashed path digest]
        (libraryOf index release) :=
      List.countP_pos_iff.mpr ⟨.hashed path digest, List.mem_cons_self,
        decide_eq_true ⟨release, hrelease, rfl⟩⟩
    omega
  | some library =>
    have hbest := isBestLibrary_of_bestLibrary h hlibrary
    obtain ⟨releases, -, -, hmem, -, hmany⟩ :=
      @rootMatch_of_bestLibrary _ hindex vendorRoot _ _ h _ hlibrary
    have henough : ∀ release ∈ releases, [Judged.hashed path digest].length ≤
          releaseScore index [.hashed path digest] release * 8 := by
      intro release hrelease
      have hpos := ((hmem release).mp hrelease).releaseScore_pos hindex
        hbest.pos
      rw [List.length_singleton]
      omega
    obtain ⟨found, hfound, -⟩ := hmany henough
    rw [hfound]
    simp

theorem rootMatch_excluded (hindex : index.Consistent)
    {path vendorRoot : FsPath} :
    rootMatch index vendorRoot (tallyOf index [.excluded path]) = none := by
  have h := countsOf_tallyOf hindex [.excluded path]
  have hnone : bestLibrary index (tallyOf index [.excluded path]) = none := by
    rw [bestLibrary_eq_none_iff h]
    intro library
    simp [libraryScore, Judged.releases]
  rw [rootMatch, hnone]

/-- A file of the corpus whose fast hash the prefilter misses is found only
without the prefilter. -/
theorem matchVendoredFiles_copyOf_ne (hindex : index.Consistent)
    (hbudget : 0 < limits.maxHashedFiles)
    (hsize : limits.minHashableBytes ≤ content.length ∧
      content.length ≤ limits.maxHashedFileBytes)
    (hheld : releasesForDigest index (sha256 content) ≠ [])
    (hprefilter : index.prefilter ≠ [])
    (hmissing : xxh3 content ∉ index.prefilter) :
    (matchVendoredFiles xxh3 (copyOf content) index limits [copiedFile]).value ≠
      (matchVendoredFiles xxh3 (copyOf content) index.unfiltered limits
        [copiedFile]).value := by
  have hfiles : index.files ≠ [] := by
    intro hnil
    exact hheld (Index.releasesForDigest_eq_nil (by simp [hnil]))
  have hexcluded : judgeFile xxh3 (copyOf content) index limits {} copiedFile =
      some (tallyStep index {} (.excluded copiedFile)) := by
    have hmay : ¬mayContainFastHash index (xxh3 content) = true := by
      rw [mayContainFastHash, if_neg hprefilter]
      simpa using hmissing
    rw [judgeFile, if_neg hprefilter, copyOf, voting?_eq, if_pos hsize,
      Option.bind_some, if_neg hmay]
    rfl
  have hhashed : judgeFile xxh3 (copyOf content) index.unfiltered limits {}
      copiedFile = some (tallyStep index.unfiltered {}
        (.hashed copiedFile (sha256 content))) := by
    rw [judgeFile, if_pos (show index.unfiltered.prefilter = [] from rfl),
      copyOf, voting?_eq, if_pos hsize]
    rfl
  have hunfiltered : index.unfiltered.Consistent :=
    ⟨hindex.span_le, hindex.span_lt, hindex.ref_lt, hindex.library_lt,
      hindex.version_ne, hindex.digest_lt⟩
  rw [matchVendoredFiles_copiedFile hfiles hbudget hexcluded,
    @matchVendoredFiles_copiedFile _ index.unfiltered _ _ hfiles hbudget _
      hhashed,
    rootMatch_excluded hindex]
  intro heq
  exact rootMatch_ne_none hunfiltered hheld (Option.toList_eq_nil_iff.mp heq.symm)

end Copy

/-! ## Exactly when nothing is lost -/

section Exact

variable {xxh3 : List UInt8 → UInt64} {parse : List UInt8 → Option Json}
  {limits : LoadLimits} {file : Option (List UInt8)} {document : Json}
  {corpus : List (List UInt8)}

theorem mem_prefilter_loadIndex_iff
    (haccepts : Accepts parse limits file document) {fastHash : UInt64} :
    fastHash ∈ (loadIndex parse limits file).value.prefilter ↔
      ∃ entry ∈ prefilterEntries document,
        readFastHash entry = some fastHash := by
  rw [prefilter_of_loadDocument (loadIndex_of_accepts haccepts),
    mem_loadPrefilter_iff]

theorem prefilter_loadIndex_eq_nil_iff
    (haccepts : Accepts parse limits file document) :
    (loadIndex parse limits file).value.prefilter = [] ↔
      ∀ entry ∈ prefilterEntries document, readFastHash entry = none := by
  rw [List.eq_nil_iff_forall_not_mem]
  simp only [mem_prefilter_loadIndex_iff haccepts, not_exists, not_and]
  constructor
  · intro h entry hentry
    by_contra hsome
    obtain ⟨fastHash, hread⟩ := Option.ne_none_iff_exists'.mp hsome
    exact h fastHash entry hentry hread
  · intro h fastHash entry hentry hread
    rw [h entry hentry] at hread
    exact absurd hread (by simp)

theorem exists_isListing {releases : Nat} {members : List (String × Json)}
    {member : String × Json}
    (hmember : member ∈ keptMembers limits releases members) :
    ∃ digest listed, IsListing limits releases member digest listed := by
  simpa using List.of_mem_filter (List.mem_of_mem_take hmember)

/-- The files that a digest finds are those that the document keeps. -/
theorem releasesForDigest_ne_nil_iff (hparse : IsJsonParser parse)
    (hlimits : limits.maxIndexBytes ≤ 2 ^ 32)
    (haccepts : Accepts parse limits file document) {digest : List UInt8} :
    releasesForDigest (loadIndex parse limits file).value digest ≠ [] ↔
      ∃ member ∈ keptMembers limits (releaseCount document)
          (fileMembers document),
        sha256FromHex (utf8Encode member.1.toList) = some digest := by
  constructor
  · intro hne
    obtain ⟨release, hrelease⟩ := List.exists_mem_of_ne_nil _ hne
    obtain ⟨member, hmember, listed, hlisting, -⟩ :=
      (mem_releasesForDigest_loadIndex hparse hlimits haccepts).mp hrelease
    exact ⟨member, hmember, hlisting.digest_eq⟩
  · rintro ⟨member, hmember, hdigest⟩
    obtain ⟨other, listed, hlisting⟩ := exists_isListing hmember
    obtain rfl := Option.some.inj (hlisting.digest_eq.symm.trans hdigest)
    obtain ⟨release, hrelease⟩ := List.exists_mem_of_ne_nil _ hlisting.ne_nil
    exact List.ne_nil_of_mem ((mem_releasesForDigest_loadIndex hparse hlimits
      haccepts).mpr ⟨member, hmember, listed, hlisting, hrelease⟩)

theorem mem_fileMembers_of_mem_keptMembers {releases : Nat}
    {members : List (String × Json)} {member : String × Json}
    (hmember : member ∈ keptMembers limits releases members) :
    member ∈ members :=
  List.mem_of_mem_filter (List.mem_of_mem_take hmember)

theorem mem_keptMembers {releases : Nat} {members : List (String × Json)}
    (hlength : members.length ≤ limits.maxDigests) {member : String × Json}
    (hmember : member ∈ members) {digest : List UInt8} {listed : List Nat}
    (hlisting : IsListing limits releases member digest listed) :
    member ∈ keptMembers limits releases members := by
  rw [keptMembers, List.take_of_length_le
    ((List.length_filter_le _ _).trans hlength)]
  exact List.mem_filter.mpr ⟨hmember, by simpa using ⟨digest, listed, hlisting⟩⟩

/-- When every hashable file of the corpus passes, nothing that is found is
excluded. -/
theorem releasesForDigest_eq_nil_of_excluded (hparse : IsJsonParser parse)
    (hlimits : limits.maxIndexBytes ≤ 2 ^ 32)
    (haccepts : Accepts parse limits file document)
    (hcorpus : DescribesCorpus xxh3 document corpus) {bytes : List UInt8}
    (hgenuine : ∀ content ∈ corpus,
      sha256 bytes = sha256 content → bytes = content)
    (hpasses : bytes ∈ corpus →
      (∃ member ∈ keptMembers limits (releaseCount document)
          (fileMembers document),
        sha256FromHex (utf8Encode member.1.toList) = some (sha256 bytes)) →
      ∃ entry ∈ prefilterEntries document,
        readFastHash entry = some (xxh3 bytes))
    (hmay : mayContainFastHash (loadIndex parse limits file).value
      (xxh3 bytes) = false) :
    releasesForDigest (loadIndex parse limits file).value (sha256 bytes) =
      [] := by
  by_contra hne
  obtain ⟨member, hmember, hdigest⟩ :=
    (releasesForDigest_ne_nil_iff hparse hlimits haccepts).mp hne
  obtain ⟨content, hcontent, hsame⟩ := (hcorpus.listed (sha256 bytes)).mp
    ⟨member, mem_fileMembers_of_mem_keptMembers hmember, hdigest⟩
  obtain rfl := hgenuine content hcontent hsame.symm
  have hmem := (mem_prefilter_loadIndex_iff haccepts).mpr
    (hpasses hcontent ⟨member, hmember, hdigest⟩)
  rw [mayContainFastHash, if_neg (List.ne_nil_of_mem hmem)] at hmay
  simp [hmem] at hmay

/-- A file of the corpus whose entry is missing is lost, unless no entry can be
read. -/
theorem not_losesNothing (hparse : IsJsonParser parse)
    (hlimits : limits.maxIndexBytes ≤ 2 ^ 32)
    (haccepts : Accepts parse limits file document)
    (hcorpus : DescribesCorpus xxh3 document corpus)
    {matchLimits : MatchLimits} (hbudget : matchLimits.maxHashedFiles ≠ 0)
    {entry : Json} (hentry : entry ∈ prefilterEntries document)
    (hread : readFastHash entry ≠ none) {content : List UInt8}
    (hcontent : content ∈ corpus)
    (hsize : matchLimits.minHashableBytes ≤ content.length ∧
      content.length ≤ matchLimits.maxHashedFileBytes)
    (hkept : ∃ member ∈ keptMembers limits (releaseCount document)
        (fileMembers document),
      sha256FromHex (utf8Encode member.1.toList) = some (sha256 content))
    (hmissing : ∀ entry ∈ prefilterEntries document,
      readFastHash entry ≠ some (xxh3 content)) :
    ¬PrefilterLosesNothing xxh3 (loadIndex parse limits file).value corpus
      matchLimits := by
  intro hsame
  have hindex := @consistent_loadIndex parse limits file hparse hlimits
  apply @matchVendoredFiles_copyOf_ne xxh3 _ matchLimits content hindex
    (Nat.pos_of_ne_zero hbudget) hsize
  · exact (releasesForDigest_ne_nil_iff hparse hlimits haccepts).mpr hkept
  · rw [ne_eq, prefilter_loadIndex_eq_nil_iff haccepts]
    exact fun hall => hread (hall entry hentry)
  · rw [mem_prefilter_loadIndex_iff haccepts]
    rintro ⟨other, hother, hfound⟩
    exact hmissing other hother hfound
  · apply hsame
    intro path bytes hbytes other hother hcollision
    obtain rfl : content = bytes := Option.some.inj hbytes
    exact List.inj_on_of_nodup_map hcorpus.nodup hcontent hother hcollision

end Exact

/-- The prefilter loses nothing exactly when no file is ever hashed, when none
of its entries can be read, or when the fast hash of every file of the corpus
that the index keeps and a vendored file may equal is among the entries that can
be read. -/
theorem prefilter_losesNothing_iff {xxh3 : List UInt8 → UInt64}
    {parse : List UInt8 → Option Json} (hparse : IsJsonParser parse)
    {limits : LoadLimits} (hlimits : limits.maxIndexBytes ≤ 2 ^ 32)
    {file : Option (List UInt8)} {document : Json}
    (haccepts : Accepts parse limits file document)
    {corpus : List (List UInt8)}
    (hcorpus : DescribesCorpus xxh3 document corpus)
    (matchLimits : MatchLimits) :
    PrefilterLosesNothing xxh3 (loadIndex parse limits file).value corpus
        matchLimits ↔
      matchLimits.maxHashedFiles = 0 ∨
        (∀ entry ∈ prefilterEntries document, readFastHash entry = none) ∨
        ∀ content ∈ corpus,
          matchLimits.minHashableBytes ≤ content.length →
          content.length ≤ matchLimits.maxHashedFileBytes →
          (∃ member ∈ keptMembers limits (releaseCount document)
              (fileMembers document),
            sha256FromHex (utf8Encode member.1.toList) =
              some (sha256 content)) →
          ∃ entry ∈ prefilterEntries document,
            readFastHash entry = some (xxh3 content) := by
  constructor
  · intro hsame
    by_contra hnot
    push Not at hnot
    obtain ⟨hbudget, ⟨entry, hentry, hread⟩, content, hcontent, hlong, hshort,
      hkept, hmissing⟩ := hnot
    exact not_losesNothing hparse hlimits haccepts hcorpus hbudget hentry hread
      hcontent ⟨hlong, hshort⟩ hkept hmissing hsame
  · intro hcases contents fileIndex hgenuine
    apply congrArg Result.value
    rcases hcases with hnone | hunread | hpasses
    · exact matchVendoredFiles_unfiltered
        (tallyFiles_of_maxHashedFiles_eq_zero hnone) fileIndex
    · have hempty := (prefilter_loadIndex_eq_nil_iff haccepts).mpr hunread
      rw [Index.unfiltered, ← hempty]
    · apply matchVendoredFiles_unfiltered
      intro vendorRoot progress files
      apply tallyFiles_of_judgeFile
      apply judgeFile_unfiltered
      intro path bytes hbytes hlong hshort hmay
      exact releasesForDigest_eq_nil_of_excluded hparse hlimits haccepts hcorpus
        (hgenuine path bytes hbytes)
        (fun hmem => hpasses bytes hmem hlong hshort) hmay

/-! ## A prefilter with an entry in capital letters -/

def fileOfA : List UInt8 := List.replicate 64 'a'.toUInt8

def fileOfB : List UInt8 := List.replicate 64 'b'.toUInt8

def fastHashSample (content : List UInt8) : UInt64 :=
  if content = fileOfA then 0x2dddcef07d26ee8c
  else if content = fileOfB then 0x23902be2e2f52f50
  else 0

theorem accepts_sample :
    Accepts parseSample {} (some sampleText) sampleDocument := by
  have hlength : sampleText.length ≤ 1024 := by decide +kernel
  have htake : sampleText.take (64 * 1024 * 1024) = sampleText :=
    List.take_of_length_le (by omega)
  have hshort : ¬64 * 1024 * 1024 < sampleText.length := by omega
  have hmark : Lockfiles.Npm.withoutUtf8Bom sampleText = sampleText := by
    decide +kernel
  have hdepth : JsonUtils.exceedsJsonNestingDepth sampleText 8 = false := by
    decide +kernel
  have hparse : parseSample sampleText = some sampleDocument := if_pos rfl
  have hversion : unsignedField sampleDocument "schema_version" =
      some indexSchemaVersion := by
    decide +kernel
  refine ⟨?_, _, rfl⟩
  simp only [readDocument, Lockfiles.readFileBounded, htake, hmark, hdepth,
    hparse, hshort, hversion]
  rfl

theorem sha256FromHex_fileOfA :
    sha256FromHex (utf8Encode
      "ffe054fe7ae0cb6dc65c3af9b61d5209f439851db43d0ba5997337df154668eb".toList) =
      some (sha256 fileOfA) := by
  decide +kernel

theorem sha256FromHex_fileOfB :
    sha256FromHex (utf8Encode
      "a0fab1377f49a759b57f63318262ebe89fabfc990e8e93ceac2984561482b9d4".toList) =
      some (sha256 fileOfB) := by
  decide +kernel

theorem describesCorpus_sample :
    DescribesCorpus fastHashSample sampleDocument [fileOfA, fileOfB] where
  nodup := by
    have hne : sha256 fileOfA ≠ sha256 fileOfB := by
      intro heq
      have hread := sha256FromHex_fileOfA
      rw [heq] at hread
      have hkeys := sha256FromHex_inj hread sha256FromHex_fileOfB
      revert hkeys
      decide +kernel
    rw [List.map_cons, List.map_singleton, List.nodup_cons, List.mem_singleton]
    exact ⟨hne, List.nodup_singleton _⟩
  listed := by
    intro digest
    have hmembers : fileMembers sampleDocument =
        [("a0fab1377f49a759b57f63318262ebe89fabfc990e8e93ceac2984561482b9d4",
            .array [.integer 0]),
          ("ffe054fe7ae0cb6dc65c3af9b61d5209f439851db43d0ba5997337df154668eb",
            .array [.integer 0])] := rfl
    rw [hmembers]
    simp only [List.mem_cons, List.not_mem_nil, or_false, exists_eq_or_imp,
      exists_eq_left, sha256FromHex_fileOfA, sha256FromHex_fileOfB,
      Option.some.injEq]
    exact or_comm
  prefilter := by
    refine ⟨[fileOfA, fileOfB], List.Perm.refl _, ?_⟩
    have hread : readFastHash (.string "2dddcef07d26ee8c") =
        some (fastHashSample fileOfA) := by
      decide +kernel
    have hunread : readFastHash (.string "23902BE2E2F52F50") = none := by
      decide +kernel
    exact .cons (.inl hread) (.cons (.inr hunread) .nil)

/-- The second file is excluded: its fast hash could not be read. -/
theorem not_losesNothing_sample :
    Accepts parseSample {} (some sampleText) sampleDocument ∧
      DescribesCorpus fastHashSample sampleDocument [fileOfA, fileOfB] ∧
      ¬PrefilterLosesNothing fastHashSample
        (loadIndex parseSample {} (some sampleText)).value [fileOfA, fileOfB]
        {} := by
  have hlisting : IsListing {} 1
      ("a0fab1377f49a759b57f63318262ebe89fabfc990e8e93ceac2984561482b9d4",
        .array [.integer 0]) (sha256 fileOfB) [0] :=
    ⟨sha256FromHex_fileOfB, rfl, by decide, by decide, by decide⟩
  have hkept : ∃ member ∈ keptMembers {} (releaseCount sampleDocument)
        (fileMembers sampleDocument),
      sha256FromHex (utf8Encode member.1.toList) = some (sha256 fileOfB) :=
    ⟨_, mem_keptMembers (by decide) List.mem_cons_self hlisting,
      hlisting.digest_eq⟩
  have hread : readFastHash (.string "2dddcef07d26ee8c") =
      some 0x2dddcef07d26ee8c := by
    decide +kernel
  have hmissing : ∀ entry ∈ prefilterEntries sampleDocument,
      readFastHash entry ≠ some (fastHashSample fileOfB) := by
    decide +kernel
  exact ⟨accepts_sample, describesCorpus_sample,
    not_losesNothing isJsonParser_parseSample (by decide) accepts_sample
      describesCorpus_sample (by decide) List.mem_cons_self
      (by rw [hread]; simp) (by simp) (by decide) hkept hmissing⟩

/-- A scan that hashes nothing loses nothing. -/
theorem prefilter_losesNothing_iff_sample :
    PrefilterLosesNothing fastHashSample
        (loadIndex parseSample {} (some sampleText)).value [fileOfA, fileOfB]
        { maxHashedFiles := 0 } :=
  (prefilter_losesNothing_iff isJsonParser_parseSample (by decide)
    accepts_sample describesCorpus_sample { maxHashedFiles := 0 }).mpr
      (.inl rfl)

end Bomwerk.Heuristics.Fingerprint
