import Bomwerk.Core.JsonNesting
import Bomwerk.Heuristics.FingerprintIndex
import Mathlib.Data.List.GetD

/-!
# What a loaded index satisfies

Later code indexes the tables of an index without a check.  Loading keeps every
position that it stores inside its table, and the table of files answers a
digest with the releases that the document lists for it.
-/

namespace Bomwerk.Heuristics.Fingerprint

open Bomwerk.Core Bomwerk.Support

/-- The part of the pool that an entry points to. -/
def spanOf (releaseRefs : List Nat) (entry : IndexFileEntry) : List Nat :=
  (releaseRefs.drop entry.firstReleaseRef).take entry.releaseRefCount

/-- Every stored position is inside its table, and the file table is ready for
a binary search. -/
structure Index.Consistent (index : Index) : Prop where
  span_le : ∀ entry ∈ index.files,
    entry.firstReleaseRef + entry.releaseRefCount ≤ index.releaseRefs.length
  span_lt : ∀ entry ∈ index.files,
    (spanOf index.releaseRefs entry).Pairwise (· < ·)
  ref_lt : ∀ release ∈ index.releaseRefs, release < index.releases.length
  library_lt : ∀ release ∈ index.releases,
    release.library < index.libraries.length
  version_ne : ∀ release ∈ index.releases, release.version ≠ ""
  digest_lt : index.files.Pairwise fun left right =>
    digestKey left.digest < digestKey right.digest

theorem consistent_empty : ({} : Index).Consistent where
  span_le := by simp
  span_lt := by simp
  ref_lt := by simp
  library_lt := by simp
  version_ne := by simp
  digest_lt := List.Pairwise.nil

theorem digestKey_inj {left right : List UInt8} :
    digestKey left = digestKey right ↔ left = right := by
  refine ⟨fun h => ?_, fun h => h ▸ rfl⟩
  exact List.map_injective_iff.mpr (fun _ _ => UInt8.toNat_inj.mp) h

namespace Index

variable {index : Index}

theorem Consistent.releasesForDigest_of_mem (hindex : index.Consistent)
    {entry : IndexFileEntry} (hentry : entry ∈ index.files) :
    releasesForDigest index entry.digest = spanOf index.releaseRefs entry := by
  have hfound := lowerBound_of_mem hindex.digest_lt hentry
  rw [releasesForDigest, hfound]
  exact if_neg (not_not.mpr rfl)

theorem releasesForDigest_eq_nil {digest : List UInt8}
    (hnone : ∀ entry ∈ index.files, entry.digest ≠ digest) :
    releasesForDigest index digest = [] := by
  rw [releasesForDigest]
  split
  · rfl
  · rename_i found hfound
    exact if_pos (hnone found (mem_of_lowerBound hfound))

theorem Consistent.releasesForDigest_cases (hindex : index.Consistent)
    (digest : List UInt8) :
    releasesForDigest index digest = [] ∨
      ∃ entry ∈ index.files, entry.digest = digest ∧
        releasesForDigest index digest = spanOf index.releaseRefs entry := by
  by_cases hsome : ∃ entry ∈ index.files, entry.digest = digest
  · obtain ⟨entry, hentry, rfl⟩ := hsome
    exact .inr ⟨entry, hentry, rfl, hindex.releasesForDigest_of_mem hentry⟩
  · push Not at hsome
    exact .inl (releasesForDigest_eq_nil hsome)

theorem Consistent.pairwise_releasesForDigest (hindex : index.Consistent)
    (digest : List UInt8) :
    (releasesForDigest index digest).Pairwise (· < ·) := by
  rcases hindex.releasesForDigest_cases digest with h | ⟨entry, hentry, -, h⟩
  · rw [h]
    exact List.Pairwise.nil
  · rw [h]
    exact hindex.span_lt entry hentry

theorem Consistent.lt_of_mem_releasesForDigest (hindex : index.Consistent)
    {digest : List UInt8} {release : Nat}
    (hrelease : release ∈ releasesForDigest index digest) :
    release < index.releases.length := by
  rcases hindex.releasesForDigest_cases digest with h | ⟨entry, -, -, h⟩
  · rw [h] at hrelease
    simp at hrelease
  · rw [h] at hrelease
    exact hindex.ref_lt release
      (List.mem_of_mem_drop (List.mem_of_mem_take hrelease))

end Index

/-! ## Entries of `files` -/

/-- A well-formed entry of `files`: a digest in hex with a list of releases
that is neither empty nor over the limit. -/
structure IsListing (limits : LoadLimits) (releases : Nat)
    (member : String × Json) (digest : List UInt8) (listed : List Nat) :
    Prop where
  digest_eq : sha256FromHex (utf8Encode member.1.toList) = some digest
  value_eq : member.2 = .array (listed.map fun release : Nat => .integer release)
  ne_nil : listed ≠ []
  length_le : listed.length ≤ limits.maxReleasesPerDigest
  lt : ∀ release ∈ listed, release < releases

open Classical in
/-- The well-formed entries within the digest limit. -/
noncomputable def keptMembers (limits : LoadLimits) (releases : Nat)
    (members : List (String × Json)) : List (String × Json) :=
  (members.filter fun member =>
    ∃ digest listed, IsListing limits releases member digest listed).take
      limits.maxDigests

theorem readReference_eq_some_iff {releases release : Nat} {reference : Json}
    (hreleases : releases ≤ 2 ^ 32) :
    readReference releases reference = some release ↔
      reference = .integer release ∧ release < releases := by
  rw [readReference]
  constructor
  · intro h
    obtain ⟨value, hvalue, hread⟩ := Option.bind_eq_some_iff.mp h
    split_ifs at hread with hlt
    have hrelease : release = value := by
      rw [← Option.some.inj hread, toUint32, Nat.mod_eq_of_lt (by omega)]
    subst hrelease
    cases reference with
    | integer number =>
      rw [asUnsigned?] at hvalue
      split_ifs at hvalue with hrange
      have hnumber : number.toNat = release := Option.some.inj hvalue
      refine ⟨congrArg Json.integer ?_, by omega⟩
      omega
    | _ => simp [asUnsigned?] at hvalue
  · rintro ⟨rfl, hlt⟩
    have hrange : (0 : ℤ) ≤ release ∧ (release : ℤ) < 2 ^ 64 := by omega
    rw [asUnsigned?, if_pos hrange, Option.bind_some, Int.toNat_natCast,
      if_neg (by omega), toUint32, Nat.mod_eq_of_lt (by omega)]

theorem mapM_readReference_eq_some_iff {releases : Nat}
    (hreleases : releases ≤ 2 ^ 32) {references : List Json}
    {listed : List Nat} :
    references.mapM (readReference releases) = some listed ↔
      references = listed.map (fun release : Nat => .integer release) ∧
        ∀ release ∈ listed, release < releases := by
  induction references generalizing listed with
  | nil => cases listed <;> simp
  | cons reference references ih =>
    rw [List.mapM_cons]
    constructor
    · intro h
      obtain ⟨release, hrelease, h⟩ := Option.bind_eq_some_iff.mp h
      obtain ⟨rest, hrest, h⟩ := Option.bind_eq_some_iff.mp h
      obtain rfl := Option.some.inj h
      obtain ⟨rfl, hlt⟩ := (readReference_eq_some_iff hreleases).mp hrelease
      obtain ⟨rfl, hrestlt⟩ := ih.mp hrest
      exact ⟨rfl, List.forall_mem_cons.mpr ⟨hlt, hrestlt⟩⟩
    · rintro ⟨heq, hlt⟩
      cases listed with
      | nil => simp at heq
      | cons release rest =>
        obtain ⟨rfl, rfl⟩ := List.cons.inj heq
        obtain ⟨hhead, hrest⟩ := List.forall_mem_cons.mp hlt
        rw [(readReference_eq_some_iff hreleases).mpr ⟨rfl, hhead⟩,
          ih.mpr ⟨rfl, hrest⟩]
        rfl

/-- The loop skips what is not well formed, and nothing else. -/
theorem readFileEntry_eq_some_iff {limits : LoadLimits} {releases : Nat}
    (hreleases : releases ≤ 2 ^ 32) {member : String × Json}
    {digest : List UInt8} {listed : List Nat} :
    readFileEntry limits releases member = some (digest, listed) ↔
      IsListing limits releases member digest listed := by
  obtain ⟨name, value⟩ := member
  rw [readFileEntry]
  constructor
  · intro h
    obtain ⟨found, hfound, h⟩ := Option.bind_eq_some_iff.mp h
    cases value with
    | array references =>
      simp only at h
      split_ifs at h with hskip
      obtain ⟨hne, hlength⟩ := not_or.mp hskip
      obtain ⟨refs, hrefs, hpair⟩ := Option.map_eq_some_iff.mp h
      obtain ⟨rfl, rfl⟩ := Prod.mk.inj hpair
      obtain ⟨rfl, hlt⟩ :=
        (mapM_readReference_eq_some_iff hreleases).mp hrefs
      rw [List.length_map, not_lt] at hlength
      exact ⟨hfound, rfl, fun hnil => hne (by rw [hnil]; rfl), hlength, hlt⟩
    | _ => simp at h
  · rintro ⟨hdigest, rfl, hne, hlength, hlt⟩
    have hkept : ¬(listed.map (fun release : Nat => Json.integer release) = [] ∨
        limits.maxReleasesPerDigest <
          (listed.map fun release : Nat => Json.integer release).length) := by
      rw [List.map_eq_nil_iff, List.length_map]
      exact not_or.mpr ⟨hne, not_lt.mpr hlength⟩
    simp only [hdigest, Option.bind_some, if_neg hkept]
    rw [(mapM_readReference_eq_some_iff hreleases).mpr ⟨rfl, hlt⟩]
    rfl

theorem length_le_of_readFileEntry {limits : LoadLimits} {releases : Nat}
    {member : String × Json} {digest : List UInt8} {listed : List Nat}
    (hreleases : releases ≤ 2 ^ 32)
    (h : readFileEntry limits releases member = some (digest, listed)) :
    listed.length ≤ member.2.valueCount := by
  have hlisting := (readFileEntry_eq_some_iff hreleases).mp h
  rw [hlisting.value_eq, Json.valueCount]
  have hlength := Json.length_le_itemsCount
    (listed.map fun release : Nat => Json.integer release)
  rw [List.length_map] at hlength
  exact hlength.trans (Nat.le_succ _)

/-! ## The file table -/

theorem pairwise_lt_pooled (listed : List Nat) :
    (pooled listed).Pairwise (· < ·) :=
  pairwise_lt_sortUnique (fun _ _ h => h) listed

theorem mem_pooled {listed : List Nat} {release : Nat} :
    release ∈ pooled listed ↔ release ∈ listed := by
  have h := @map_key_mem_sortUnique_iff _ _ _ id (· ≤ ·) _ listed release
  rwa [List.map_id, List.map_id] at h

theorem length_pooled_le (listed : List Nat) :
    (pooled listed).length ≤ listed.length := by
  have h := (@uniqueBy_sublist _ _ _ id
    (listed.insertionSort (· ≤ ·))).length_le
  rwa [List.length_insertionSort] at h

def denoted (releaseRefs : List Nat) (entry : IndexFileEntry) :
    List UInt8 × List Nat :=
  (entry.digest, spanOf releaseRefs entry)

/-- The spans of a table are inside its pool. -/
def FileTable.InRange (table : FileTable) : Prop :=
  ∀ entry ∈ table.files,
    entry.firstReleaseRef + entry.releaseRefCount ≤ table.releaseRefs.length

theorem spanOf_append {releaseRefs : List Nat} {entry : IndexFileEntry}
    (hrange : entry.firstReleaseRef + entry.releaseRefCount ≤
      releaseRefs.length) (more : List Nat) :
    spanOf (releaseRefs ++ more) entry = spanOf releaseRefs entry := by
  rw [spanOf, spanOf, List.drop_append_of_le_length (by omega),
    List.take_append_of_le_length (by rw [List.length_drop]; omega)]

/-- An entry that is added says what it was read as, while 32 bits count the
pool. -/
theorem FileTable.add_spec {table : FileTable} (hrange : table.InRange)
    {digest : List UInt8} {listed : List Nat}
    (hsize : table.releaseRefs.length + listed.length < 2 ^ 32) :
    (table.add digest listed).InRange ∧ (table.add digest listed).files.map
          (denoted (table.add digest listed).releaseRefs) =
        table.files.map (denoted table.releaseRefs) ++
          [(digest, pooled listed)] := by
  have hpooled := length_pooled_le listed
  have hfirst : toUint32 table.releaseRefs.length =
      table.releaseRefs.length := Nat.mod_eq_of_lt (by omega)
  have hcount : toUint32 (pooled listed).length = (pooled listed).length :=
    Nat.mod_eq_of_lt (by omega)
  constructor
  · intro entry hentry
    rw [FileTable.add] at hentry ⊢
    rw [List.length_append]
    rcases List.mem_append.mp hentry with hold | hnew
    · have h := hrange entry hold
      omega
    · obtain rfl := List.mem_singleton.mp hnew
      simp only [hfirst, hcount]
      exact Nat.le_refl _
  · rw [FileTable.add]
    simp only [hfirst, hcount, List.map_append, List.map_singleton]
    congr 1
    · apply List.map_congr_left
      intro entry hentry
      rw [denoted, denoted, spanOf_append (hrange entry hentry)]
    · rw [denoted, spanOf, List.drop_left, List.take_length]

/-- The table after the loop says what the entries within the limit say. -/
theorem readFiles_spec {limits : LoadLimits} {releases : Nat}
    (hreleases : releases ≤ 2 ^ 32) {members : List (String × Json)}
    {table : FileTable} (hrange : table.InRange)
    (hsize : table.releaseRefs.length + Json.membersCount members < 2 ^ 32) :
    (readFiles limits releases table members).InRange ∧
      (readFiles limits releases table members).files.map
          (denoted (readFiles limits releases table members).releaseRefs) =
        table.files.map (denoted table.releaseRefs) ++
          ((members.filterMap (readFileEntry limits releases)).take
            (limits.maxDigests - table.files.length)).map
              fun entry => (entry.1, pooled entry.2) := by
  induction members generalizing table with
  | nil => simp [readFiles, hrange]
  | cons member members ih =>
    have hcount : Json.membersCount (member :: members) =
        member.2.valueCount + Json.membersCount members := by
      obtain ⟨name, value⟩ := member
      rw [Json.membersCount]
    rw [hcount] at hsize
    rw [readFiles]
    by_cases hfull : limits.maxDigests ≤ table.files.length
    · rw [if_pos hfull, Nat.sub_eq_zero_of_le hfull]
      exact ⟨hrange, by simp⟩
    · rw [if_neg hfull, List.filterMap_cons]
      cases hentry : readFileEntry limits releases member with
      | none =>
        exact @ih { table with
          skippedEntries := table.skippedEntries + 1 } hrange
          (by simp only; omega)
      | some entry =>
        obtain ⟨digest, listed⟩ := entry
        have hlisted := length_le_of_readFileEntry hreleases hentry
        have hpooled := length_pooled_le listed
        obtain ⟨hadded, hsays⟩ :=
          @FileTable.add_spec _ hrange digest listed (by omega)
        have hgrown : (table.add digest listed).releaseRefs.length +
            Json.membersCount members < 2 ^ 32 := by
          rw [FileTable.add]
          simp only [List.length_append]
          omega
        obtain ⟨hdone, hall⟩ := ih hadded hgrown
        have hroom : limits.maxDigests - table.files.length =
            limits.maxDigests - (table.add digest listed).files.length + 1 := by
          rw [FileTable.add]
          simp only [List.length_append, List.length_singleton]
          omega
        refine ⟨hdone, ?_⟩
        simp only
        rw [hall, hsays, hroom, List.take_succ_cons, List.map_cons,
          List.append_assoc, List.singleton_append]

/-- The pool holds positions of releases only. -/
theorem readFiles_ref_lt {limits : LoadLimits} {releases : Nat}
    (hreleases : releases ≤ 2 ^ 32) {members : List (String × Json)}
    {table : FileTable}
    (htable : ∀ release ∈ table.releaseRefs, release < releases) :
    ∀ release ∈ (readFiles limits releases table members).releaseRefs,
      release < releases := by
  induction members generalizing table with
  | nil => exact htable
  | cons member members ih =>
    rw [readFiles]
    by_cases hfull : limits.maxDigests ≤ table.files.length
    · rw [if_pos hfull]
      exact htable
    · rw [if_neg hfull]
      cases hentry : readFileEntry limits releases member with
      | none => exact ih htable
      | some entry =>
        obtain ⟨digest, listed⟩ := entry
        have hlisting := (readFileEntry_eq_some_iff hreleases).mp hentry
        apply ih
        intro release hrelease
        rcases List.mem_append.mp hrelease with hold | hnew
        · exact htable release hold
        · exact hlisting.lt release (mem_pooled.mp hnew)

/-- Distinct names make distinct digests. -/
theorem pairwise_ne_filterMap_readFileEntry {limits : LoadLimits}
    {releases : Nat} (hreleases : releases ≤ 2 ^ 32)
    {members : List (String × Json)} (hnodup : (members.map Prod.fst).Nodup) :
    (members.filterMap (readFileEntry limits releases)).Pairwise
      fun left right => left.1 ≠ right.1 := by
  rw [List.pairwise_filterMap]
  refine (List.pairwise_map.mp hnodup).imp ?_
  rintro left right hne ⟨digest, listed⟩ hentry ⟨_, others⟩ hother rfl
  have hleft := (readFileEntry_eq_some_iff hreleases).mp hentry
  have hright := (readFileEntry_eq_some_iff hreleases).mp hother
  have hbytes := sha256FromHex_inj hleft.digest_eq hright.digest_eq
  have hname : Repaired (utf8Encode left.1.toList) right.1.toList := by
    rw [hbytes]
    exact Repaired.utf8Encode _
  exact hne (String.toList_inj.mp ((Repaired.utf8Encode _).unique hname))

theorem nodup_fileMembers {parse : List UInt8 → Option Json}
    (hparse : IsJsonParser parse) {text : List UInt8} {document : Json}
    (h : parse text = some document) :
    ((fileMembers document).map Prod.fst).Nodup := by
  rw [fileMembers]
  split
  · rename_i members hfind
    exact hparse.nodup_keys h hfind
  · exact List.nodup_nil

theorem membersCount_fileMembers_le (document : Json) :
    Json.membersCount (fileMembers document) + 1 ≤ document.valueCount := by
  rw [fileMembers]
  split
  · rename_i members hfind
    have h := Json.valueCount_lt_of_find? hfind
    rw [Json.valueCount] at h
    omega
  · exact Json.valueCount_pos document

theorem length_findArray?_lt {document : Json} {key : String}
    {items : List Json} (hfind : document.findArray? key = some items) :
    items.length < document.valueCount := by
  rw [Json.findArray?] at hfind
  split at hfind
  · rename_i found hvalue
    obtain rfl := Option.some.inj hfind
    have h := Json.valueCount_lt_of_find? hvalue
    rw [Json.valueCount] at h
    have hlength := Json.length_le_itemsCount found
    omega
  · simp at hfind

theorem length_readLibraries {entries : List Json}
    {libraries result : List IndexLibrary}
    (h : readLibraries libraries entries = .ok result) :
    result.length = libraries.length + entries.length := by
  induction entries generalizing libraries with
  | nil =>
    obtain rfl := Except.ok.inj h
    rfl
  | cons entry entries ih =>
    rw [readLibraries] at h
    split_ifs at h
    rw [ih h, List.length_append, List.length_singleton, List.length_cons]
    omega

theorem readRelease_spec {libraries : Nat} (hlibraries : libraries ≤ 2 ^ 32)
    {entry : Json} {release : IndexRelease}
    (h : readRelease libraries entry = some release) :
    release.library < libraries ∧ release.version ≠ "" := by
  obtain ⟨library, -, h⟩ := Option.bind_eq_some_iff.mp h
  obtain ⟨fileCount, -, h⟩ := Option.bind_eq_some_iff.mp h
  split_ifs at h with hbad
  obtain rfl := Option.some.inj h
  obtain ⟨hlt, hrest⟩ := not_or.mp hbad
  have hlibrary : toUint32 library = library :=
    Nat.mod_eq_of_lt (by omega)
  exact ⟨by simp only [hlibrary]; omega, (not_or.mp hrest).2⟩

theorem readReleases_spec {libraries : Nat} (hlibraries : libraries ≤ 2 ^ 32)
    {entries : List Json} {releases result : List IndexRelease}
    (hreleases : ∀ release ∈ releases,
      release.library < libraries ∧ release.version ≠ "")
    (h : readReleases libraries releases entries = .ok result) :
    result.length = releases.length + entries.length ∧ ∀ release ∈ result,
        release.library < libraries ∧ release.version ≠ "" := by
  induction entries generalizing releases with
  | nil =>
    obtain rfl := Except.ok.inj h
    exact ⟨rfl, hreleases⟩
  | cons entry entries ih =>
    rw [readReleases] at h
    cases hentry : readRelease libraries entry with
    | none => simp [hentry] at h
    | some release =>
      simp only [hentry] at h
      have hgrown : ∀ other ∈ releases ++ [release],
          other.library < libraries ∧ other.version ≠ "" := by
        intro other hother
        rcases List.mem_append.mp hother with hold | hnew
        · exact hreleases other hold
        · obtain rfl := List.mem_singleton.mp hnew
          exact readRelease_spec hlibraries hentry
      obtain ⟨hlength, hall⟩ := ih hgrown h
      rw [List.length_append, List.length_singleton] at hlength
      exact ⟨by rw [hlength, List.length_cons]; omega, hall⟩

/-! ## The document -/

/-- The number of releases of a document. -/
def releaseCount (document : Json) : Nat :=
  ((document.findArray? "releases").getD []).length

theorem take_filterMap {α β : Type*} (read : α → Option β) (items : List α)
    (count : Nat) :
    (items.filterMap read).take count =
      ((items.filter fun item => (read item).isSome).take count).filterMap
        read := by
  induction items generalizing count with
  | nil => simp
  | cons item items ih =>
    cases hitem : read item with
    | none => simp [hitem, ih]
    | some value =>
      cases count with
      | zero => simp
      | succ count => simp [hitem, ih]

/-- The entries that the loop keeps are those of the members kept. -/
theorem mem_take_filterMap_iff {limits : LoadLimits} {releases : Nat}
    (hreleases : releases ≤ 2 ^ 32) {members : List (String × Json)}
    {digest : List UInt8} {listed : List Nat} :
    (digest, listed) ∈ (members.filterMap
        (readFileEntry limits releases)).take limits.maxDigests ↔
      ∃ member ∈ keptMembers limits releases members,
        IsListing limits releases member digest listed := by
  have hkept : keptMembers limits releases members =
      (members.filter fun member =>
        (readFileEntry limits releases member).isSome).take
          limits.maxDigests := by
    rw [keptMembers]
    congr 1
    apply List.filter_congr
    intro member _
    rw [Bool.eq_iff_iff]
    simp only [decide_eq_true_eq, Option.isSome_iff_exists, Prod.exists,
      readFileEntry_eq_some_iff hreleases]
  rw [take_filterMap, ← hkept, List.mem_filterMap]
  simp only [readFileEntry_eq_some_iff hreleases]

theorem length_loadLibraries_lt {limits : LoadLimits} {document : Json}
    {libraries : List IndexLibrary}
    (h : loadLibraries document limits = .ok libraries) :
    libraries.length < document.valueCount := by
  rw [loadLibraries] at h
  split at h
  · simp at h
  · rename_i entries hfind
    split_ifs at h
    rw [length_readLibraries h, List.length_nil, Nat.zero_add]
    exact length_findArray?_lt hfind

theorem releaseCount_lt (document : Json) :
    releaseCount document < document.valueCount := by
  rw [releaseCount]
  cases hfind : document.findArray? "releases" with
  | none => exact Json.valueCount_pos document
  | some entries => exact length_findArray?_lt hfind

theorem loadReleases_spec {limits : LoadLimits} {document : Json}
    {libraries : Nat} (hlibraries : libraries ≤ 2 ^ 32)
    {releases : List IndexRelease}
    (h : loadReleases document limits libraries = .ok releases) :
    releases.length = releaseCount document ∧ ∀ release ∈ releases,
        release.library < libraries ∧ release.version ≠ "" := by
  rw [loadReleases] at h
  rw [releaseCount]
  split at h
  · simp at h
  · rename_i entries hfind
    split_ifs at h
    obtain ⟨hlength, hall⟩ := readReleases_spec hlibraries (by simp) h
    rw [hfind, hlength, List.length_nil, Nat.zero_add]
    exact ⟨rfl, hall⟩

/-- The table of files says what the kept entries say, in order of digest. -/
theorem loadFiles_spec {limits : LoadLimits} {document : Json}
    (hcount : document.valueCount ≤ 2 ^ 32)
    (hnodup : ((fileMembers document).map Prod.fst).Nodup) :
    (loadFiles document limits (releaseCount document)).InRange ∧
      ((loadFiles document limits (releaseCount document)).files.map
          (denoted (loadFiles document limits
            (releaseCount document)).releaseRefs)).Perm
        ((((fileMembers document).filterMap
          (readFileEntry limits (releaseCount document))).take
            limits.maxDigests).map fun entry => (entry.1, pooled entry.2)) ∧
      (loadFiles document limits (releaseCount document)).files.Pairwise
        fun left right => digestKey left.digest < digestKey right.digest := by
  have hreleases : releaseCount document ≤ 2 ^ 32 := by
    have h := releaseCount_lt document
    omega
  have hmembers := membersCount_fileMembers_le document
  obtain ⟨hrange, hsays⟩ := @readFiles_spec limits _ hreleases
    (fileMembers document) {} (by simp [FileTable.InRange])
    (by simp only [List.length_nil]; omega)
  simp only [List.map_nil, List.nil_append, List.length_nil, Nat.sub_zero]
    at hsays
  have hperm := List.perm_insertionSort
    (fun left right : IndexFileEntry =>
      digestKey left.digest ≤ digestKey right.digest)
    (readFiles limits (releaseCount document) {} (fileMembers document)).files
  refine ⟨?_, ?_, ?_⟩
  · intro entry hentry
    exact hrange entry (hperm.mem_iff.mp hentry)
  · rw [← hsays]
    exact hperm.map _
  · have hdistinct := (@pairwise_ne_filterMap_readFileEntry limits _ hreleases
      _ hnodup).sublist (List.take_sublist limits.maxDigests _)
    have hdigests : (readFiles limits (releaseCount document) {}
        (fileMembers document)).files.Pairwise
          fun left right => left.digest ≠ right.digest := by
      have hmap := congrArg (List.map Prod.fst) hsays
      rw [List.map_map, List.map_map] at hmap
      have h := List.pairwise_map.mpr hdistinct
      change (List.map (Prod.fst ∘ fun entry : List UInt8 × List Nat =>
        (entry.1, pooled entry.2)) _).Pairwise (· ≠ ·) at h
      rw [← hmap] at h
      exact List.pairwise_map.mp h
    have hsorted := List.pairwise_insertionSort
      (fun left right : IndexFileEntry =>
        digestKey left.digest ≤ digestKey right.digest)
      (readFiles limits (releaseCount document) {}
        (fileMembers document)).files
    have hne := hperm.symm.pairwise hdigests fun h => h.symm
    refine (hsorted.and hne).imp ?_
    rintro left right ⟨hle, hne⟩
    exact lt_of_le_of_ne hle fun heq => hne (digestKey_inj.mp heq)

/-- A document that is read whole gives a consistent index, whose table says
what the kept entries say. -/
theorem loadDocument_spec {limits : LoadLimits} {document : Json}
    {result : Result Index} (hcount : document.valueCount ≤ 2 ^ 32)
    (hnodup : ((fileMembers document).map Prod.fst).Nodup)
    (h : loadDocument limits document = .ok result) :
    result.value.Consistent ∧
      result.value.releases.length = releaseCount document ∧
      (result.value.files.map (denoted result.value.releaseRefs)).Perm
        ((((fileMembers document).filterMap
          (readFileEntry limits (releaseCount document))).take
            limits.maxDigests).map fun entry => (entry.1, pooled entry.2)) := by
  rw [loadDocument] at h
  cases hlibraries : loadLibraries document limits with
  | error message => simp [hlibraries] at h
  | ok libraries =>
    simp only [hlibraries] at h
    cases hreleases : loadReleases document limits libraries.length with
    | error message => simp [hreleases] at h
    | ok releases =>
      simp only [hreleases] at h
      obtain rfl := Except.ok.inj h
      have hlt := length_loadLibraries_lt hlibraries
      obtain ⟨hlength, hall⟩ := loadReleases_spec (by omega) hreleases
      obtain ⟨hrange, hsays, hsorted⟩ :=
        @loadFiles_spec limits _ hcount hnodup
      have hmax : releaseCount document ≤ 2 ^ 32 := by
        have h := releaseCount_lt document
        omega
      rw [← hlength] at hmax
      rw [← hlength] at hrange hsays hsorted
      refine ⟨⟨hrange, ?_, ?_, ?_, ?_, hsorted⟩, hlength, ?_⟩
      · intro entry hentry
        have hmem := hsays.subset (List.mem_map_of_mem hentry)
        obtain ⟨kept, -, hkept⟩ := List.mem_map.mp hmem
        rw [← (Prod.mk.inj hkept).2]
        exact pairwise_lt_pooled kept.2
      · exact readFiles_ref_lt hmax (by simp)
      · exact fun release hrelease => (hall release hrelease).1
      · exact fun release hrelease => (hall release hrelease).2
      · rw [← hlength]
        exact hsays

/-- The document that `load_index` accepts. -/
def Accepts (parse : List UInt8 → Option Json) (limits : LoadLimits)
    (content : Option (List UInt8)) (document : Json) : Prop :=
  readDocument parse limits content = .ok document ∧
    ∃ result, loadDocument limits document = .ok result

section Loaded

variable {parse : List UInt8 → Option Json} {limits : LoadLimits}
  {content : Option (List UInt8)}

theorem length_withoutUtf8Bom_le (bytes : List UInt8) :
    (Lockfiles.Npm.withoutUtf8Bom bytes).length ≤ bytes.length := by
  rw [Lockfiles.Npm.withoutUtf8Bom]
  split_ifs
  · rw [List.length_drop]
    exact Nat.sub_le _ _
  · exact Nat.le_refl _

/-- A document is read from a text within the byte limit. -/
theorem exists_parse_of_readDocument {document : Json}
    (h : readDocument parse limits content = .ok document) :
    ∃ text, text.length ≤ limits.maxIndexBytes ∧
      parse text = some document := by
  cases content with
  | none => simp [readDocument, Lockfiles.readFileBounded] at h
  | some bytes =>
    simp only [readDocument, Lockfiles.readFileBounded] at h
    split_ifs at h
    cases hparse : parse (Lockfiles.Npm.withoutUtf8Bom
        (bytes.take limits.maxIndexBytes)) with
    | none => simp [hparse] at h
    | some parsed =>
      simp only [hparse] at h
      split_ifs at h
      obtain rfl := Except.ok.inj h
      refine ⟨_, ?_, hparse⟩
      exact (length_withoutUtf8Bom_le _).trans (List.length_take_le _ _)

theorem loadIndex_of_accepts {document : Json}
    (haccepts : Accepts parse limits content document) :
    loadDocument limits document = .ok (loadIndex parse limits content) := by
  obtain ⟨hread, result, hload⟩ := haccepts
  rw [loadIndex, hread]
  simp only [Except.bind, hload]

theorem loadIndex_cases :
    (loadIndex parse limits content).value = {} ∨
      ∃ document, Accepts parse limits content document := by
  rw [loadIndex]
  cases hread : readDocument parse limits content with
  | error refusal => exact .inl rfl
  | ok document =>
    cases hload : loadDocument limits document with
    | error refusal =>
      left
      simp only [Except.bind, hload]
    | ok result => exact .inr ⟨document, hread, result, hload⟩

theorem loadDocument_spec_of_accepts (hparse : IsJsonParser parse)
    (hlimits : limits.maxIndexBytes ≤ 2 ^ 32) {document : Json}
    (haccepts : Accepts parse limits content document) :
    releaseCount document ≤ 2 ^ 32 ∧
      (loadIndex parse limits content).value.Consistent ∧
      (loadIndex parse limits content).value.releases.length =
        releaseCount document ∧
      ((loadIndex parse limits content).value.files.map (denoted
          (loadIndex parse limits content).value.releaseRefs)).Perm
        ((((fileMembers document).filterMap
          (readFileEntry limits (releaseCount document))).take
            limits.maxDigests).map fun entry => (entry.1, pooled entry.2)) := by
  obtain ⟨text, hlength, hdocument⟩ := exists_parse_of_readDocument haccepts.1
  have hcount := hparse.valueCount_le hdocument
  have hreleases := releaseCount_lt document
  exact ⟨by omega, loadDocument_spec (by omega)
    (nodup_fileMembers hparse hdocument) (loadIndex_of_accepts haccepts)⟩

theorem consistent_loadIndex (hparse : IsJsonParser parse)
    (hlimits : limits.maxIndexBytes ≤ 2 ^ 32) :
    (loadIndex parse limits content).value.Consistent := by
  rcases @loadIndex_cases parse limits content with
    hempty | ⟨document, haccepts⟩
  · rw [hempty]
    exact consistent_empty
  · exact (loadDocument_spec_of_accepts hparse hlimits haccepts).2.1

/-- A digest is answered with the releases that the kept entries list for it. -/
theorem mem_releasesForDigest_loadIndex (hparse : IsJsonParser parse)
    (hlimits : limits.maxIndexBytes ≤ 2 ^ 32) {document : Json}
    (haccepts : Accepts parse limits content document)
    {digest : List UInt8} {release : Nat} :
    release ∈ releasesForDigest (loadIndex parse limits content).value digest ↔
      ∃ member ∈ keptMembers limits (releaseCount document)
          (fileMembers document),
        ∃ listed, IsListing limits (releaseCount document) member digest listed ∧
          release ∈ listed := by
  obtain ⟨hreleases, hindex, -, hsays⟩ :=
    loadDocument_spec_of_accepts hparse hlimits haccepts
  constructor
  · intro hrelease
    rcases hindex.releasesForDigest_cases digest with
      hnone | ⟨entry, hentry, rfl, hspan⟩
    · rw [hnone] at hrelease
      simp at hrelease
    · have hmem := hsays.subset (List.mem_map_of_mem hentry)
      obtain ⟨⟨digest, listed⟩, hkept, hsame⟩ := List.mem_map.mp hmem
      obtain ⟨rfl, hpooled⟩ := Prod.mk.inj hsame
      obtain ⟨member, hmember, hlisting⟩ :=
        (mem_take_filterMap_iff hreleases).mp hkept
      rw [hspan, ← hpooled, mem_pooled] at hrelease
      exact ⟨member, hmember, listed, hlisting, hrelease⟩
  · rintro ⟨member, hmember, listed, hlisting, hrelease⟩
    have hkept := (mem_take_filterMap_iff hreleases).mpr
      ⟨member, hmember, hlisting⟩
    have hmem := hsays.symm.subset (List.mem_map_of_mem hkept)
    obtain ⟨entry, hentry, hsame⟩ := List.mem_map.mp hmem
    obtain ⟨rfl, hspan⟩ := Prod.mk.inj hsame
    rw [hindex.releasesForDigest_of_mem hentry, hspan]
    exact mem_pooled.mpr hrelease

end Loaded

/-- Whatever the file holds, the index that is loaded is consistent; no answer
to a digest leads out of its tables; and the answer is, in increasing order,
the releases that the well-formed entries of the document list for the digest,
up to the digest limit. -/
theorem loadIndex_consistent {parse : List UInt8 → Option Json}
    (hparse : IsJsonParser parse) {limits : LoadLimits}
    (hlimits : limits.maxIndexBytes ≤ 2 ^ 32)
    (content : Option (List UInt8)) :
    (loadIndex parse limits content).value.Consistent ∧
      (∀ digest, (releasesForDigest (loadIndex parse limits content).value
        digest).Pairwise (· < ·)) ∧
      (∀ digest, ∀ release ∈
          releasesForDigest (loadIndex parse limits content).value digest,
        ∃ indexRelease,
          (loadIndex parse limits content).value.releases[release]? =
            some indexRelease ∧
          indexRelease.library <
            (loadIndex parse limits content).value.libraries.length) ∧
      ∀ document, Accepts parse limits content document →
        ∀ digest release,
          release ∈ releasesForDigest
              (loadIndex parse limits content).value digest ↔
            ∃ member ∈ keptMembers limits (releaseCount document)
                (fileMembers document),
              ∃ listed, IsListing limits (releaseCount document) member digest
                listed ∧ release ∈ listed := by
  have hindex := @consistent_loadIndex parse limits content hparse hlimits
  refine ⟨hindex, hindex.pairwise_releasesForDigest, ?_, ?_⟩
  · intro digest release hrelease
    have hlt := hindex.lt_of_mem_releasesForDigest hrelease
    exact ⟨_, List.getElem?_eq_getElem hlt,
      hindex.library_lt _ (List.getElem_mem hlt)⟩
  · intro document haccepts digest release
    exact mem_releasesForDigest_loadIndex hparse hlimits haccepts

/-- A library with one release of two files, which are 64 letters `a` and 64
letters `b`.  The fast hash of the second one is written in capital letters. -/
def sampleDocument : Json :=
  .object
    [("files", .object
      [("a0fab1377f49a759b57f63318262ebe89fabfc990e8e93ceac2984561482b9d4",
          .array [.integer 0]),
        ("ffe054fe7ae0cb6dc65c3af9b61d5209f439851db43d0ba5997337df154668eb",
          .array [.integer 0])]),
      ("libraries", .array
        [.object [("name", .string "zlib"), ("purl_type", .string "generic")]]),
      ("prefilter", .array
        [.string "2dddcef07d26ee8c", .string "23902BE2E2F52F50"]),
      ("releases", .array
        [.object [("file_count", .integer 2), ("library", .integer 0),
          ("version", .string "1.2.11")]]),
      ("schema_version", .integer 1)]

def sampleText : List UInt8 :=
  ["\x7b\"files\":\x7b\"a0fab1377f49a759b57f63318262ebe89fabfc990e8e",
    "93ceac2984561482b9d4\":[0],\"ffe054fe7ae0cb6dc65c3af9b61d5209f439851d",
    "b43d0ba5997337df154668eb\":[0]\x7d,\"libraries\":[\x7b\"name\":",
    "\"zlib\",\"purl_type\":\"generic\"\x7d],\"prefilter\":[",
    "\"2dddcef07d26ee8c\",\"23902BE2E2F52F50\"],\"releases\":[\x7b",
    "\"file_count\":2,\"library\":0,\"version\":\"1.2.11\"\x7d],",
    "\"schema_version\":1\x7d"].flatMap fun piece => utf8Encode piece.toList

def parseSample (text : List UInt8) : Option Json :=
  if text = sampleText then some sampleDocument else none

theorem isJsonParser_parseSample : IsJsonParser parseSample where
  valueCount_le := by
    intro text document h
    rw [parseSample] at h
    split_ifs at h with htext
    obtain rfl := Option.some.inj h
    rw [htext]
    decide +kernel
  nodup_keys := by
    intro text document key members h hfind
    rw [parseSample] at h
    split_ifs at h with htext
    obtain rfl := Option.some.inj h
    obtain ⟨before, after, hlookup, -⟩ := List.lookup_eq_some_iff.mp hfind
    have hmem : (key, Json.object members) ∈ before ++
        (key, .object members) :: after :=
      List.mem_append_right _ List.mem_cons_self
    rw [← hlookup] at hmem
    simp only [List.mem_cons, Prod.mk.injEq, reduceCtorEq, and_false,
      List.not_mem_nil, or_false, Json.object.injEq] at hmem
    rw [hmem.2]
    decide

theorem loadIndex_consistent_sample :
    (loadIndex parseSample {} (some sampleText)).value.Consistent :=
  (loadIndex_consistent isJsonParser_parseSample (by decide)
    (some sampleText)).1

end Bomwerk.Heuristics.Fingerprint
