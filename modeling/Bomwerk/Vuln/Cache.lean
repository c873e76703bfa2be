import Bomwerk.Core.Json
import Bomwerk.Core.Text
import Bomwerk.Core.Warning
import Bomwerk.Support.OrderedMap
import Bomwerk.Vuln.Delta

/-!
# The vulnerability cache

`vuln/cache.cpp`: the SQLite tables `vuln_cache` (one detection or hydration
payload for each key) and `osv_advisory_snapshot` (the advisory revisions last
observed for each purl).  SQLite itself is the documented meaning of the
statements on an open database: a statement that runs succeeds.

`lookup`, `store` and `lookup_advisory_snapshot` bind the purl as a C string,
`store_advisory_snapshot` binds all its bytes; both spellings are kept.
-/

namespace Bomwerk.Vuln

open Bomwerk.Core Bomwerk.Support

structure VulnCacheEntry where
  fetchedAtEpochSeconds : Int
  payload : JsonText

/-- A row of `osv_advisory_snapshot`, without its key. -/
structure SnapshotRow where
  modified : String
  firstSeenAt : Int
  lastSeenAt : Int
  deriving DecidableEq, Repr

/-- The rows of one purl, by advisory id. -/
abbrev SnapshotRows := OrderedMap String SnapshotRow

/-- The two tables, by their `purl` column. -/
structure Database where
  vulnCache : String → Option VulnCacheEntry := fun _ => none
  osvAdvisorySnapshot : String → SnapshotRows := fun _ => ∅

/-- `VulnCache`: nothing for a closed cache. -/
abbrev VulnCache := Option Database

/-! ## Statements on the snapshot table -/

/-- `kUpsertAdvisorySnapshotSql`. -/
def upsertRow (observedAt : Int) (rows : SnapshotRows)
    (revision : AdvisoryRevision) : SnapshotRows :=
  match rows[revision.advisoryId]? with
  | none => rows.insert revision.advisoryId
      { modified := revision.modified, firstSeenAt := observedAt,
        lastSeenAt := observedAt }
  | some row => rows.insert revision.advisoryId
      { row with modified := revision.modified, lastSeenAt := observedAt }

/-- The two loops of `store_advisory_snapshot`. -/
def replaceRows (rows : SnapshotRows) (current : List AdvisoryRevision)
    (removedAdvisoryIds : List String) (observedAt : Int) : SnapshotRows :=
  removedAdvisoryIds.foldl (fun rows id => rows.erase id)
    (current.foldl (upsertRow observedAt) rows)

/-- The revisions of some rows, `ORDER BY advisory_id`. -/
def revisionsOf (rows : SnapshotRows) : List AdvisoryRevision :=
  rows.toList.map fun (id, row) => { advisoryId := id, modified := row.modified }

theorem sortedById_revisionsOf (rows : SnapshotRows) :
    SortedById (revisionsOf rows) := by
  rw [SortedById, revisionsOf, List.pairwise_map]
  exact pairwise_lt_toList rows

theorem mem_revisionsOf_iff {rows : SnapshotRows}
    {revision : AdvisoryRevision} :
    revision ∈ revisionsOf rows ↔
      rows[revision.advisoryId]?.map SnapshotRow.modified =
        some revision.modified := by
  simp only [revisionsOf, List.mem_map, Prod.exists, Option.map_eq_some_iff]
  constructor
  · rintro ⟨id, row, hmem, rfl⟩
    exact ⟨row, mem_toList_iff.mp hmem, rfl⟩
  · rintro ⟨row, hrow, hmodified⟩
    exact ⟨revision.advisoryId, row, mem_toList_iff.mpr hrow, by
      cases revision; simp_all⟩

theorem mem_advisoryIds_revisionsOf_iff {rows : SnapshotRows} {id : String} :
    id ∈ advisoryIds (revisionsOf rows) ↔ rows[id]?.isSome = true := by
  simp only [List.mem_map, mem_revisionsOf_iff]
  constructor
  · rintro ⟨revision, hrevision, rfl⟩
    obtain ⟨row, hrow, -⟩ := Option.map_eq_some_iff.mp hrevision
    simp [hrow]
  · intro hsome
    obtain ⟨row, hrow⟩ := Option.isSome_iff_exists.mp hsome
    exact ⟨⟨id, row.modified⟩, by simp [hrow], rfl⟩

/-- Rows that store the same revisions. -/
theorem revisionsOf_eq_iff {left right : SnapshotRows} :
    revisionsOf left = revisionsOf right ↔
      ∀ id : String, left[id]?.map SnapshotRow.modified =
        right[id]?.map SnapshotRow.modified := by
  constructor
  · intro heq id
    have hmem : ∀ modified, left[id]?.map SnapshotRow.modified = some modified ↔
          right[id]?.map SnapshotRow.modified = some modified := fun modified => by
      have hleft : (⟨id, modified⟩ : AdvisoryRevision) ∈ revisionsOf left ↔
          left[id]?.map SnapshotRow.modified = some modified :=
        mem_revisionsOf_iff
      rw [← hleft, heq, mem_revisionsOf_iff]
    exact Option.ext hmem
  · intro heq
    refine (sortedById_revisionsOf left).ext (sortedById_revisionsOf right)
      fun revision => ?_
    rw [mem_revisionsOf_iff, mem_revisionsOf_iff, heq]

theorem upsertRow_getElem? (observedAt : Int) (rows : SnapshotRows)
    (revision : AdvisoryRevision) (id : String) :
    (upsertRow observedAt rows revision)[id]? =
      if id = revision.advisoryId then
        some { modified := revision.modified,
               firstSeenAt := (rows[id]?.map SnapshotRow.firstSeenAt).getD
                 observedAt,
               lastSeenAt := observedAt }
      else rows[id]? := by
  unfold upsertRow
  cases hrow : rows[revision.advisoryId]? <;>
    by_cases h : id = revision.advisoryId <;>
    simp [getElem?_insert_eq, h, hrow]

theorem foldl_upsertRow_of_notMem {observedAt : Int} {id : String}
    {current : List AdvisoryRevision} (hid : id ∉ advisoryIds current)
    (rows : SnapshotRows) :
    (current.foldl (upsertRow observedAt) rows)[id]? = rows[id]? := by
  induction current generalizing rows with
  | nil => rfl
  | cons revision current ih =>
    simp only [advisoryIds, List.map_cons, List.mem_cons, not_or] at hid
    rw [List.foldl_cons, ih hid.2, upsertRow_getElem?, if_neg hid.1]

theorem foldl_upsertRow_of_mem {observedAt : Int}
    {current : List AdvisoryRevision} (hsorted : SortedById current)
    {revision : AdvisoryRevision} (hrevision : revision ∈ current)
    (rows : SnapshotRows) :
    (current.foldl (upsertRow observedAt) rows)[revision.advisoryId]? =
      some { modified := revision.modified,
             firstSeenAt :=
               (rows[revision.advisoryId]?.map SnapshotRow.firstSeenAt).getD
                 observedAt,
             lastSeenAt := observedAt } := by
  induction current generalizing rows with
  | nil => simp at hrevision
  | cons head current ih =>
    have ⟨hhead, htail⟩ := List.pairwise_cons.mp hsorted
    rw [List.foldl_cons]
    rcases List.mem_cons.mp hrevision with rfl | hmem
    · rw [foldl_upsertRow_of_notMem (sortedById_notMem_of_lt hhead),
        upsertRow_getElem?, if_pos rfl]
    · rw [ih htail hmem, upsertRow_getElem?, if_neg (hhead revision hmem).ne']

theorem foldl_erase_getElem? (ids : List String) (rows : SnapshotRows)
    (id : String) :
    (ids.foldl (fun rows id => rows.erase id) rows)[id]? =
      if id ∈ ids then none else rows[id]? := by
  induction ids generalizing rows with
  | nil => simp
  | cons head ids ih =>
    rw [List.foldl_cons, ih, getElem?_erase_eq]
    by_cases h : id = head <;> by_cases hmem : id ∈ ids <;> simp [h, hmem]

section ReplaceRows

variable {rows : SnapshotRows} {current : List AdvisoryRevision}
  {removed : List String} {observedAt : Int}

theorem replaceRows_of_removed {id : String} (hid : id ∈ removed) :
    (replaceRows rows current removed observedAt)[id]? = none := by
  rw [replaceRows, foldl_erase_getElem?, if_pos hid]

theorem replaceRows_of_notMem {id : String} (hremoved : id ∉ removed)
    (hcurrent : id ∉ advisoryIds current) :
    (replaceRows rows current removed observedAt)[id]? = rows[id]? := by
  rw [replaceRows, foldl_erase_getElem?, if_neg hremoved,
    foldl_upsertRow_of_notMem hcurrent]

theorem replaceRows_of_mem (hsorted : SortedById current)
    {revision : AdvisoryRevision} (hrevision : revision ∈ current)
    (hremoved : revision.advisoryId ∉ removed) :
    (replaceRows rows current removed observedAt)[revision.advisoryId]? =
      some { modified := revision.modified,
             firstSeenAt :=
               (rows[revision.advisoryId]?.map SnapshotRow.firstSeenAt).getD
                 observedAt,
             lastSeenAt := observedAt } := by
  rw [replaceRows, foldl_erase_getElem?, if_neg hremoved,
    foldl_upsertRow_of_mem hsorted hrevision]

end ReplaceRows

/-! ## The cache -/

namespace VulnCache

def lookup (cache : VulnCache) (purl : String) : Option VulnCacheEntry :=
  cache.bind fun database => database.vulnCache (cString purl)

def store (cache : VulnCache) (purl : String) (fetchedAt : Int)
    (payload : JsonText) : VulnCache :=
  cache.map fun database =>
    { database with
      vulnCache := Function.update database.vulnCache (cString purl)
        (some { fetchedAtEpochSeconds := fetchedAt, payload := payload }) }

/-- The rows stored under one `purl` column value. -/
def snapshotRows (cache : VulnCache) (key : String) : SnapshotRows :=
  cache.elim ∅ fun database => database.osvAdvisorySnapshot key

def lookupAdvisorySnapshot (cache : VulnCache) (purl : String) :
    List AdvisoryRevision :=
  revisionsOf (cache.snapshotRows (cString purl))

def storeAdvisorySnapshot (cache : VulnCache) (purl : String)
    (current : List AdvisoryRevision) (removedAdvisoryIds : List String)
    (observedAt : Int) : VulnCache :=
  if current.isEmpty && removedAdvisoryIds.isEmpty then cache
  else cache.map fun database =>
    { database with
      osvAdvisorySnapshot := Function.update database.osvAdvisorySnapshot purl
        (replaceRows (database.osvAdvisorySnapshot purl) current
          removedAdvisoryIds observedAt) }

variable (cache : VulnCache)

@[simp] theorem isSome_store (purl : String) (fetchedAt : Int)
    (payload : JsonText) :
    (cache.store purl fetchedAt payload).isSome = cache.isSome := by
  simp [store]

@[simp] theorem isSome_storeAdvisorySnapshot (purl : String)
    (current : List AdvisoryRevision) (removed : List String)
    (observedAt : Int) :
    (cache.storeAdvisorySnapshot purl current removed observedAt).isSome =
      cache.isSome := by
  unfold storeAdvisorySnapshot
  split_ifs <;> simp

@[simp] theorem snapshotRows_store (purl key : String) (fetchedAt : Int)
    (payload : JsonText) :
    (cache.store purl fetchedAt payload).snapshotRows key =
      cache.snapshotRows key := by
  cases cache <;> rfl

@[simp] theorem lookup_storeAdvisorySnapshot (purl key : String)
    (current : List AdvisoryRevision) (removed : List String)
    (observedAt : Int) :
    (cache.storeAdvisorySnapshot purl current removed observedAt).lookup key =
      cache.lookup key := by
  unfold storeAdvisorySnapshot
  split_ifs
  · rfl
  · cases cache <;> rfl

theorem lookup_store (purl key : String) (fetchedAt : Int)
    (payload : JsonText) :
    (cache.store purl fetchedAt payload).lookup key =
      if cache.isSome ∧ cString key = cString purl then
        some { fetchedAtEpochSeconds := fetchedAt, payload := payload }
      else cache.lookup key := by
  cases cache with
  | none => rfl
  | some database =>
    by_cases h : cString key = cString purl <;>
      simp [store, lookup, h]

/-- The write of one purl's snapshot, on the rows of any key. -/
theorem snapshotRows_storeAdvisorySnapshot (hopen : cache.isSome = true)
    (purl key : String) (current : List AdvisoryRevision)
    (removed : List String) (observedAt : Int) :
    (cache.storeAdvisorySnapshot purl current removed observedAt).snapshotRows
        key =
      if key = purl then
        replaceRows (cache.snapshotRows purl) current removed observedAt
      else cache.snapshotRows key := by
  obtain ⟨database, rfl⟩ := Option.isSome_iff_exists.mp hopen
  unfold storeAdvisorySnapshot
  by_cases hempty : (current.isEmpty && removed.isEmpty) = true
  · rw [if_pos hempty]
    obtain ⟨hcurrent, hremoved⟩ : current = [] ∧ removed = [] := by
      simpa using hempty
    subst hcurrent hremoved
    split_ifs with hkey
    · subst hkey
      rfl
    · rfl
  · rw [if_neg hempty]
    by_cases hkey : key = purl <;>
      simp [snapshotRows, hkey]

theorem snapshotRows_storeAdvisorySnapshot_of_ne {purl key : String}
    (hkey : key ≠ purl) (current : List AdvisoryRevision)
    (removed : List String) (observedAt : Int) :
    (cache.storeAdvisorySnapshot purl current removed observedAt).snapshotRows
        key = cache.snapshotRows key := by
  cases cache with
  | none => unfold storeAdvisorySnapshot; split_ifs <;> rfl
  | some database =>
    rw [snapshotRows_storeAdvisorySnapshot _ rfl, if_neg hkey]

theorem sortedById_lookupAdvisorySnapshot (purl : String) :
    SortedById (cache.lookupAdvisorySnapshot purl) :=
  sortedById_revisionsOf _

end VulnCache
end Bomwerk.Vuln
