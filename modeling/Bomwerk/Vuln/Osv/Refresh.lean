import Bomwerk.Vuln.Osv.History

/-!
# Repeated refreshes

A second run of `match_components` on the cache the first one left, working
from the same answers.  The normal form the diff uses is the one the table
stores and gives back, so nothing is reported; the exception is a purl with a
NUL byte, whose rows are stored under the whole purl and looked up under the
C string in front of the byte.
-/

namespace Bomwerk.Vuln

open Bomwerk.Core Bomwerk.Support

/-- Two snapshots store the same ids, with the same stamps and the same
`first_seen_at`. -/
def SameSnapshot (left right : SnapshotRows) : Prop :=
  ∀ id : String, left[id]?.map (fun row => (row.modified, row.firstSeenAt)) =
      right[id]?.map fun row => (row.modified, row.firstSeenAt)

theorem SameSnapshot.refl (rows : SnapshotRows) : SameSnapshot rows rows :=
  fun _ => rfl

theorem SameSnapshot.revisionsOf_eq {left right : SnapshotRows}
    (hsame : SameSnapshot left right) : revisionsOf left = revisionsOf right :=
  revisionsOf_eq_iff.mpr fun id => by
    simpa [Function.comp_def] using congrArg (Option.map Prod.fst) (hsame id)

section AnsweredRows

variable {rows : SnapshotRows} {purl : String} {payload : JsonText}
  {now : Int}

/-- The rows an answer leaves record it, when it was compared with the rows it
replaced. -/
theorem records_answeredRows :
    Records
      (revisionsOf (answeredRows rows purl (revisionsOf rows) payload now))
      (extractAdvisoryRevisions payload) := by
  have hprevious := sortedById_revisionsOf rows
  have hcurrent : SortedById (answerRevisions payload) :=
    sortedById_sortAndDeduplicateRevisions _
  have hstored : ∀ revision ∈ answerRevisions payload, revision ∈ revisionsOf
      (answeredRows rows purl (revisionsOf rows) payload now) := by
    intro revision hrevision
    rw [mem_revisionsOf_iff, answeredRows_of_mem hprevious hrevision]
    rfl
  unfold Records
  split_ifs with htruncated
  · exact hstored
  · refine (sortedById_revisionsOf _).ext hcurrent fun revision =>
      ⟨fun hmem => ?_, hstored revision⟩
    rw [mem_revisionsOf_iff] at hmem
    have hid : revision.advisoryId ∈ advisoryIds (answerRevisions payload) := by
      by_contra hid
      rw [answeredRows_of_notMem hid] at hmem
      split_ifs at hmem with hremoved
      · simp at hmem
      · refine hremoved ?_
        rw [answerDelta, if_neg htruncated]
        refine ((diffAdvisoryRevisions_isDelta purl hprevious
          hcurrent).removed _).mpr ⟨?_, hid⟩
        rw [mem_advisoryIds_revisionsOf_iff]
        cases hrow : rows[revision.advisoryId]? with
        | none => simp [hrow] at hmem
        | some row => rfl
    obtain ⟨observed, hobserved, heq⟩ := List.mem_map.mp hid
    rw [← heq, answeredRows_of_mem hprevious hobserved] at hmem
    have hstamp : observed.modified = revision.modified := by simpa using hmem
    have hrevision : observed = revision := by
      cases observed
      cases revision
      simp_all
    exact hrevision ▸ hobserved

/-- An answer whose revisions are stored already, and which removes nothing,
leaves the snapshot as it is. -/
theorem sameSnapshot_answeredRows {previous : List AdvisoryRevision}
    (hprevious : SortedById previous)
    (hrecords : Records previous (extractAdvisoryRevisions payload))
    (hstored : answerRevisions payload ⊆ revisionsOf rows) :
    SameSnapshot (answeredRows rows purl previous payload now) rows := by
  intro id
  by_cases hid : id ∈ advisoryIds (answerRevisions payload)
  · obtain ⟨revision, hrevision, rfl⟩ := List.mem_map.mp hid
    have hrow := mem_revisionsOf_iff.mp (hstored hrevision)
    obtain ⟨row, hrow, hmodified⟩ := Option.map_eq_some_iff.mp hrow
    rw [answeredRows_of_mem hprevious hrevision, hrow]
    simp [hmodified]
  · rw [answeredRows_of_notMem hid,
      removed_eq_nil_of_records hprevious hrecords]
    simp

end AnsweredRows

/-! ## Two runs -/

section TwoRuns

/-- What a run on the database reads out of its answer for a purl. -/
def RunInput.extracted? (input : RunInput) (database : Database)
    (purl : String) : Option ExtractedPayload :=
  (input.payload? database purl).map extractAdvisoryRevisions

variable (scoreCvssVector : String → CvssScore)

theorem RunInput.changedPurls_eq_nil_iff (input : RunInput)
    (database : Database) :
    (input.run scoreCvssVector database).result.value.deltas.changedPurls = [] ↔
      ∀ purl extracted, input.extracted? database purl = some extracted →
        extracted.malformed = false →
        Records
          (comparedWith database.osvAdvisorySnapshot
            (input.next scoreCvssVector database).osvAdvisorySnapshot purl)
          extracted := by
  have hbefore : (runAnswers input.options input.now input.transport
      input.components { value := some database }).value.cache.snapshotRows =
      database.osvAdvisorySnapshot :=
    funext (runAnswers_snapshotRows)
  have hafter : (input.next scoreCvssVector database).osvAdvisorySnapshot =
      (runExamination scoreCvssVector input.options input.now input.transport
        input.components { value := some database }).value.cache.snapshotRows :=
    funext fun purl => (input.snapshotRows_next scoreCvssVector database
      purl).trans (snapshotRows_matchComponents scoreCvssVector purl)
  have hnil := changedPurls_examineAll_eq_nil_iff scoreCvssVector
    input.options input.now
    (runAnswers input.options input.now input.transport input.components
      { value := some database }).value.staleAnswerPurls
    (@sorted_answerList input.options input.now input.components
      input.transport { value := some database })
    { value := { cache := (runAnswers input.options input.now
      input.transport input.components
        { value := some database }).value.cache } } rfl
  simp only [hbefore] at hnil
  rw [RunInput.run, changedPurls_matchComponents, hafter]
  refine hnil.trans ⟨fun h purl extracted hextracted => ?_,
    fun h purl payload hmem => h purl _ ?_⟩
  · obtain ⟨payload, hpayload, rfl⟩ := Option.map_eq_some_iff.mp hextracted
    exact h purl payload (mem_toList_iff.mpr hpayload)
  · exact congrArg (Option.map extractAdvisoryRevisions)
      (mem_toList_iff.mp hmem)

/-- What a second run on the same answers finds and leaves. -/
structure Idempotent (first second : RunInput) (database : Database) : Prop where
  unchanged : (second.run scoreCvssVector (first.next scoreCvssVector
    database)).result.value.deltas.changedPurls = []
  snapshots : ∀ purl : String, SameSnapshot
    ((second.next scoreCvssVector (first.next scoreCvssVector
      database)).osvAdvisorySnapshot purl)
    ((first.next scoreCvssVector database).osvAdvisorySnapshot purl)

variable {first second : RunInput} {database : Database}
  (hsame : ∀ purl,
    second.extracted? (first.next scoreCvssVector database) purl =
      first.extracted? database purl)

theorem RunInput.exists_payload_of_extracted {input : RunInput} {purl : String}
    {extracted : ExtractedPayload}
    (hextracted : input.extracted? database purl = some extracted) :
    ∃ payload, input.payload? database purl = some payload ∧
      extractAdvisoryRevisions payload = extracted :=
  Option.map_eq_some_iff.mp hextracted

/-- Behind a run, the rows of an answered purl without NUL bytes record its
answer. -/
theorem records_of_plain {purl : String} (hplain : cString purl = purl)
    {extracted : ExtractedPayload}
    (hextracted : first.extracted? database purl = some extracted)
    (hmalformed : extracted.malformed = false) :
    Records (revisionsOf
        ((first.next scoreCvssVector database).osvAdvisorySnapshot purl))
      extracted := by
  obtain ⟨payload, hpayload, rfl⟩ :=
    RunInput.exists_payload_of_extracted hextracted
  have hrows := snapshotRows_of_answered scoreCvssVector rfl hpayload
  rw [hmalformed, if_neg (by decide), comparedWith, if_pos hplain] at hrows
  rw [first.snapshotRows_next, RunInput.run, hrows]
  exact records_answeredRows

theorem stored_of_answered {purl : String} {extracted : ExtractedPayload}
    (hextracted : first.extracted? database purl = some extracted)
    (hmalformed : extracted.malformed = false) :
    sortAndDeduplicateRevisions extracted.advisoryRevisions ⊆ revisionsOf
      ((first.next scoreCvssVector database).osvAdvisorySnapshot purl) := by
  obtain ⟨payload, hpayload, rfl⟩ :=
    RunInput.exists_payload_of_extracted hextracted
  obtain ⟨previous, hsorted, hrows⟩ :=
    first.next_rows_of_answered scoreCvssVector hpayload hmalformed
  intro revision hrevision
  rw [hrows, mem_revisionsOf_iff, answeredRows_of_mem hsorted hrevision]
  rfl

include hsame

/-- A purl whose answer the second run finds recorded keeps its snapshot. -/
theorem sameSnapshot_of_records {purl : String}
    (hrecords : ∀ extracted, first.extracted? database purl = some extracted →
      extracted.malformed = false →
      Records
        (comparedWith
          (first.next scoreCvssVector database).osvAdvisorySnapshot
          (second.next scoreCvssVector (first.next scoreCvssVector
            database)).osvAdvisorySnapshot purl) extracted) :
    SameSnapshot
      ((second.next scoreCvssVector (first.next scoreCvssVector
        database)).osvAdvisorySnapshot purl)
      ((first.next scoreCvssVector database).osvAdvisorySnapshot purl) := by
  have hafter : (matchComponents scoreCvssVector second.options
      second.now second.components second.transport
      { value := some (first.next scoreCvssVector
        database) }).cache.snapshotRows =
      (second.next scoreCvssVector (first.next scoreCvssVector
        database)).osvAdvisorySnapshot :=
    funext fun key => (second.snapshotRows_next scoreCvssVector _ key).symm
  cases hsecond : second.payload? (first.next scoreCvssVector database) purl with
  | none =>
    have hrows := snapshotRows_of_unanswered scoreCvssVector hsecond
    rw [← hafter, hrows]
    exact SameSnapshot.refl _
  | some payload =>
    have hrows := snapshotRows_of_answered scoreCvssVector rfl hsecond
    cases hmalformed : (extractAdvisoryRevisions payload).malformed with
    | true =>
      rw [hmalformed, if_pos rfl] at hrows
      rw [← hafter, hrows]
      exact SameSnapshot.refl _
    | false =>
      have hextracted : first.extracted? database purl =
          some (extractAdvisoryRevisions payload) := by
        rw [← hsame, RunInput.extracted?, hsecond]
        rfl
      rw [hmalformed, if_neg (by decide), hafter] at hrows
      rw [hrows]
      refine sameSnapshot_answeredRows (sortedById_comparedWith _ _ _)
        (hrecords _ hextracted hmalformed) ?_
      exact stored_of_answered scoreCvssVector hextracted hmalformed

omit hsame

/-! ## An immediate second run -/

theorem RunInput.lookup_next (input : RunInput) (purl : String) :
    VulnCache.lookup (some (input.next scoreCvssVector database)) purl =
      (input.run scoreCvssVector database).cache.lookup purl := by
  have hopen : (input.run scoreCvssVector database).cache.isSome = true :=
    isSome_matchComponents scoreCvssVector
  obtain ⟨left, hleft⟩ := Option.isSome_iff_exists.mp hopen
  rw [RunInput.next, hleft]
  rfl

theorem RunInput.payload?_of_cached {input : RunInput}
    (honline : input.options.offline = false) {purl : String}
    (hpurl : purl ∈ (queryPurls input.components).toList) {payload : JsonText}
    (hpayload : freshPayload? input.options input.now (some database) purl =
      some payload) :
    input.payload? database purl = some payload := by
  rw [RunInput.payload?, runAnswers_of_online honline]
  exact onlineAnswers_getElem?_of_cached hpurl hpayload

section Rerun

variable {input : RunInput} (honline : input.options.offline = false)
  (hage : 0 ≤ input.options.cacheMaxAge)
  (hkeys : ∀ purl ∈ (queryPurls input.components).toList,
    OwnsCacheKey (queryPurls input.components).toList purl)
  (hserved : ∀ purl ∈ queriedAfresh input.options input.now input.components
      { value := some database },
    purl ∈ freshPurls input.options input.now input.components
      input.transport { value := some database })

include honline hage hkeys hserved

/-- Behind a run that was served every purl it asked about, each purl has its
answer as a fresh cache entry. -/
theorem RunInput.exists_freshPayload_next {purl : String}
    (hpurl : purl ∈ (queryPurls input.components).toList) :
    ∃ payload, input.payload? database purl = some payload ∧
      freshPayload? input.options input.now
        (some (input.next scoreCvssVector database)) purl = some payload := by
  cases hcached : freshPayload? input.options input.now (some database) purl
    with
  | some payload =>
    refine ⟨payload, RunInput.payload?_of_cached honline hpurl hcached, ?_⟩
    have hkept : purl ∉ (keptFirstPages input.options input.now
        (some database) (queryPurls input.components).toList
          input.transport).map Prod.fst := fun hmem => by
      have hfetch := (List.mem_filter.mp (keptFirstPages_keys_subset hmem)).2
      simp [hcached] at hfetch
    have hlookup := @lookup_matchComponents scoreCvssVector input.options
      input.now input.components input.transport { value := some database } _
      (List.ne_nil_of_mem hpurl) (hkeys purl hpurl)
    rw [runAnswers_of_online honline, onlineAnswers_lookup_of_notMem hkept
        (hkeys purl hpurl).detection] at hlookup
    rw [← hcached]
    unfold freshPayload?
    rw [input.lookup_next, RunInput.run, hlookup]
  | none =>
    have hfetch : purl ∈ queriedAfresh input.options input.now
        input.components { value := some database } := by
      rw [queriedAfresh, if_neg (by simp [honline])]
      exact List.mem_filter.mpr ⟨hpurl, by simp [hcached]⟩
    obtain ⟨-, firstPage, hfresh⟩ := exists_of_mem_freshPurls
      (hserved purl hfetch)
    refine ⟨_, runAnswers_of_fresh honline hfresh, ?_⟩
    have hlookup := lookup_matchComponents_of_fresh scoreCvssVector
      honline hfresh (hkeys purl hpurl) rfl
    unfold freshPayload?
    rw [input.lookup_next, RunInput.run, hlookup]
    simp [Option.filter, isFresh, hage]

theorem RunInput.payload?_rerun (purl : String) :
    input.payload? (input.next scoreCvssVector database) purl =
      input.payload? database purl := by
  by_cases hpurl : purl ∈ (queryPurls input.components).toList
  · obtain ⟨payload, hpayload, hcached⟩ := input.exists_freshPayload_next
      scoreCvssVector honline hage hkeys hserved hpurl
    rw [hpayload]
    exact RunInput.payload?_of_cached honline hpurl hcached
  · have hnone : ∀ database : Database,
        input.payload? database purl = none := fun database => by
      rw [← Option.not_isSome_iff_eq_none]
      exact fun hsome => hpurl (answers_keys_subset hsome)
    rw [hnone, hnone]

end Rerun
end TwoRuns

/-- A purl with a NUL byte, as a document may spell it. -/
def nulPurl : String := "pkg:npm/a\x00b@1"

/-- A run on a component with that purl. -/
def nulInput (now : Int) : RunInput where
  options := {}
  now := now
  components := [{ purl := nulPurl }]
  transport := sampleServer [samplePage ["A"] none]

end Bomwerk.Vuln
