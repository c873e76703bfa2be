import Bomwerk.Vuln.Osv.Match

/-!
# Examining the answers

The single-threaded tail of `match_components`: the loop over the answers and
the assembly of the hits.  Each fact is proved for one turn of its loop and
then for the whole loop.
-/

namespace Bomwerk.Vuln

open Bomwerk.Core Bomwerk.Support

variable (scoreCvssVector : String → CvssScore) (options : MatchOptions)
  (now : Int) (stale : Finset String)

def answerRevisions (payload : JsonText) : List AdvisoryRevision :=
  sortAndDeduplicateRevisions
    (extractAdvisoryRevisions payload).advisoryRevisions

def examineAll (answers : List (String × JsonText))
    (state : Result Examination) : Result Examination :=
  answers.foldl (examinePurl scoreCvssVector options now stale) state

section Turn

variable (state : Result Examination) {purl : String} {payload : JsonText}

theorem examinePurl_of_malformed
    (hmalformed : (extractAdvisoryRevisions payload).malformed = true) :
    (examinePurl scoreCvssVector options now stale state
      (purl, payload)).value = state.value := by
  simp [examinePurl, hmalformed]

theorem examinePurl_cache
    (hmalformed : (extractAdvisoryRevisions payload).malformed = false) :
    (examinePurl scoreCvssVector options now stale state
        (purl, payload)).value.cache =
      state.value.cache.storeAdvisorySnapshot purl (answerRevisions payload)
        (answerDelta purl (state.value.cache.lookupAdvisorySnapshot purl)
          (extractAdvisoryRevisions payload)).removedAdvisoryIds now := by
  simp [examinePurl, hmalformed, answerRevisions]

theorem examinePurl_deltas
    (hmalformed : (extractAdvisoryRevisions payload).malformed = false) :
    (examinePurl scoreCvssVector options now stale state
        (purl, payload)).value.deltas =
      state.value.deltas.push
        (answerDelta purl (state.value.cache.lookupAdvisorySnapshot purl)
          (extractAdvisoryRevisions payload)) := by
  simp [examinePurl, hmalformed]

theorem examinePurl_work
    (hmalformed : (extractAdvisoryRevisions payload).malformed = false) :
    (examinePurl scoreCvssVector options now stale state
        (purl, payload)).value.purlWork.map
          (fun work => (work.purl, work.advisoryRevisions)) =
      state.value.purlWork.map
          (fun work => (work.purl, work.advisoryRevisions)) ++
        if (answerRevisions payload).isEmpty then []
        else [(purl, answerRevisions payload)] := by
  simp only [examinePurl, hmalformed, Bool.false_eq_true, if_false,
    answerRevisions]
  split_ifs with hempty <;> simpa using hempty

theorem examinePurl_warnings :
    (examinePurl scoreCvssVector options now stale state
        (purl, payload)).warnings =
      state.warnings ++ if (extractAdvisoryRevisions payload).malformed then
          [{ code := .vulnResponseMalformed
             message := "OSV data for " ++ purl ++ " is malformed, ignored" }]
        else if (extractAdvisoryRevisions payload).truncated ∧
            state.value.paginationWarned = false then
          [{ code := .vulnCoverageIncomplete
             message := "OSV paginated at least one purl's advisory list " ++
               "and it is not fully resolved, ids may be incomplete" }]
        else [] := by
  cases hmalformed : (extractAdvisoryRevisions payload).malformed
  · simp only [examinePurl, hmalformed, Bool.false_eq_true, if_false,
      Result.warnIf_warnings]
    cases (extractAdvisoryRevisions payload).truncated <;>
      cases state.value.paginationWarned <;> simp
  · simp [examinePurl, hmalformed]

theorem examinePurl_paginationWarned
    (hmalformed : (extractAdvisoryRevisions payload).malformed = false) :
    (examinePurl scoreCvssVector options now stale state
        (purl, payload)).value.paginationWarned =
      (state.value.paginationWarned ||
        (extractAdvisoryRevisions payload).truncated) := by
  simp [examinePurl, hmalformed]

end Turn

/-! ## The whole loop -/

section Loop

variable (answers : List (String × JsonText)) (state : Result Examination)

theorem examineAll_warnings_prefix :
    state.warnings <+:
      (examineAll scoreCvssVector options now stale answers state).warnings := by
  induction answers generalizing state with
  | nil => exact List.prefix_refl _
  | cons answer answers ih =>
    refine List.IsPrefix.trans ?_ (ih _)
    rw [examinePurl_warnings]
    exact List.prefix_append _ _

theorem examineAll_lookup (key : String) :
    (examineAll scoreCvssVector options now stale answers
        state).value.cache.lookup key = state.value.cache.lookup key := by
  induction answers generalizing state with
  | nil => rfl
  | cons answer answers ih =>
    refine (ih _).trans ?_
    cases hmalformed : (extractAdvisoryRevisions answer.2).malformed
    · rw [examinePurl_cache _ _ _ _ _ hmalformed]
      simp
    · rw [examinePurl_of_malformed _ _ _ _ _ hmalformed]

theorem examineAll_isSome :
    (examineAll scoreCvssVector options now stale answers
        state).value.cache.isSome = state.value.cache.isSome := by
  induction answers generalizing state with
  | nil => rfl
  | cons answer answers ih =>
    refine (ih _).trans ?_
    cases hmalformed : (extractAdvisoryRevisions answer.2).malformed
    · rw [examinePurl_cache _ _ _ _ _ hmalformed]
      simp
    · rw [examinePurl_of_malformed _ _ _ _ _ hmalformed]

/-- The work a list of answers leaves for the hits. -/
def workOf (answers : List (String × JsonText)) :
    List (String × List AdvisoryRevision) :=
  answers.filterMap fun answer =>
    if (extractAdvisoryRevisions answer.2).malformed ∨
        (answerRevisions answer.2).isEmpty then none
    else some (answer.1, answerRevisions answer.2)

theorem examineAll_work :
    (examineAll scoreCvssVector options now stale answers
        state).value.purlWork.map
          (fun work => (work.purl, work.advisoryRevisions)) =
      state.value.purlWork.map
          (fun work => (work.purl, work.advisoryRevisions)) ++
        workOf answers := by
  induction answers generalizing state with
  | nil => simp [examineAll, workOf]
  | cons answer answers ih =>
    refine (ih _).trans ?_
    cases hmalformed : (extractAdvisoryRevisions answer.2).malformed
    · rw [examinePurl_work _ _ _ _ _ hmalformed]
      by_cases hempty : answerRevisions answer.2 = [] <;>
        simp [workOf, hmalformed, hempty]
    · rw [examinePurl_of_malformed _ _ _ _ _ hmalformed]
      simp [workOf, hmalformed]

/-- Warnings that speak of missing coverage. -/
def coverageCodes : List WarningCode :=
  [.vulnCoverageIncomplete, .vulnResponseMalformed, .vulnHttpRequestFailed,
    .vulnHttpEndpointNotAllowlisted, .vulnHttpUnexpectedStatus]

/-- No warning speaks of missing coverage. -/
def Silent (warnings : List Warning) : Prop :=
  ∀ warning ∈ warnings, warning.code ∉ coverageCodes

instance (warnings : List Warning) : Decidable (Silent warnings) :=
  inferInstanceAs (Decidable (∀ warning ∈ warnings, _))

theorem Silent.of_subset {left right : List Warning} (hsilent : Silent right)
    (hsubset : left ⊆ right) : Silent left :=
  fun warning hwarning => hsilent warning (hsubset hwarning)

theorem Silent.of_warnIf {α : Type*} {result : Result α} {condition : Bool}
    {code : WarningCode} {message : String} (hcode : code ∈ coverageCodes)
    (hsilent : Silent (result.warnIf condition code message).warnings) :
    condition = false ∧ Silent result.warnings := by
  rw [Result.warnIf_warnings] at hsilent
  constructor
  · by_contra h
    simp only [Bool.not_eq_false] at h
    refine hsilent { code := code, message := message } ?_ hcode
    simp [h]
  · exact hsilent.of_subset (List.subset_append_left _ _)

theorem Silent.of_absorb {α : Type*} {result : Result α}
    {warnings : List Warning}
    (hsilent : Silent (result.absorb warnings).warnings) :
    Silent result.warnings ∧ Silent warnings :=
  ⟨hsilent.of_subset (List.subset_append_left _ _),
    hsilent.of_subset (List.subset_append_right _ _)⟩

/-- A silent examination found every answer well formed and untruncated. -/
theorem wellFormed_of_silent_examineAll
    (hwarned : state.value.paginationWarned = false)
    (hsilent : Silent
      (examineAll scoreCvssVector options now stale answers state).warnings) :
    ∀ answer ∈ answers, (extractAdvisoryRevisions answer.2).malformed = false ∧
        (extractAdvisoryRevisions answer.2).truncated = false := by
  induction answers generalizing state with
  | nil => simp
  | cons head answers ih =>
    have hprefix := examineAll_warnings_prefix scoreCvssVector options now
      stale answers (examinePurl scoreCvssVector options now stale state head)
    have hturn : Silent (examinePurl scoreCvssVector options now stale state
        head).warnings := hsilent.of_subset hprefix.subset
    rw [examinePurl_warnings] at hturn
    have hmalformed :
        (extractAdvisoryRevisions head.2).malformed = false := by
      by_contra h
      simp only [Bool.not_eq_false] at h
      refine hturn
        { code := .vulnResponseMalformed
          message := "OSV data for " ++ head.1 ++ " is malformed, ignored" }
        (by simp [h]) (by simp [coverageCodes])
    have htruncated :
        (extractAdvisoryRevisions head.2).truncated = false := by
      by_contra h
      simp only [Bool.not_eq_false] at h
      simp only [hmalformed, h, hwarned, Bool.false_eq_true, if_false,
        and_self, if_true] at hturn
      exact hturn _ (List.mem_append_right _ (List.mem_singleton_self _))
        (by simp [coverageCodes])
    intro answer hanswer
    rcases List.mem_cons.mp hanswer with rfl | hmem
    · exact ⟨hmalformed, htruncated⟩
    · refine ih (examinePurl scoreCvssVector options now stale state head)
        ?_ hsilent answer hmem
      rw [examinePurl_paginationWarned _ _ _ _ _ hmalformed, hwarned,
        htruncated]
      rfl

end Loop

/-! ## Hits -/

/-- A hit reports an advisory id for a purl. -/
def ReportsId (hits : List VulnerabilityHit) (purl id : String) : Prop :=
  ∃ hit ∈ hits, hit.purl = purl ∧ id ∈ hit.advisories.map ScoredAdvisory.id

instance (hits : List VulnerabilityHit) (purl id : String) :
    Decidable (ReportsId hits purl id) :=
  inferInstanceAs (Decidable (∃ hit ∈ hits, _))

theorem mem_assembleHit_ids_iff {work : PurlWork}
    {records : OrderedMap String AdvisoryRecord} {id : String} :
    id ∈ (assembleHit work records).advisories.map ScoredAdvisory.id ↔
      id ∈ advisoryIds work.advisoryRevisions := by
  have hid : ∀ revision : AdvisoryRevision,
      (scoredAdvisory records revision).id = revision.advisoryId := by
    intro revision
    unfold scoredAdvisory
    split <;> rfl
  simp [assembleHit, hid]

variable (transport : Transport)

def assembleAll (work : List PurlWork) (state : Result Assembly) :
    Result Assembly :=
  work.foldl (assemble scoreCvssVector now transport) state

theorem assemble_hits (state : Result Assembly) (work : PurlWork) :
    ∃ records, (assemble scoreCvssVector now transport state work).value.hits =
      state.value.hits ++ [assembleHit work records] := by
  unfold assemble
  split
  · exact ⟨_, rfl⟩
  · exact ⟨_, rfl⟩

theorem reportsId_assembleAll_iff (work : List PurlWork)
    (state : Result Assembly) {purl id : String} :
    ReportsId (assembleAll scoreCvssVector now transport work state).value.hits
        purl id ↔
      ReportsId state.value.hits purl id ∨
        ∃ w ∈ work, w.purl = purl ∧ id ∈ advisoryIds w.advisoryRevisions := by
  induction work generalizing state with
  | nil => simp [assembleAll]
  | cons w work ih =>
    refine (ih (assemble scoreCvssVector now transport state w)).trans ?_
    obtain ⟨records, hhits⟩ :=
      assemble_hits scoreCvssVector now transport state w
    have hhead : ReportsId
        (assemble scoreCvssVector now transport state w).value.hits purl
          id ↔
        ReportsId state.value.hits purl id ∨
          w.purl = purl ∧ id ∈ advisoryIds w.advisoryRevisions := by
      rw [hhits]
      simp only [ReportsId, List.mem_append, List.mem_singleton, or_and_right,
        exists_or, exists_eq_left, mem_assembleHit_ids_iff]
      rfl
    rw [hhead, or_assoc]
    simp

/-- A key no hydrated purl uses is left alone. -/
theorem assembleAll_lookup {key : String} (work : List PurlWork)
    (state : Result Assembly)
    (hkeys : ∀ w ∈ work,
      cString (w.purl ++ fullPayloadKeySuffix) ≠ cString key) :
    (assembleAll scoreCvssVector now transport work
        state).value.cache.lookup key = state.value.cache.lookup key := by
  induction work generalizing state with
  | nil => rfl
  | cons w work ih =>
    refine (ih _ fun other h => hkeys other (List.mem_cons_of_mem w h)).trans
      ?_
    have hne := hkeys w (by simp)
    unfold assemble
    split
    · rfl
    · simp only [finishHydrationFetch]
      split_ifs
      · split
        · simp [VulnCache.lookup_store, hne.symm]
        · simp
      · simp

/-- Hydration leaves the snapshots alone. -/
theorem assembleAll_snapshotRows (key : String) (work : List PurlWork)
    (state : Result Assembly) :
    (assembleAll scoreCvssVector now transport work
        state).value.cache.snapshotRows key =
      state.value.cache.snapshotRows key := by
  induction work generalizing state with
  | nil => rfl
  | cons w work ih =>
    refine (ih _).trans ?_
    unfold assemble
    split
    · rfl
    · simp only [finishHydrationFetch]
      split_ifs
      · split <;> simp
      · simp

theorem assembleAll_isSome (work : List PurlWork) (state : Result Assembly) :
    (assembleAll scoreCvssVector now transport work state).value.cache.isSome =
      state.value.cache.isSome := by
  induction work generalizing state with
  | nil => rfl
  | cons w work ih =>
    refine (ih _).trans ?_
    unfold assemble
    split
    · rfl
    · simp only [finishHydrationFetch]
      split_ifs
      · split <;> simp
      · simp

theorem mem_workOf_iff {answers : List (String × JsonText)} {purl id : String} :
    (∃ work ∈ workOf answers, work.1 = purl ∧ id ∈ advisoryIds work.2) ↔
      ∃ payload, (purl, payload) ∈ answers ∧
        (extractAdvisoryRevisions payload).malformed = false ∧
        id ∈ advisoryIds
          (extractAdvisoryRevisions payload).advisoryRevisions := by
  have hids : ∀ payload : JsonText, id ∈ advisoryIds (answerRevisions payload) ↔
      id ∈ advisoryIds (extractAdvisoryRevisions payload).advisoryRevisions :=
    fun payload => mem_advisoryIds_sortAndDeduplicateRevisions_iff
  constructor
  · rintro ⟨work, hwork, rfl, hid⟩
    obtain ⟨⟨other, payload⟩, hanswer, hentry⟩ := List.mem_filterMap.mp hwork
    split_ifs at hentry with hskip
    obtain rfl := Option.some.inj hentry
    simp only [not_or, Bool.not_eq_true] at hskip
    exact ⟨payload, hanswer, hskip.1, (hids payload).mp hid⟩
  · rintro ⟨payload, hanswer, hmalformed, hid⟩
    have hmem := (hids payload).mpr hid
    refine ⟨(purl, answerRevisions payload), List.mem_filterMap.mpr
      ⟨(purl, payload), hanswer, ?_⟩, rfl, hmem⟩
    have hne : answerRevisions payload ≠ [] := by
      rintro hnil
      simp [hnil] at hmem
    simp [hmalformed, hne]

section MatchComponents

variable (components : List Component) (cacheOpen : Result VulnCache)

def runAnswers : Result Answers :=
  answers options now cacheOpen.value (queryPurls components).toList transport

def runExamination : Result Examination :=
  examine scoreCvssVector options now
    (runAnswers options now transport components cacheOpen).value

theorem matchComponents_of_ne_nil
    (hpurls : (queryPurls components).toList ≠ []) :
    let answered := runAnswers options now transport components cacheOpen
    let examined := runExamination scoreCvssVector options now transport
      components cacheOpen
    let assembled := assembleAll scoreCvssVector now transport
      examined.value.purlWork { value := { cache := examined.value.cache } }
    let run := matchComponents scoreCvssVector options now components transport
      cacheOpen
    run.result.value.hits = assembled.value.hits ∧
      run.result.value.deltas = examined.value.deltas ∧
      run.result.warnings = cacheOpen.warnings ++ answered.warnings ++
        examined.warnings ++ assembled.warnings ∧
      run.cache = assembled.value.cache := by
  have hempty : (queryPurls components).toList.isEmpty = false := by
    simpa using hpurls
  unfold matchComponents
  simp only [hempty, Bool.false_eq_true, if_false]
  exact ⟨rfl, rfl, rfl, rfl⟩

/-- What a run reports, by the payload it answers a purl with. -/
theorem reportsId_matchComponents_iff
    (hpurls : (queryPurls components).toList ≠ []) {purl id : String} :
    ReportsId (matchComponents scoreCvssVector options now components transport
        cacheOpen).result.value.hits purl id ↔
      ∃ payload, (runAnswers options now transport components
          cacheOpen).value.payloadByPurl[purl]? = some payload ∧
        (extractAdvisoryRevisions payload).malformed = false ∧
        id ∈ advisoryIds
          (extractAdvisoryRevisions payload).advisoryRevisions := by
  rw [(matchComponents_of_ne_nil scoreCvssVector options now transport
    components cacheOpen hpurls).1, reportsId_assembleAll_iff]
  have hwork := examineAll_work scoreCvssVector options now
    (runAnswers options now transport components
      cacheOpen).value.staleAnswerPurls
    (runAnswers options now transport components
      cacheOpen).value.payloadByPurl.toList
    { value := { cache :=
        (runAnswers options now transport components cacheOpen).value.cache } }
  simp only [List.map_nil, List.nil_append] at hwork
  have hmap : ∀ works : List PurlWork, (∃ work ∈ works, work.purl = purl ∧
        id ∈ advisoryIds work.advisoryRevisions) ↔
      ∃ work ∈ works.map (fun work => (work.purl, work.advisoryRevisions)),
        work.1 = purl ∧ id ∈ advisoryIds work.2 := by
    simp
  rw [hmap, show (runExamination scoreCvssVector options now transport
    components cacheOpen).value.purlWork.map
      (fun work => (work.purl, work.advisoryRevisions)) = _ from hwork,
    mem_workOf_iff]
  simp [ReportsId]

end MatchComponents
end Bomwerk.Vuln
