import Bomwerk.Vuln.Osv.Completeness
import Bomwerk.Vuln.Osv.Snapshot

/-!
# Histories of runs

Runs of `match_components` one after another on one cache.  The first part
says when the stored snapshots stay safe over a whole history: no advisory is
dropped or reported removed on the strength of an answer that was not
complete.  The second part says when a repeated run changes nothing.
-/

namespace Bomwerk.Vuln

open Bomwerk.Core Bomwerk.Support

/-! ## The snapshots of one run -/

section Run

variable (scoreCvssVector : String → CvssScore) (options : MatchOptions)
  (now : Int) (components : List Component) (transport : Transport)
  (cacheOpen : Result VulnCache)

/-- The answers of a run, in purl order. -/
def answerList : List (String × JsonText) :=
  (runAnswers options now transport components
    cacheOpen).value.payloadByPurl.toList

variable {options now components transport cacheOpen}

theorem sorted_answerList :
    (answerList options now components transport cacheOpen).Pairwise
      fun left right => left.1 < right.1 :=
  pairwise_lt_toList _

theorem runAnswers_snapshotRows (key : String) :
    (runAnswers options now transport components
        cacheOpen).value.cache.snapshotRows key =
      cacheOpen.value.snapshotRows key :=
  answers_snapshotRows key

theorem runAnswers_isSome :
    (runAnswers options now transport components cacheOpen).value.cache.isSome =
      cacheOpen.value.isSome :=
  answers_isSome

theorem answerList_eq_nil (hpurls : (queryPurls components).toList = []) :
    answerList options now components transport cacheOpen = [] := by
  refine List.eq_nil_iff_forall_not_mem.mpr fun answer hanswer => ?_
  have hmem := answers_keys_subset
    (Option.isSome_of_eq_some (mem_toList_iff.mp hanswer))
  simp [hpurls] at hmem

/-- The snapshots a run leaves are those of its examination. -/
theorem snapshotRows_matchComponents (key : String) :
    (matchComponents scoreCvssVector options now components transport
        cacheOpen).cache.snapshotRows key =
      (runExamination scoreCvssVector options now transport components
        cacheOpen).value.cache.snapshotRows key := by
  by_cases hpurls : (queryPurls components).toList = []
  · have hexamined : (runExamination scoreCvssVector options now transport
        components cacheOpen).value.cache =
        (runAnswers options now transport components cacheOpen).value.cache := by
      rw [runExamination, examine, show (runAnswers options now transport
        components cacheOpen).value.payloadByPurl.toList = [] from
          answerList_eq_nil hpurls]
      rfl
    rw [hexamined, runAnswers_snapshotRows]
    simp [matchComponents, hpurls]
  · rw [(matchComponents_of_ne_nil scoreCvssVector options now transport
      components cacheOpen hpurls).2.2.2, assembleAll_snapshotRows]

theorem isSome_matchComponents :
    (matchComponents scoreCvssVector options now components transport
        cacheOpen).cache.isSome = cacheOpen.value.isSome := by
  by_cases hpurls : (queryPurls components).toList = []
  · simp [matchComponents, hpurls]
  · rw [(matchComponents_of_ne_nil scoreCvssVector options now transport
      components cacheOpen hpurls).2.2.2, assembleAll_isSome]
    exact (examineAll_isSome _ _ _ _ _ _).trans (runAnswers_isSome)

theorem changedPurls_matchComponents :
    (matchComponents scoreCvssVector options now components transport
        cacheOpen).result.value.deltas.changedPurls =
      (runExamination scoreCvssVector options now transport components
        cacheOpen).value.deltas.changedPurls := by
  by_cases hpurls : (queryPurls components).toList = []
  · rw [runExamination, examine, show (runAnswers options now transport
      components cacheOpen).value.payloadByPurl.toList = [] from
        answerList_eq_nil hpurls]
    simp [matchComponents, hpurls]
  · rw [(matchComponents_of_ne_nil scoreCvssVector options now transport
      components cacheOpen hpurls).2.1]

theorem snapshotRows_of_unanswered {purl : String}
    (hpurl : (runAnswers options now transport components
      cacheOpen).value.payloadByPurl[purl]? = none) :
    (matchComponents scoreCvssVector options now components transport
        cacheOpen).cache.snapshotRows purl =
      cacheOpen.value.snapshotRows purl := by
  rw [snapshotRows_matchComponents, runExamination, examine]
  refine (examineAll_snapshotRows_of_notMem _ _ _ _ ?_ _).trans
    (runAnswers_snapshotRows purl)
  rw [mem_keys_toList_iff, hpurl]
  decide

theorem snapshotRows_of_answered (hopen : cacheOpen.value.isSome = true)
    {purl : String} {payload : JsonText}
    (hpayload : (runAnswers options now transport components
      cacheOpen).value.payloadByPurl[purl]? = some payload) :
    (matchComponents scoreCvssVector options now components transport
        cacheOpen).cache.snapshotRows purl =
      if (extractAdvisoryRevisions payload).malformed then
        cacheOpen.value.snapshotRows purl
      else answeredRows (cacheOpen.value.snapshotRows purl) purl
        (comparedWith cacheOpen.value.snapshotRows
          (matchComponents scoreCvssVector options now components transport
            cacheOpen).cache.snapshotRows purl) payload now := by
  have hrows := examineAll_snapshotRows_of_mem scoreCvssVector options now
    (runAnswers options now transport components
      cacheOpen).value.staleAnswerPurls
    sorted_answerList
    (mem_toList_iff.mpr hpayload)
    { value := { cache := (runAnswers options now transport components
        cacheOpen).value.cache } }
    ((runAnswers_isSome).trans hopen)
  have hbefore : (runAnswers options now transport components
      cacheOpen).value.cache.snapshotRows = cacheOpen.value.snapshotRows :=
    funext (runAnswers_snapshotRows)
  have hafter : (matchComponents scoreCvssVector options now components
      transport cacheOpen).cache.snapshotRows =
      (runExamination scoreCvssVector options now transport components
        cacheOpen).value.cache.snapshotRows :=
    funext (snapshotRows_matchComponents scoreCvssVector)
  simp only [hbefore] at hrows
  rw [hafter]
  exact hrows

/-! ## Answers as pages -/

variable (options now components transport cacheOpen)

/-- The purls whose first page a run kept. -/
def freshPurls : List String :=
  if options.offline then []
  else (keptFirstPages options now cacheOpen.value
    (queryPurls components).toList transport).map Prod.fst

/-- The answer of a run for a purl: the pages the server served, or the
document an older run left in the cache. -/
def answerPages (purl : String) : List Json :=
  if purl ∈ freshPurls options now components transport cacheOpen then
    pagesServed options now components transport cacheOpen purl
  else
    ((runAnswers options now transport components
      cacheOpen).value.payloadByPurl[purl]?.bind parseBoundedJson).toList

end Run

/-- An object whose `vulns`, if any, is an array. -/
def HasReadableShape (page : Json) : Prop :=
  page.isObject = true ∧
    (page.contains "vulns" = true →
      (page.findArray? "vulns").isSome = true)

/-- All pages are readable and the last one is a last page. -/
structure IsCompleteAnswer (pages : List Json) : Prop where
  readable : ∀ page ∈ pages, HasReadableShape page
  finished : ∃ last, pages.getLast? = some last ∧
    last.contains "next_page_token" = false

/-- All pages are readable and the last one asks for another. -/
structure IsTruncatedAnswer (pages : List Json) : Prop where
  readable : ∀ page ∈ pages, HasReadableShape page
  unfinished : ∃ last, pages.getLast? = some last ∧
    last.contains "next_page_token" = true

/-- An answer of several pages keeps to the documented shape: `vulns` is absent
or an array, the token is absent or a string. -/
def IsHonestAnswer (pages : List Json) : Prop :=
  2 ≤ pages.length → ∀ page ∈ pages,
    (page.contains "vulns" = true →
      (page.findArray? "vulns").isSome = true) ∧
    ∀ token, page.find? "next_page_token" = some token →
      token.isString = true

theorem isObject_of_pageToken? {page : Json}
    (htoken : (pageToken? page).isSome = true) : page.isObject = true := by
  cases page <;> simp_all [pageToken?, Json.findString?, Json.find?,
    Json.isObject]

theorem contains_of_pageToken? {page : Json}
    (htoken : (pageToken? page).isSome = true) :
    page.contains "next_page_token" = true := by
  by_contra h
  rw [pageToken?_eq_none_of_not_contains (by simpa using h)] at htoken
  simp at htoken

theorem endsChain_iff_of_string_token {page : Json}
    (hstring : ∀ token, page.find? "next_page_token" = some token →
      token.isString = true) :
    endsChain page = true ↔
      page.isObject = true ∧ page.contains "next_page_token" = false := by
  rw [endsChain, Bool.and_eq_true]
  refine and_congr_right fun _ => ?_
  cases hfind : page.find? "next_page_token" with
  | none => simp [pageToken?, Json.findString?, Json.contains, hfind]
  | some token =>
    have := hstring token hfind
    cases token <;> simp_all [pageToken?, Json.findString?, Json.contains,
      Json.asString?, Json.isString]

section FinalDocument

variable {firstPage : Json} {followUps : List Json}
  (hobject : firstPage.isObject = true)
  (hdropLast : ∀ page ∈ (firstPage :: followUps).dropLast,
    (pageToken? page).isSome = true)
  (hhonest : IsHonestAnswer (firstPage :: followUps))

include hdropLast

theorem pageToken?_firstPage (hpages : followUps ≠ []) :
    (pageToken? firstPage).isSome = true := by
  refine hdropLast firstPage ?_
  obtain ⟨page, pages, rfl⟩ := List.exists_cons_of_ne_nil hpages
  simp

include hobject hhonest

theorem isCompleteAnswer_of_finalDocument
    (hmalformed : (extractFromDocument
      (finalDocument firstPage followUps)).malformed = false)
    (htruncated : (finalDocument firstPage followUps).contains
      "next_page_token" = false) :
    IsCompleteAnswer (firstPage :: followUps) := by
  rw [contains_token_finalDocument hobject] at htruncated
  cases followUps with
  | nil =>
    rw [show finalDocument firstPage [] = firstPage from rfl,
      ← Bool.not_eq_true, extractFromDocument_malformed_iff] at hmalformed
    refine ⟨fun page hpage => ?_, firstPage, rfl, ?_⟩
    · obtain rfl := List.mem_singleton.mp hpage
      refine ⟨hobject, fun hvulns => ?_⟩
      rw [Option.isSome_iff_ne_none]
      exact fun hnone => hmalformed (Or.inr ⟨hvulns, hnone⟩)
    · simpa [extraOf] using htruncated
  | cons next pages =>
    have hpages := hhonest (by simp)
    have htoken := contains_of_pageToken?
      (pageToken?_firstPage hdropLast (by simp))
    have hends : endsChain ((next :: pages).getLast?.getD firstPage) =
        true := by
      simp only [htoken, Bool.true_and, Bool.or_eq_false_iff,
        Bool.not_eq_false'] at htruncated
      exact htruncated.2
    have hlast : (firstPage :: next :: pages).getLast? =
        some ((next :: pages).getLast?.getD firstPage) :=
      List.getLast?_cons
    generalize (next :: pages).getLast?.getD firstPage = last at hends hlast
    have hlastMem := List.mem_of_getLast? hlast
    obtain ⟨hlastObject, hlastToken⟩ :=
      (endsChain_iff_of_string_token (hpages _ hlastMem).2).mp hends
    refine ⟨fun page hpage => ⟨?_, (hpages page hpage).1⟩, last, hlast,
      hlastToken⟩
    rw [← List.dropLast_append_getLast? last hlast] at hpage
    rcases List.mem_append.mp hpage with hmem | hmem
    · exact isObject_of_pageToken? (hdropLast page hmem)
    · obtain rfl := List.mem_singleton.mp hmem
      exact hlastObject

theorem finalDocument_of_isTruncatedAnswer
    (hanswer : IsTruncatedAnswer (firstPage :: followUps)) :
    (extractFromDocument (finalDocument firstPage followUps)).malformed =
        false ∧
      (finalDocument firstPage followUps).contains "next_page_token" =
        true := by
  obtain ⟨last, hlast, htoken⟩ := hanswer.unfinished
  refine ⟨not_malformed_finalDocument hobject
    (Or.inr (hanswer.readable firstPage (by simp)).2), ?_⟩
  rw [contains_token_finalDocument hobject]
  rw [List.getLast?_cons, Option.some.injEq] at hlast
  cases followUps with
  | nil =>
    obtain rfl : firstPage = last := hlast
    simp [htoken, extraOf]
  | cons next pages =>
    have hfirst := contains_of_pageToken?
      (pageToken?_firstPage hdropLast (by simp))
    have hlastMem : last ∈ firstPage :: next :: pages :=
      List.mem_of_getLast? (List.getLast?_cons.trans (congrArg some hlast))
    have hends : endsChain last = false := by
      rw [← Bool.not_eq_true, endsChain_iff_of_string_token
        (hhonest (by simp) last hlastMem).2, htoken]
      simp
    rw [hlast, hends, hfirst]
    simp

end FinalDocument

/-! ## What a run makes of an answer -/

section Answer

variable (options : MatchOptions) (now : Int) (components : List Component)
  (transport : Transport) (cacheOpen : Result VulnCache)

/-- Every answer of several pages keeps to the documented shape. -/
def HonestRun : Prop :=
  ∀ purl ∈ queriedAfresh options now components cacheOpen,
    IsHonestAnswer (pagesServed options now components transport cacheOpen purl)

variable {options now components transport cacheOpen}

theorem exists_of_mem_freshPurls {purl : String}
    (hpurl : purl ∈ freshPurls options now components transport cacheOpen) :
    options.offline = false ∧
      ∃ firstPage, (purl, firstPage) ∈ keptFirstPages options now
        cacheOpen.value (queryPurls components).toList transport := by
  unfold freshPurls at hpurl
  split_ifs at hpurl with honline
  · simp at hpurl
  · obtain ⟨served, hserved, rfl⟩ := List.mem_map.mp hpurl
    exact ⟨by simpa using honline, served.2, hserved⟩

/-- The extracted revisions are the ones the pages of the answer state. -/
theorem mem_answerRevisions_iff {purl : String} {payload : JsonText}
    (hpayload : (runAnswers options now transport components
      cacheOpen).value.payloadByPurl[purl]? = some payload) (id : String) :
    id ∈ advisoryIds (answerRevisions payload) ↔
      ∃ page ∈ answerPages options now components transport cacheOpen purl,
        id ∈ pageIds page := by
  rw [answerRevisions, mem_advisoryIds_sortAndDeduplicateRevisions_iff]
  unfold answerPages
  split_ifs with hfresh
  · obtain ⟨honline, firstPage, hfresh⟩ :=
      exists_of_mem_freshPurls hfresh
    obtain rfl := Option.some.inj (hpayload.symm.trans
      (runAnswers_of_fresh honline hfresh))
    rw [pagesServed_of_fresh hfresh,
      ← mem_pageIds_finalDocument_iff (keptFirstPages_spec hfresh).1,
      extract_of_fresh hfresh,
      extractFromDocument_advisoryRevisions]
    rfl
  · rw [hpayload, Option.bind_some]
    cases hparse : parseBoundedJson payload with
    | none => simp [extractAdvisoryRevisions, hparse]
    | some document =>
      simp [extractAdvisoryRevisions, hparse,
        extractFromDocument_advisoryRevisions, pageIds]

variable (hhonest : HonestRun options now components transport cacheOpen)

include hhonest

theorem isHonestAnswer_of_fresh (honline : options.offline = false)
    {purl : String} {firstPage : Json}
    (hfresh : (purl, firstPage) ∈ keptFirstPages options now cacheOpen.value
      (queryPurls components).toList transport) :
    IsHonestAnswer (firstPage :: followUpsServed options now components
      transport cacheOpen purl) := by
  rw [← pagesServed_of_fresh hfresh]
  refine hhonest purl ?_
  rw [queriedAfresh, if_neg (by simp [honline])]
  exact keptFirstPages_keys_subset (List.mem_map_of_mem hfresh)

theorem isCompleteAnswer_of_extract {purl : String} {payload : JsonText}
    (hpayload : (runAnswers options now transport components
      cacheOpen).value.payloadByPurl[purl]? = some payload)
    (hmalformed : (extractAdvisoryRevisions payload).malformed = false)
    (htruncated : (extractAdvisoryRevisions payload).truncated = false) :
    IsCompleteAnswer
      (answerPages options now components transport cacheOpen purl) := by
  unfold answerPages
  split_ifs with hfresh
  · obtain ⟨honline, firstPage, hfresh⟩ :=
      exists_of_mem_freshPurls hfresh
    obtain rfl := Option.some.inj (hpayload.symm.trans
      (runAnswers_of_fresh honline hfresh))
    rw [extract_of_fresh hfresh] at hmalformed htruncated
    rw [extractFromDocument_truncated] at htruncated
    rw [pagesServed_of_fresh hfresh]
    exact isCompleteAnswer_of_finalDocument (keptFirstPages_spec hfresh).1
      (pageToken?_of_mem_dropLast hfresh)
      (isHonestAnswer_of_fresh hhonest honline hfresh) hmalformed htruncated
  · rw [hpayload, Option.bind_some]
    cases hparse : parseBoundedJson payload with
    | none => simp [extractAdvisoryRevisions, hparse] at hmalformed
    | some document =>
      simp only [extractAdvisoryRevisions, hparse] at hmalformed htruncated
      rw [extractFromDocument_truncated] at htruncated
      rw [← Bool.not_eq_true, extractFromDocument_malformed_iff,
        not_or] at hmalformed
      refine ⟨fun page hpage => ?_, document, rfl, htruncated⟩
      obtain rfl : page = document := by simpa using hpage
      refine ⟨by simpa using hmalformed.1, fun hvulns => ?_⟩
      rw [Option.isSome_iff_ne_none]
      exact fun hnone => hmalformed.2 ⟨hvulns, hnone⟩

theorem extract_of_isTruncatedAnswer {purl : String}
    (hanswer : IsTruncatedAnswer
      (answerPages options now components transport cacheOpen purl)) :
    ∃ payload, (runAnswers options now transport components
        cacheOpen).value.payloadByPurl[purl]? = some payload ∧
      (extractAdvisoryRevisions payload).malformed = false ∧
      (extractAdvisoryRevisions payload).truncated = true := by
  unfold answerPages at hanswer
  split_ifs at hanswer with hfresh
  · obtain ⟨honline, firstPage, hfresh⟩ :=
      exists_of_mem_freshPurls hfresh
    rw [pagesServed_of_fresh hfresh] at hanswer
    obtain ⟨hmalformed, htoken⟩ := finalDocument_of_isTruncatedAnswer
      (keptFirstPages_spec hfresh).1
      (pageToken?_of_mem_dropLast hfresh)
      (isHonestAnswer_of_fresh hhonest honline hfresh) hanswer
    refine ⟨_, runAnswers_of_fresh honline hfresh, ?_⟩
    rw [extract_of_fresh hfresh, extractFromDocument_truncated]
    exact ⟨hmalformed, htoken⟩
  · obtain ⟨last, hlast, htoken⟩ := hanswer.unfinished
    have hmem := List.mem_of_getLast? hlast
    rw [Option.mem_toList, Option.bind_eq_some_iff] at hmem
    obtain ⟨payload, hpayload, hparse⟩ := hmem
    have hshape := hanswer.readable last (by simp [hpayload, hparse])
    refine ⟨payload, hpayload, ?_⟩
    simp only [extractAdvisoryRevisions, hparse]
    rw [extractFromDocument_truncated, ← Bool.not_eq_true,
      extractFromDocument_malformed_iff]
    refine ⟨?_, htoken⟩
    rintro (hobject | ⟨hvulns, hnone⟩)
    · simp [hshape.1] at hobject
    · simpa [hnone] using hshape.2 hvulns

end Answer
/-! ## Safe snapshots -/

/-- What a run may do to the stored snapshots, by the answers it worked from.
-/
structure SnapshotSafe (before after : String → SnapshotRows)
    (changedPurls : List PurlAdvisoryDelta) (pages : String → List Json) :
    Prop where
  dropped : ∀ (purl id : String), (before purl)[id]?.isSome = true →
    (after purl)[id]? = none →
      IsCompleteAnswer (pages purl) ∧ ∀ page ∈ pages purl, id ∉ pageIds page
  reported : ∀ delta ∈ changedPurls, ∀ id ∈ delta.removedAdvisoryIds,
    IsCompleteAnswer (pages delta.purl) ∧
      ∀ page ∈ pages delta.purl, id ∉ pageIds page
  extended : ∀ purl : String, IsTruncatedAnswer (pages purl) → ∀ id : String,
    (after purl)[id]?.isSome = true ↔
      (before purl)[id]?.isSome = true ∨ ∃ page ∈ pages purl, id ∈ pageIds page
  firstSeen : ∀ (purl id : String) (old new : SnapshotRow),
    (before purl)[id]? = some old → (after purl)[id]? = some new →
      new.firstSeenAt = old.firstSeenAt

section History

variable (scoreCvssVector : String → CvssScore)

/-- What one run is given besides the cache. -/
structure RunInput where
  options : MatchOptions
  now : Int
  components : List Component
  transport : Transport

def RunInput.run (input : RunInput) (database : Database) : MatchRun :=
  matchComponents scoreCvssVector input.options input.now input.components
    input.transport { value := some database }

def RunInput.next (input : RunInput) (database : Database) : Database :=
  (input.run scoreCvssVector database).cache.getD database

def RunInput.answer (input : RunInput) (database : Database) (purl : String) :
    List Json :=
  answerPages input.options input.now input.components input.transport
    { value := some database } purl

/-- The answers of several pages keep to the documented shape. -/
def RunInput.Honest (input : RunInput) (database : Database) : Prop :=
  HonestRun input.options input.now input.components input.transport
    { value := some database }

def RunInput.Safe (input : RunInput) (database : Database) : Prop :=
  SnapshotSafe database.osvAdvisorySnapshot
    (input.next scoreCvssVector database).osvAdvisorySnapshot
    (input.run scoreCvssVector database).result.value.deltas.changedPurls
    (input.answer database)

theorem RunInput.snapshotRows_next (input : RunInput) (database : Database)
    (purl : String) :
    (input.next scoreCvssVector database).osvAdvisorySnapshot purl =
      (input.run scoreCvssVector database).cache.snapshotRows purl := by
  have hopen : (input.run scoreCvssVector database).cache.isSome = true :=
    isSome_matchComponents scoreCvssVector
  obtain ⟨left, hleft⟩ := Option.isSome_iff_exists.mp hopen
  rw [RunInput.next, hleft]
  rfl

def RunInput.payload? (input : RunInput) (database : Database)
    (purl : String) : Option JsonText :=
  (runAnswers input.options input.now input.transport input.components
    { value := some database }).value.payloadByPurl[purl]?

theorem RunInput.next_rows_of_answered (input : RunInput) {database : Database}
    {purl : String} {payload : JsonText}
    (hpayload : input.payload? database purl = some payload)
    (hmalformed : (extractAdvisoryRevisions payload).malformed = false) :
    ∃ previous, SortedById previous ∧
      (input.next scoreCvssVector database).osvAdvisorySnapshot purl =
        answeredRows (database.osvAdvisorySnapshot purl) purl previous payload
          input.now := by
  have hrows := snapshotRows_of_answered scoreCvssVector rfl hpayload
  rw [hmalformed, if_neg (by decide)] at hrows
  exact ⟨_, sortedById_comparedWith _ _ _,
    (input.snapshotRows_next scoreCvssVector database purl).trans hrows⟩

/-- The rows of one purl across a run: unchanged, or the rows of an answer. -/
theorem RunInput.next_rows_cases (input : RunInput) (database : Database)
    (purl : String) :
    (input.next scoreCvssVector database).osvAdvisorySnapshot purl =
        database.osvAdvisorySnapshot purl ∨
      ∃ payload previous, input.payload? database purl = some payload ∧
        (extractAdvisoryRevisions payload).malformed = false ∧
        SortedById previous ∧
        (input.next scoreCvssVector database).osvAdvisorySnapshot purl =
          answeredRows (database.osvAdvisorySnapshot purl) purl previous
            payload input.now := by
  cases hpayload : input.payload? database purl with
  | none =>
    refine Or.inl ((input.snapshotRows_next scoreCvssVector database
      purl).trans ?_)
    exact snapshotRows_of_unanswered scoreCvssVector hpayload
  | some payload =>
    cases hmalformed : (extractAdvisoryRevisions payload).malformed with
    | true =>
      have hrows := snapshotRows_of_answered scoreCvssVector rfl hpayload
      rw [hmalformed, if_pos rfl] at hrows
      exact Or.inl ((input.snapshotRows_next scoreCvssVector database
        purl).trans hrows)
    | false =>
      obtain ⟨previous, hsorted, hrows⟩ :=
        input.next_rows_of_answered scoreCvssVector hpayload hmalformed
      exact Or.inr ⟨payload, previous, rfl, hmalformed, hsorted, hrows⟩

/-- A reported removal comes from an answer taken for complete. -/
theorem RunInput.exists_answer_of_removed {input : RunInput}
    {database : Database} {delta : PurlAdvisoryDelta}
    (hdelta : delta ∈
      (input.run scoreCvssVector database).result.value.deltas.changedPurls)
    {id : String} (hid : id ∈ delta.removedAdvisoryIds) :
    ∃ payload, input.payload? database delta.purl = some payload ∧
      (extractAdvisoryRevisions payload).malformed = false ∧
      (extractAdvisoryRevisions payload).truncated = false ∧
      id ∉ advisoryIds (answerRevisions payload) := by
  rw [RunInput.run, changedPurls_matchComponents] at hdelta
  rcases changedAtTurn_of_mem_changedPurls _ _ _ _ hdelta with
    h | ⟨front, purl, payload, back, hanswers, hmalformed, rfl, -⟩
  · simp at h
  · have hmem : (purl, payload) ∈ (runAnswers input.options input.now
        input.transport input.components
          { value := some database }).value.payloadByPurl.toList := by
      rw [hanswers]
      simp
    obtain ⟨htruncated, -, hnot⟩ := mem_removed_answerDelta
      (VulnCache.sortedById_lookupAdvisorySnapshot _ purl) hid
    rw [answerDelta_purl]
    exact ⟨payload, mem_toList_iff.mp hmem, hmalformed, htruncated, hnot⟩

theorem RunInput.safe_of_honest {input : RunInput} {database : Database}
    (hhonest : input.Honest database) :
    input.Safe scoreCvssVector database := by
  have hids : ∀ {purl : String} {payload : JsonText},
      input.payload? database purl = some payload → ∀ id : String,
      id ∈ advisoryIds (answerRevisions payload) ↔
        ∃ page ∈ input.answer database purl, id ∈ pageIds page :=
    fun hpayload => mem_answerRevisions_iff hpayload
  refine ⟨fun purl id hbefore hafter => ?_, fun delta hdelta id hid => ?_,
    fun purl htruncated id => ?_, fun purl id old new hold hnew => ?_⟩
  · rcases input.next_rows_cases scoreCvssVector database purl with
      hrows | ⟨payload, previous, hpayload, hmalformed, hsorted, hrows⟩
    · rw [hrows] at hafter
      simp [hafter] at hbefore
    · rw [hrows] at hafter
      obtain ⟨htruncated, hid⟩ :=
        of_answeredRows_eq_none hsorted hbefore hafter
      refine ⟨isCompleteAnswer_of_extract hhonest hpayload hmalformed
        htruncated, fun page hpage hmem => hid ?_⟩
      exact (hids hpayload id).mpr ⟨page, hpage, hmem⟩
  · obtain ⟨payload, hpayload, hmalformed, htruncated, hnot⟩ :=
      exists_answer_of_removed scoreCvssVector hdelta hid
    refine ⟨isCompleteAnswer_of_extract hhonest hpayload hmalformed
      htruncated, fun page hpage hmem => hnot ?_⟩
    exact (hids hpayload id).mpr ⟨page, hpage, hmem⟩
  · obtain ⟨payload, hpayload, hmalformed, htruncated⟩ :=
      extract_of_isTruncatedAnswer hhonest htruncated
    obtain ⟨previous, hsorted, hrows⟩ :=
      input.next_rows_of_answered scoreCvssVector hpayload hmalformed
    rw [hrows, isSome_answeredRows_of_truncated hsorted htruncated,
      hids hpayload]
  · rcases input.next_rows_cases scoreCvssVector database purl with
      hrows | ⟨payload, previous, -, -, hsorted, hrows⟩
    · rw [hrows, hold] at hnew
      exact congrArg SnapshotRow.firstSeenAt (Option.some.inj hnew).symm
    · rw [hrows] at hnew
      exact firstSeenAt_answeredRows hsorted hold hnew

/-- A property of every run of a history, in the state it runs on. -/
def HoldsThroughout (property : RunInput → Database → Prop) :
    Database → List RunInput → Prop
  | _, [] => True
  | database, input :: inputs =>
    property input database ∧
      HoldsThroughout property (input.next scoreCvssVector database) inputs

/-- A history of honest runs treats the snapshots safely throughout. -/
theorem safe_throughout_of_honest {database : Database}
    {inputs : List RunInput}
    (hhonest : HoldsThroughout scoreCvssVector RunInput.Honest database
      inputs) :
    HoldsThroughout scoreCvssVector (RunInput.Safe scoreCvssVector) database
      inputs := by
  induction inputs generalizing database with
  | nil => trivial
  | cons input inputs ih =>
    exact ⟨RunInput.safe_of_honest scoreCvssVector hhonest.1, ih hhonest.2⟩

end History

/-- A run on one component at some time. -/
def sampleInput (now : Int) (pages : List Json) : RunInput where
  options := {}
  now := now
  components := [{ purl := samplePurl }]
  transport := sampleServer pages

/-- A dropped advisory, by two complete answers. -/
theorem safe_throughout_two_runs :
    HoldsThroughout (fun _ => {}) (RunInput.Safe fun _ => {}) {}
      [sampleInput 1000 [samplePage ["A", "B"] none],
        sampleInput 200000 [samplePage ["A"] none]] := by
  have hsingle : ∀ {input : RunInput} {database : Database},
      (∀ purl ∈ queriedAfresh input.options input.now input.components
        { value := some database }, (pagesServed input.options input.now
          input.components input.transport { value := some database }
            purl).length < 2) → input.Honest database :=
    fun h purl hpurl hlength => absurd (h purl hpurl) (by omega)
  exact safe_throughout_of_honest (fun _ => {})
    ⟨hsingle (by decide), hsingle (by decide), trivial⟩

/-- A chain that ends in a numeric token drops an advisory although the server
announced more of the answer. -/
theorem not_safe_throughout_of_numeric_token :
    ¬ HoldsThroughout (fun _ => {}) (RunInput.Safe fun _ => {}) {}
      [sampleInput 1000 [samplePage ["A", "B", "C"] none],
        sampleInput 200000 [samplePage ["A"] (some (.string "t")),
          samplePage ["B"] (some (.integer 5))]] := by
  intro hsafe
  obtain ⟨hcomplete, -⟩ := hsafe.2.1.dropped samplePurl "C" (by decide)
    (by decide)
  obtain ⟨last, hlast, htoken⟩ := hcomplete.finished
  have hcarried : (((sampleInput 200000
      [samplePage ["A"] (some (.string "t")),
        samplePage ["B"] (some (.integer 5))]).answer
      ((sampleInput 1000 [samplePage ["A", "B", "C"] none]).next
        (fun _ => {}) {}) samplePurl).getLast?.map
          (·.contains "next_page_token")) = some true := by
    decide
  rw [hlast, Option.map_some, htoken] at hcarried
  exact absurd hcarried (by decide)

end Bomwerk.Vuln
