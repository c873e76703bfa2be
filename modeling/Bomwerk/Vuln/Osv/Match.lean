import Bomwerk.Core.Component
import Bomwerk.Vuln.Cache
import Bomwerk.Vuln.Endpoints
import Bomwerk.Vuln.Osv.Payload
import Mathlib.Data.Finset.Card

/-!
# Matching components against OSV

`match_components` of `vuln/osv.cpp`, one definition for each of its loops.

The transport answers the requests of the three call sites by the place of the
request in its call site: the batch index, the pagination round and the
hydration slot.  The source stores the answers of concurrent requests in those
slots before it reads any of them, so the order in which requests complete is
not observable.
-/

namespace Bomwerk.Vuln

open Bomwerk.Core Bomwerk.Support

/-- `kConfirmedUnchangedMaxAge`, in seconds. -/
def confirmedUnchangedMaxAge : Int := 7 * 24 * 60 * 60

def osvMaxQueriesPerBatch : Nat := 1000

def maxOsvPaginationRounds : Nat := 10

def fullPayloadKeySuffix : String := "\x1ffull"

/-- `MatchOptions`; ages are in seconds. -/
structure MatchOptions where
  offline : Bool := false
  cacheMaxAge : Int := 24 * 60 * 60
  maxQueriesPerBatch : Nat := 500

def MatchOptions.batchSizeLimit (options : MatchOptions) : Nat :=
  max 1 (min options.maxQueriesPerBatch osvMaxQueriesPerBatch)

structure HttpRequest where
  url : String
  body : Json

structure HttpResponse where
  statusCode : Int := 0
  body : JsonText := none

/-- `http_post`, by call site and place in it. -/
structure Transport where
  batch : Nat → HttpRequest → Result HttpResponse
  followUp : Nat → HttpRequest → Result HttpResponse
  hydration : Nat → HttpRequest → Result HttpResponse

structure VulnerabilityHit where
  purl : String
  advisories : List ScoredAdvisory
  deriving DecidableEq, Repr

structure OsvDeltaReport where
  changedPurls : List PurlAdvisoryDelta := []
  purlsExamined : Nat := 0
  purlsUnchanged : Nat := 0
  deriving DecidableEq, Repr

structure MatchOutcome where
  hits : List VulnerabilityHit := []
  deltas : OsvDeltaReport := {}
  componentsWithoutOsvCoverage : Nat := 0
  deriving DecidableEq, Repr

def queryPurlFor (canonicalPurl : String) : String :=
  purlIdentityPart canonicalPurl

def commitShaIfApplicable? (queryPurl : String) : Option String :=
  let version := purlVersionOf queryPurl
  if isHexObjectId version then some version else none

def buildQueryObject (queryPurl : String) : Json :=
  match commitShaIfApplicable? queryPurl with
  | some sha => .object [("commit", .string sha)]
  | none => .object [("package", .object [("purl", .string queryPurl)])]

def queryPurls (components : List Component) : OrderedSet String :=
  components.foldl
    (fun purls component =>
      if classifyMatchCoverage component.purl = .matched then
        purls.insert (queryPurlFor component.purl)
      else purls) ∅

def queriesRequest (queries : List Json) : HttpRequest where
  url := osvQueryBatchUrl
  body := .object [("queries", .array queries)]

/-- The results of a `querybatch` answer of the expected shape. -/
def usableResults (response : HttpResponse) : Option (List Json) :=
  if response.statusCode = 200 then
    (parseBoundedJson response.body).bind fun document =>
      document.findArray? "results"
  else none

/-- Whether a cached entry is not older than the refresh horizon. -/
def isFresh (options : MatchOptions) (now : Int) (entry : VulnCacheEntry) :
    Bool :=
  now - options.cacheMaxAge ≤ entry.fetchedAtEpochSeconds

section Partition

variable (options : MatchOptions) (now : Int) (cache : VulnCache)

def freshPayload? (purl : String) : Option JsonText :=
  ((cache.lookup purl).filter (isFresh options now)).map VulnCacheEntry.payload

def stalePayload? (purl : String) : Option JsonText :=
  ((cache.lookup purl).filter fun entry => !isFresh options now entry).map
    VulnCacheEntry.payload

/-- `payload_by_purl` behind the partition loop. -/
def freshPayloads (purls : List String) : OrderedMap String JsonText :=
  collect purls (freshPayload? options now cache)

/-- `stale_payload_by_purl`. -/
def stalePayloads (purls : List String) : OrderedMap String JsonText :=
  collect purls (stalePayload? options now cache)

def purlsToFetch (purls : List String) : List String :=
  purls.filter fun purl => (freshPayload? options now cache purl).isNone

end Partition

/-- What the two fall-back loops accumulate. -/
structure StaleUse where
  payloadByPurl : OrderedMap String JsonText
  staleAnswerPurls : Finset String := ∅
  staleUsedCount : Nat := 0
  missingCount : Nat := 0

/-- One turn of the `--offline` loop. -/
def answerFromStale (stale : OrderedMap String JsonText) (use : StaleUse)
    (purl : String) : StaleUse :=
  match stale[purl]? with
  | some payload =>
    { use with
      payloadByPurl := use.payloadByPurl.insert purl payload
      staleAnswerPurls := insert purl use.staleAnswerPurls
      staleUsedCount := use.staleUsedCount + 1 }
  | none => { use with missingCount := use.missingCount + 1 }

/-- One turn of the fall-back loop behind the batches. -/
def fallBack (stale : OrderedMap String JsonText) (use : StaleUse)
    (purl : String) : StaleUse :=
  if use.payloadByPurl.contains purl then use
  else answerFromStale stale use purl

/-- What the batch loop accumulates. -/
structure FetchState where
  cache : VulnCache
  payloadByPurl : OrderedMap String JsonText
  freshlyFetchedPurls : List String := []

/-- The batches `purls_to_fetch` is cut into. -/
def batches (limit : Nat) (purls : List String) : List (List String) :=
  (List.range ((purls.length + limit - 1) / limit)).map fun index =>
    (purls.drop (index * limit)).take limit

def batchResponse (transport : Transport) (index : Nat)
    (batch : List String) : Result HttpResponse :=
  transport.batch index (queriesRequest (batch.map buildQueryObject))

/-- One turn of the loop over the results of a batch. -/
def storeEntry (now : Int) (state : Result FetchState)
    (served : String × Json) : Result FetchState :=
  let (purl, entry) := served
  if !entry.isObject then
    state.warn .vulnResponseMalformed
      ("OSV entry for " ++ purl ++ " is malformed, skipped")
  else
    { state with
      value :=
        { cache := state.value.cache.store purl now entry.dump
          payloadByPurl := state.value.payloadByPurl.insert purl entry.dump
          freshlyFetchedPurls :=
            state.value.freshlyFetchedPurls ++ [purl] } }

/-- One turn of the loop over the batches. -/
def processBatch (transport : Transport) (now : Int)
    (state : Result FetchState) (batch : List String × Nat) :
    Result FetchState :=
  let (purls, index) := batch
  let response := batchResponse transport index purls
  let status := response.value.statusCode
  let state := (state.absorb response.warnings).warnIf
    (status ≠ 0 ∧ status ≠ 200) .vulnHttpUnexpectedStatus
    ("OSV querybatch returned HTTP " ++ toString status)
  match usableResults response.value with
  | none =>
    state.warnIf (status = 200) .vulnResponseMalformed
      "OSV querybatch response is not the expected JSON shape, batch discarded"
  | some results =>
    (purls.zip results).foldl (storeEntry now)
      (state.warnIf (results.length ≠ purls.length) .vulnCoverageIncomplete
        ("OSV querybatch answered " ++ toString results.length ++ " of " ++
          toString purls.length ++ " queries, partial batch"))

def fetchBatches (transport : Transport) (options : MatchOptions) (now : Int)
    (purls : List String) (state : Result FetchState) : Result FetchState :=
  (batches options.batchSizeLimit purls).zipIdx.foldl
    (processBatch transport now) state

/-! ## Pagination -/

def pageToken? (page : Json) : Option String :=
  page.findString? "next_page_token"

/-- `next_page_token_by_purl` before the first round. -/
def firstPageTokens (purls : List String)
    (payloadByPurl : OrderedMap String JsonText) : OrderedMap String String :=
  collect purls fun purl =>
    (payloadByPurl[purl]?.bind parseBoundedJson).bind pageToken?

/-- What the pagination rounds accumulate. -/
structure PaginationState where
  nextPageTokenByPurl : OrderedMap String String
  extraVulnsByPurl : OrderedMap String (List Json) := ∅
  incompletePaginationPurls : Finset String := ∅

def followUpRequest (tokens : OrderedMap String String) : HttpRequest :=
  queriesRequest (tokens.toList.map fun (purl, token) =>
    (buildQueryObject purl).set "page_token" (.string token))

def followUpResponse (transport : Transport) (round : Nat)
    (tokens : OrderedMap String String) : Result HttpResponse :=
  transport.followUp round (followUpRequest tokens)

/-- The pages of one round by purl; nothing for an unusable answer. -/
def followUpPages (response : HttpResponse)
    (tokens : OrderedMap String String) : Option (List (String × Json)) :=
  (usableResults response).bind fun results =>
    if results.length = tokens.toList.length then
      some ((tokens.toList.map Prod.fst).zip results)
    else none

/-- One turn of the loop over the pages of a round; `sent` are the tokens the
round sent, `nextPageTokenByPurl` of the state the ones for the next round. -/
def followPage (sent : OrderedMap String String) (state : PaginationState)
    (served : String × Json) : PaginationState :=
  let (purl, page) := served
  if !page.isObject then
    { state with
      incompletePaginationPurls :=
        insert purl state.incompletePaginationPurls }
  else
    let extra :=
      match page.findArray? "vulns" with
      | some vulns =>
        state.extraVulnsByPurl.insert purl
          ((state.extraVulnsByPurl[purl]?).getD [] ++ vulns)
      | none => state.extraVulnsByPurl
    match pageToken? page with
    | none => { state with extraVulnsByPurl := extra }
    | some token =>
      if some token ≠ sent[purl]? then
        { state with
          extraVulnsByPurl := extra
          nextPageTokenByPurl :=
            state.nextPageTokenByPurl.insert purl token }
      else
        { state with
          extraVulnsByPurl := extra
          incompletePaginationPurls :=
            insert purl state.incompletePaginationPurls }

def followPages (state : PaginationState) (pages : List (String × Json)) :
    PaginationState :=
  pages.foldl (followPage state.nextPageTokenByPurl)
    { state with nextPageTokenByPurl := ∅ }

def paginationRounds (transport : Transport) :
    (roundsLeft round : Nat) → Result PaginationState → Result PaginationState
  | 0, _, state => state
  | roundsLeft + 1, round, state =>
    if state.value.nextPageTokenByPurl.isEmpty then state
    else
      let tokens := state.value.nextPageTokenByPurl
      let response := followUpResponse transport round tokens
      let state := state.absorb response.warnings
      match followUpPages response.value tokens with
      | none =>
        { state with
          value :=
            { state.value with
              incompletePaginationPurls :=
                state.value.incompletePaginationPurls ∪
                  (tokens.toList.map Prod.fst).toFinset } }
      | some pages =>
        paginationRounds transport roundsLeft (round + 1)
          { state with value := followPages state.value pages }

/-- The rounds, and what is left when their bound is exhausted. -/
def paginate (transport : Transport) (tokens : OrderedMap String String) :
    Result PaginationState :=
  let state := paginationRounds transport maxOsvPaginationRounds 0
    { value := { nextPageTokenByPurl := tokens } }
  let incomplete := state.value.incompletePaginationPurls ∪
    (state.value.nextPageTokenByPurl.toList.map Prod.fst).toFinset
  let result : Result PaginationState :=
    { state with
      value := { state.value with incompletePaginationPurls := incomplete } }
  result.warnIf (incomplete.card ≠ 0) .vulnCoverageIncomplete
    ("OSV pagination did not complete within " ++
      toString maxOsvPaginationRounds ++ " round(s) for " ++
      toString incomplete.card ++ " purl(s), advisory lists may be incomplete")

/-- The merged payload of a first page and its follow-up advisories. -/
def mergedDocument (firstPage : Json) (extra : List Json)
    (incomplete : Bool) : Json :=
  let merged := firstPage.set "vulns" (.array (pageVulns firstPage ++ extra))
  if incomplete then merged else merged.erase "next_page_token"

def mergePages (now : Int) (incomplete : Finset String)
    (state : VulnCache × OrderedMap String JsonText)
    (accumulated : String × List Json) :
    VulnCache × OrderedMap String JsonText :=
  let (purl, extra) := accumulated
  match state.2[purl]? with
  | none => state
  | some payload =>
    match parseBoundedJson payload with
    | none => state
    | some firstPage =>
      if !firstPage.isObject then state
      else
        let merged :=
          (mergedDocument firstPage extra (purl ∈ incomplete)).dump
        (state.1.store purl now merged, state.2.insert purl merged)

/-- What the examination of the purls starts from. -/
structure Answers where
  cache : VulnCache
  payloadByPurl : OrderedMap String JsonText
  staleAnswerPurls : Finset String

section Answer

variable (options : MatchOptions) (now : Int) (cache : VulnCache)
  (purls : List String)

/-- The `--offline` branch. -/
def offlineAnswers : Result Answers :=
  let use := (purlsToFetch options now cache purls).foldl
    (answerFromStale (stalePayloads options now cache purls))
    { payloadByPurl := freshPayloads options now cache purls }
  let result : Result Answers :=
    { value :=
        { cache := cache, payloadByPurl := use.payloadByPurl,
          staleAnswerPurls := use.staleAnswerPurls } }
  (result.warnIf (use.staleUsedCount > 0) .vulnCoverageIncomplete
      ("--offline: " ++ toString use.staleUsedCount ++
        " purl(s) answered from cache entries older than the refresh horizon")
    ).warnIf (use.missingCount > 0) .vulnCoverageIncomplete
      ("--offline: no cached OSV data for " ++ toString use.missingCount ++
        " purl(s), vulnerability coverage incomplete")

variable (transport : Transport)

def fetched : Result FetchState :=
  fetchBatches transport options now (purlsToFetch options now cache purls)
    { value :=
        { cache := cache
          payloadByPurl := freshPayloads options now cache purls } }

/-- The state behind the fall-back loop of the online branch. -/
def staleUse : StaleUse :=
  let fetched := (fetched options now cache purls transport).value
  (purlsToFetch options now cache purls).foldl
    (fallBack (stalePayloads options now cache purls))
    { payloadByPurl := fetched.payloadByPurl }

/-- The pagination of the freshly fetched purls. -/
def paginated : Result PaginationState :=
  paginate transport
    (firstPageTokens
      (fetched options now cache purls transport).value.freshlyFetchedPurls
      (staleUse options now cache purls transport).payloadByPurl)

def onlineAnswers : Result Answers :=
  let fetched := fetched options now cache purls transport
  let use := staleUse options now cache purls transport
  let paginated := paginated options now cache purls transport
  let merged := paginated.value.extraVulnsByPurl.toList.foldl
    (mergePages now paginated.value.incompletePaginationPurls)
    (fetched.value.cache, use.payloadByPurl)
  let result : Result Answers :=
    { value :=
        { cache := merged.1, payloadByPurl := merged.2,
          staleAnswerPurls := use.staleAnswerPurls }
      warnings := fetched.warnings }
  ((result.warnIf (use.staleUsedCount > 0) .vulnCoverageIncomplete
      (toString use.staleUsedCount ++
        " purl(s) answered from stale cache after a failed OSV fetch")).warnIf
    (use.missingCount > 0) .vulnCoverageIncomplete
      ("OSV coverage incomplete: " ++ toString use.missingCount ++
        " purl(s) unresolved this run")).absorb paginated.warnings

def answers : Result Answers :=
  if options.offline then offlineAnswers options now cache purls
  else onlineAnswers options now cache purls transport

end Answer

/-! ## Examination of the answers -/

section Hydration

-- `score_cvss_vector`: the base-score formula of `core/cvss.cpp`.
variable (scoreCvssVector : String → CvssScore)

def tryCachedHydrationAnswer (queryPurl : String) (cache : VulnCache)
    (options : MatchOptions) (now : Int) (detectionConfirmedUnchanged : Bool) :
    Option (OrderedMap String AdvisoryRecord) :=
  match cache.lookup (queryPurl ++ fullPayloadKeySuffix) with
  | some cached =>
    if detectionConfirmedUnchanged ∧
        now - confirmedUnchangedMaxAge ≤ cached.fetchedAtEpochSeconds then
      some (extractFullRecords scoreCvssVector cached.payload)
    else if isFresh options now cached ∨ options.offline then
      some (extractFullRecords scoreCvssVector cached.payload)
    else none
  | none => if options.offline then some ∅ else none

def finishHydrationFetch (queryPurl : String) (cache : VulnCache) (now : Int)
    (response : Result HttpResponse) :
    Result (VulnCache × OrderedMap String AdvisoryRecord) :=
  let cacheKey := queryPurl ++ fullPayloadKeySuffix
  let cachedRecords :=
    ((cache.lookup cacheKey).map fun cached =>
      extractFullRecords scoreCvssVector cached.payload).getD ∅
  let result : Result (VulnCache × OrderedMap String AdvisoryRecord) :=
    { value := (cache, cachedRecords), warnings := response.warnings }
  if response.value.statusCode = 200 then
    match (parseBoundedJson response.value.body).filter Json.isObject with
    | some parsed =>
      { result with
        value :=
          (cache.store cacheKey now parsed.dump,
            extractFullRecords scoreCvssVector parsed.dump) }
    | none =>
      result.warn .vulnResponseMalformed
        ("OSV severity payload for " ++ queryPurl ++
          " is malformed, severity omitted")
  else
    result.warnIf (response.value.statusCode ≠ 0) .vulnHttpUnexpectedStatus
      ("OSV query (severity) returned HTTP " ++
        toString response.value.statusCode ++ " for " ++ queryPurl)

structure PurlWork where
  purl : String
  advisoryRevisions : List AdvisoryRevision
  cachedHydrationAnswer : Option (OrderedMap String AdvisoryRecord)

/-- What the loop over `payload_by_purl` accumulates. -/
structure Examination where
  cache : VulnCache
  deltas : OsvDeltaReport := {}
  purlWork : List PurlWork := []
  paginationWarned : Bool := false

/-- The delta of one well-formed answer; a truncated one removes nothing. -/
def answerDelta (purl : String) (previous : List AdvisoryRevision)
    (extracted : ExtractedPayload) : PurlAdvisoryDelta :=
  let delta := diffAdvisoryRevisions purl previous
    (sortAndDeduplicateRevisions extracted.advisoryRevisions)
  if extracted.truncated then { delta with removedAdvisoryIds := [] }
  else delta

/-- `deltas` after one more examined purl. -/
def OsvDeltaReport.push (deltas : OsvDeltaReport) (delta : PurlAdvisoryDelta) :
    OsvDeltaReport where
  changedPurls :=
    if delta.isUnchanged then deltas.changedPurls
    else deltas.changedPurls ++ [delta]
  purlsExamined := deltas.purlsExamined + 1
  purlsUnchanged :=
    deltas.purlsUnchanged + if delta.isUnchanged then 1 else 0

variable (options : MatchOptions) (now : Int)

/-- One turn of the loop over `payload_by_purl`. -/
def examinePurl (staleAnswerPurls : Finset String)
    (state : Result Examination) (answer : String × JsonText) :
    Result Examination :=
  let (purl, payload) := answer
  let extracted := extractAdvisoryRevisions payload
  if extracted.malformed then
    state.warn .vulnResponseMalformed
      ("OSV data for " ++ purl ++ " is malformed, ignored")
  else
    let revisions := sortAndDeduplicateRevisions extracted.advisoryRevisions
    let delta := answerDelta purl
      (state.value.cache.lookupAdvisorySnapshot purl) extracted
    let cache := state.value.cache.storeAdvisorySnapshot purl revisions
      delta.removedAdvisoryIds now
    let work : PurlWork :=
      { purl := purl
        advisoryRevisions := revisions
        cachedHydrationAnswer :=
          tryCachedHydrationAnswer scoreCvssVector purl cache options now
            (delta.isUnchanged && !(decide (purl ∈ staleAnswerPurls)) &&
              !extracted.truncated) }
    let warned := state.warnIf
      (extracted.truncated && !state.value.paginationWarned)
      .vulnCoverageIncomplete
      ("OSV paginated at least one purl's advisory list and it is not fully " ++
        "resolved, ids may be incomplete")
    { warned with
      value :=
        { cache := cache
          deltas := state.value.deltas.push delta
          purlWork :=
            if revisions.isEmpty then state.value.purlWork
            else state.value.purlWork ++ [work]
          paginationWarned :=
            state.value.paginationWarned || extracted.truncated } }

/-- The loop over `payload_by_purl`. -/
def examine (answers : Answers) : Result Examination :=
  answers.payloadByPurl.toList.foldl
    (examinePurl scoreCvssVector options now answers.staleAnswerPurls)
    { value := { cache := answers.cache } }

/-- What the last loop accumulates. -/
structure Assembly where
  cache : VulnCache
  hits : List VulnerabilityHit := []
  fetchSlot : Nat := 0

/-- The order `std::sort` gives the advisories of a hit. -/
def AdvisoryLe (left right : ScoredAdvisory) : Prop :=
  moreSevere right left = false

instance : DecidableRel AdvisoryLe := fun left right =>
  inferInstanceAs (Decidable (moreSevere right left = false))

/-- The advisory of one revision, with its record when there is one. -/
def scoredAdvisory (recordById : OrderedMap String AdvisoryRecord)
    (revision : AdvisoryRevision) : ScoredAdvisory :=
  match recordById[revision.advisoryId]? with
  | some record =>
    { id := revision.advisoryId, severity := record.severity,
      cveAliases := record.cveAliases }
  | none => { id := revision.advisoryId }

def assembleHit (work : PurlWork)
    (recordById : OrderedMap String AdvisoryRecord) : VulnerabilityHit where
  purl := work.purl
  advisories :=
    (work.advisoryRevisions.map (scoredAdvisory recordById)).insertionSort
      AdvisoryLe

/-- One turn of the last loop; the fetch of the purl's slot, made by the loop
before it, is asked for here. -/
def assemble (transport : Transport) (state : Result Assembly)
    (work : PurlWork) : Result Assembly :=
  match work.cachedHydrationAnswer with
  | some recordById =>
    { state with
      value :=
        { state.value with
          hits := state.value.hits ++ [assembleHit work recordById] } }
  | none =>
    let response := transport.hydration state.value.fetchSlot
      { url := osvQueryUrl, body := buildQueryObject work.purl }
    let finished := finishHydrationFetch scoreCvssVector work.purl
      state.value.cache now response
    { value :=
        { cache := finished.value.1
          hits := state.value.hits ++ [assembleHit work finished.value.2]
          fetchSlot := state.value.fetchSlot + 1 }
      warnings := state.warnings ++ finished.warnings
      complete := state.complete }

/-- What a run returns, and the cache it leaves. -/
structure MatchRun where
  result : Result MatchOutcome
  cache : VulnCache

/-- `match_components`; `cacheOpen` is what `VulnCache::open` returned. -/
def matchComponents (components : List Component) (transport : Transport)
    (cacheOpen : Result VulnCache) : MatchRun :=
  let outcome : MatchOutcome :=
    { componentsWithoutOsvCoverage :=
        components.countP fun component =>
          classifyMatchCoverage component.purl = .unmappedPurlType }
  let purls := (queryPurls components).toList
  if purls.isEmpty then
    { result := { value := outcome }, cache := cacheOpen.value }
  else
    let answered := answers options now cacheOpen.value purls transport
    let examined := examine scoreCvssVector options now answered.value
    let assembled := examined.value.purlWork.foldl
      (assemble scoreCvssVector now transport)
      { value := { cache := examined.value.cache } }
    { result :=
        { value :=
            { outcome with
              hits := assembled.value.hits, deltas := examined.value.deltas }
          warnings :=
            cacheOpen.warnings ++ answered.warnings ++ examined.warnings ++
              assembled.warnings }
      cache := assembled.value.cache }

end Hydration
end Bomwerk.Vuln
