import Bomwerk.Vuln.Endpoints
import Bomwerk.Vuln.Osv.Match
import Mathlib.Data.String.Basic

/-!
# Matching components against NVD

`match_via_cpe` of `vuln/nvd.cpp`: the CPE fallback for components whose purl
type OSV does not know, one definition for each of its loops.

Requests are made one after another, so the transport answers them by their
place in the run.  Statements on an open cache succeed, as in
`Vuln/Cache.lean`; the pauses between requests are left out.
-/

namespace Bomwerk.Vuln.Nvd

open Bomwerk.Core Bomwerk.Support

section Payload

-- `score_cvss_vector`: the base-score formula of `core/cvss.cpp`.
variable (scoreCvssVector : String → CvssScore)

/-- The loop of `best_severity`. -/
def bestSeverityFrom (best : CvssScore) : List Json → CvssScore
  | [] => best
  | metric :: metrics =>
    match (metric.find? "cvssData").bind (·.findString? "vectorString") with
    | none => bestSeverityFrom best metrics
    | some vector =>
      let candidate := scoreCvssVector vector
      if !candidate.hasScore then bestSeverityFrom best metrics
      -- NIST's own scoring settles it.
      else if metric.findString? "type" = some "Primary" then candidate
      else bestSeverityFrom (betterScore best candidate) metrics

def bestSeverity (metricsObject : Json) : CvssScore :=
  bestSeverityFrom scoreCvssVector {}
    ((metricsObject.findArray? "cvssMetricV31").getD [])

structure ExtractedPayload where
  advisories : List ScoredAdvisory := []
  truncated : Bool := false
  malformed : Bool := false

/-- One turn of the loop of `extract_advisories`; nothing for an entry the loop
skips. -/
def scoredAdvisory? (entry : Json) : Option ScoredAdvisory :=
  (entry.find? "cve").bind fun cve =>
    (cve.findString? "id").map fun id =>
      { id := id
        severity :=
          ((cve.find? "metrics").map (bestSeverity scoreCvssVector)).getD {} }

/-- `is_number_unsigned`: the parser reads an integer that does not fit into 64
bits as a floating-point number. -/
def unsignedNumber? : Json → Option Nat
  | .integer value =>
    if 0 ≤ value ∧ value < 2 ^ 64 then some value.toNat else none
  | _ => none

def extractAdvisories (payload : JsonText) : ExtractedPayload :=
  match (parseBoundedJson payload).filter Json.isObject with
  | none => { malformed := true }
  | some document =>
    match document.findArray? "vulnerabilities" with
    | none => { malformed := true }
    | some vulnerabilities =>
      let advisories :=
        vulnerabilities.filterMap (scoredAdvisory? scoreCvssVector)
      let total := (document.find? "totalResults").bind unsignedNumber?
      { advisories := advisories
        truncated := total.any (advisories.length < ·) }

end Payload

def finalizeAdvisories (advisories : List ScoredAdvisory) :
    List ScoredAdvisory :=
  sortUnique AdvisoryLe ScoredAdvisory.id advisories

/-! ## The run -/

/-- `NvdOptions`; ages are in seconds. -/
structure NvdOptions where
  offline : Bool := false
  cacheMaxAge : Int := 24 * 60 * 60
  apiKey : String := ""

def nvdCacheKeySuffix : String := "\x1fnvd"

def cacheKey (cpeMatchString : String) : String :=
  cpeMatchString ++ nvdCacheKeySuffix

structure HttpGetRequest where
  url : String
  headers : List String := []

/-- `http_get`, by the place of the request in the run. -/
abbrev Transport := Nat → HttpGetRequest → Result HttpResponse

/-- `MatchOutcome`, as this pass fills it; every hit has the provenance
`CpeFallback`. -/
structure MatchOutcome where
  hits : List VulnerabilityHit := []
  cpeCheckedPurls : List String := []

/-- What the loop over the components accumulates. -/
structure Queries where
  purlsByCpe : OrderedMap String (OrderedSet String) := ∅
  unconvertibleComponentCount : Nat := 0

/-- One turn of the loop over the components. -/
def addQuery (queries : Queries) (component : Component) : Queries :=
  if classifyMatchCoverage component.purl ≠ .unmappedPurlType then queries
  else
    match cpeMatchStringFor component.purl with
    | none =>
      { queries with
        unconvertibleComponentCount :=
          queries.unconvertibleComponentCount + 1 }
    | some cpe =>
      { queries with
        purlsByCpe := updateAt queries.purlsByCpe cpe fun purls =>
          (purls.getD ∅).insert component.purl }

def queriesOf (components : List Component) : Queries :=
  components.foldl addQuery {}

/-- What the loop over the CPEs accumulates. -/
structure LoopState where
  cache : VulnCache
  payloadByCpe : OrderedMap String JsonText := ∅
  staleFallbackCount : Nat := 0
  unresolvedCount : Nat := 0
  requestCount : Nat := 0

/-- An entry that is not older than the refresh horizon. -/
def isFresh (options : NvdOptions) (now : Int) (entry : VulnCacheEntry) :
    Bool :=
  now - options.cacheMaxAge ≤ entry.fetchedAtEpochSeconds

/-- The answer of a CPE that could not be asked for: what the cache holds. -/
def LoopState.fallBack (state : LoopState) (cpe : String)
    (cachedEntry : Option VulnCacheEntry) : LoopState :=
  match cachedEntry with
  | some entry =>
    { state with
      payloadByCpe := state.payloadByCpe.insert cpe entry.payload
      staleFallbackCount := state.staleFallbackCount + 1 }
  | none => { state with unresolvedCount := state.unresolvedCount + 1 }

/-- The document of an answer that is stored. -/
def usableDocument (response : HttpResponse) : Option Json :=
  if response.statusCode = 200 then
    (parseBoundedJson response.body).filter Json.isObject
  else none

section Run

variable (scoreCvssVector : String → CvssScore) (options : NvdOptions)
  (now : Int) (httpGet : Transport)

def requestHeaders : List String :=
  if options.apiKey = "" then [] else ["apiKey: " ++ options.apiKey]

def responseFor (requestCount : Nat) (cpe : String) : Result HttpResponse :=
  httpGet requestCount
    { url := nvdRequestUrl cpe, headers := requestHeaders options }

/-- The turn of the loop for a CPE that is asked for. -/
def fetchCpe (state : Result LoopState) (cpe : String)
    (cachedEntry : Option VulnCacheEntry) : Result LoopState :=
  let response := responseFor options httpGet state.value.requestCount cpe
  let status := response.value.statusCode
  let requested :=
    { state.value with requestCount := state.value.requestCount + 1 }
  let state := state.absorb response.warnings
  match usableDocument response.value with
  | some document =>
    { state with
      value :=
        { requested with
          cache := requested.cache.store (cacheKey cpe) now document.dump
          payloadByCpe :=
            requested.payloadByCpe.insert cpe document.dump } }
  | none =>
    ({ state with
        value := requested.fallBack cpe cachedEntry } : Result LoopState)
      |>.warnIf (status = 200) .vulnResponseMalformed
        ("NVD response for " ++ cpe ++ " is malformed, ignored")
      |>.warnIf (status ≠ 200 ∧ status ≠ 0) .vulnHttpUnexpectedStatus
        ("NVD query returned HTTP " ++ toString status ++ " for " ++ cpe)

def answerCpe (state : Result LoopState) (cpe : String) : Result LoopState :=
  let cachedEntry := state.value.cache.lookup (cacheKey cpe)
  match cachedEntry.filter (isFresh options now) with
  | some entry =>
    { state with
      value :=
        { state.value with
          payloadByCpe :=
            state.value.payloadByCpe.insert cpe entry.payload } }
  | none =>
    if options.offline then
      { state with value := state.value.fallBack cpe cachedEntry }
    else fetchCpe options now httpGet state cpe cachedEntry

def answerCpes (cache : VulnCache) (cpes : List String) : Result LoopState :=
  cpes.foldl (answerCpe options now httpGet) { value := { cache := cache } }

/-- What the last loop accumulates. -/
structure Assembly where
  outcome : MatchOutcome := {}
  truncationWarned : Bool := false

def truncationWarning : String :=
  "NVD returned more advisories than one page holds for at least one " ++
    "component. The advisory list may be incomplete"

def assembleCpe (payloadByCpe : OrderedMap String JsonText)
    (state : Result Assembly) (query : String × OrderedSet String) :
    Result Assembly :=
  let (cpe, purls) := query
  match payloadByCpe[cpe]? with
  | none => state
  | some payload =>
    let extracted := extractAdvisories scoreCvssVector payload
    if extracted.malformed then
      state.warn .vulnResponseMalformed
        ("NVD data for " ++ cpe ++ " is malformed, ignored")
    else
      let assembly := state.value
      let state := state.warnIf
        (extracted.truncated && !assembly.truncationWarned)
        .vulnCoverageIncomplete truncationWarning
      { state with
        value :=
          { outcome :=
              { hits :=
                  if extracted.advisories.isEmpty then assembly.outcome.hits
                  else assembly.outcome.hits ++ purls.toList.map fun purl =>
                    { purl := purl
                      advisories :=
                        finalizeAdvisories extracted.advisories }
                cpeCheckedPurls :=
                  assembly.outcome.cpeCheckedPurls ++ purls.toList }
            truncationWarned :=
              assembly.truncationWarned || extracted.truncated } }

def assemble (payloadByCpe : OrderedMap String JsonText)
    (queries : List (String × OrderedSet String)) : Result Assembly :=
  queries.foldl (assembleCpe scoreCvssVector payloadByCpe) { value := {} }

def MatchOutcome.sorted (outcome : MatchOutcome) : MatchOutcome where
  hits := outcome.hits.insertionSort fun left right => left.purl ≤ right.purl
  cpeCheckedPurls := outcome.cpeCheckedPurls.insertionSort (· ≤ ·)

/-- What a run returns, and the cache it leaves. -/
structure MatchRun where
  result : Result MatchOutcome
  cache : VulnCache

/-- `match_via_cpe`; `cacheOpen` is what `VulnCache::open` returned. -/
def matchViaCpe (components : List Component) (cacheOpen : Result VulnCache) :
    MatchRun :=
  let queries := queriesOf components
  let start : Result MatchOutcome := { value := {} }
  let result := start.warnIf (0 < queries.unconvertibleComponentCount)
    .vulnCoverageIncomplete
    ("CPE fallback: " ++ toString queries.unconvertibleComponentCount ++
      " component(s) have a name or version that cannot form a safe CPE, " ++
      "not checked")
  if queries.purlsByCpe.isEmpty then
    { result := result, cache := cacheOpen.value }
  else
    let answered := answerCpes options now httpGet cacheOpen.value
      (queries.purlsByCpe.toList.map Prod.fst)
    let result := (result.absorb cacheOpen.warnings).absorb answered.warnings
    let result := result.warnIf (0 < answered.value.staleFallbackCount)
      .vulnCoverageIncomplete
      ("CPE fallback: " ++ toString answered.value.staleFallbackCount ++
        " CPE(s) answered from cache entries older than the refresh horizon")
    let result := result.warnIf (0 < answered.value.unresolvedCount)
      .vulnCoverageIncomplete
      ("CPE fallback: no NVD data for " ++
        toString answered.value.unresolvedCount ++
        " CPE(s), those components remain unchecked")
    let assembled := assemble scoreCvssVector answered.value.payloadByCpe
      queries.purlsByCpe.toList
    { result :=
        { result.absorb assembled.warnings with
          value := assembled.value.outcome.sorted }
      cache := answered.value.cache }

end Run
end Bomwerk.Vuln.Nvd
