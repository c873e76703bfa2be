import Bomwerk.Vuln.License.Extract
import Bomwerk.Vuln.License.Retry

/-!
# Enriching components with registry licenses

`enrich_component_licenses` of `vuln/license_enrichment.cpp`, one definition for
each of its loops.

The lookups of crates.io run beside those of the other registries, and nothing
of one lookup is read by another, so the transport answers the requests of a
component by its place in the list.  The clock is read before each of them.
Statements on an open cache succeed, as in `Vuln/Cache.lean`; pacing, sleeping
and progress lines are left out.
-/

namespace Bomwerk.Vuln.License

open Bomwerk.Core Bomwerk.Support

def licenseCacheKeySuffix : String := "\x1fregistry-license"

/-- `LicenseEnrichmentOptions`; times are in seconds. -/
structure LicenseEnrichmentOptions where
  offline : Bool := false
  cacheMaxAge : Int := 24 * 60 * 60 * 60
  timeBudget : Option Int := none

structure LicenseEnrichmentSummary where
  candidateComponents : Nat := 0
  enrichedComponents : Nat := 0
  freshCacheAnswers : Nat := 0
  fetchedAnswers : Nat := 0
  staleCacheAnswers : Nat := 0
  skippedComponents : Nat := 0
  unresolvedComponents : Nat := 0
  rateLimitedComponents : Nat := 0
  neverFetchedLookups : Nat := 0
  expiredCacheLookups : Nat := 0
  timedOutComponents : Nat := 0
  deriving DecidableEq, Repr

structure Lookup where
  componentIndex : Nat
  registry : RegistryKind
  url : String
  cacheKey : String
  staleEntry : Option VulnCacheEntry := none
  payload : JsonText := none
  resolved : Bool := false

def Lookup.answer (lookup : Lookup) (payload : JsonText) : Lookup :=
  { lookup with payload := payload, resolved := true }

/-- The registry of a component without a license, if it has one. -/
def candidateRegistryOf? (component : Component) : Option RegistryKind :=
  if component.license ≠ "" then none
  else registryFor (purlTypeOf (purlIdentityPart component.purl))

/-- The lookup of a candidate; nothing for coordinates that are not safe. -/
def lookup? (registry : RegistryKind) (component : Component) (index : Nat) :
    Option Lookup :=
  let identityPurl := purlIdentityPart component.purl
  let decodedName := decodedPart (purlNameOf identityPurl)
  let name :=
    if registry = .cratesIo then decodedName.map toLowerAsciiChar
    else decodedName
  let version := decodedPart (purlVersionOf identityPurl)
  if !isSafeCoordinate name || !isSafeCoordinate version then none
  else
    some
      { componentIndex := index
        registry := registry
        url := licenseRequestUrl registry name version
        cacheKey := identityPurl ++ licenseCacheKeySuffix }

/-- The counters and the lookups, as the loops hand them on. -/
structure Pass where
  summary : LicenseEnrichmentSummary := {}
  lookups : List Lookup := []

/-- One turn of the loop over the components. -/
def addComponent (pass : Pass) (entry : Component × Nat) : Pass :=
  match candidateRegistryOf? entry.1 with
  | none => pass
  | some registry =>
    let summary :=
      { pass.summary with
        candidateComponents := pass.summary.candidateComponents + 1 }
    match lookup? registry entry.1 entry.2 with
    | none =>
      { pass with
        summary :=
          { summary with
            skippedComponents := summary.skippedComponents + 1 } }
    | some lookup =>
      { summary := summary, lookups := pass.lookups ++ [lookup] }

def lookupsOf (components : List Component) : Pass :=
  components.zipIdx.foldl addComponent {}

/-- An entry that is not older than the refresh horizon. -/
def isFresh (options : LicenseEnrichmentOptions) (now : Int)
    (entry : VulnCacheEntry) : Bool :=
  now - options.cacheMaxAge ≤ entry.fetchedAtEpochSeconds

/-- One turn of the loop that asks the cache. -/
def answerFromCache (options : LicenseEnrichmentOptions) (now : Int)
    (cache : VulnCache) (pass : Pass) (lookup : Lookup) : Pass :=
  let summary := pass.summary
  let cachedEntry := cache.lookup lookup.cacheKey
  match cachedEntry.filter (isFresh options now) with
  | some entry =>
    { summary :=
        { summary with freshCacheAnswers := summary.freshCacheAnswers + 1 }
      lookups := pass.lookups ++ [lookup.answer entry.payload] }
  | none =>
    { summary :=
        if cachedEntry.isSome then
          { summary with
            expiredCacheLookups := summary.expiredCacheLookups + 1 }
        else
          { summary with
            neverFetchedLookups := summary.neverFetchedLookups + 1 }
      lookups := pass.lookups ++ [{ lookup with staleEntry := cachedEntry }] }

/-! ## The registries -/

/-- What the loop over the responses accumulates. -/
structure FetchPass extends Pass where
  cache : VulnCache
  unusablePayloadCount : Nat := 0

def FetchPass.keep (pass : FetchPass) (lookup : Lookup) : FetchPass :=
  { pass with lookups := pass.lookups ++ [lookup] }

/-- A lookup answered by the old entry of the cache. -/
def FetchPass.fallBack (pass : FetchPass) (lookup : Lookup)
    (entry : VulnCacheEntry) : FetchPass :=
  { pass with
    summary :=
      { pass.summary with
        staleCacheAnswers := pass.summary.staleCacheAnswers + 1 }
    lookups := pass.lookups ++ [lookup.answer entry.payload] }

def settleOffline (pass : FetchPass) (lookup : Lookup) : FetchPass :=
  if lookup.resolved then pass.keep lookup
  else
    match lookup.staleEntry with
    | some entry => pass.fallBack lookup entry
    | none =>
      { pass with
        summary :=
          { pass.summary with
            unresolvedComponents := pass.summary.unresolvedComponents + 1 }
        lookups := pass.lookups ++ [lookup] }

section Run

variable (options : LicenseEnrichmentOptions) (now : Int)
  (clockAt : Nat → Int) (httpGet : Nat → RegistryGet)

/-- `deadline_epoch_seconds`. -/
def deadline : Int :=
  match options.timeBudget with
  | some budget => now + budget
  | none => 2 ^ 63 - 1

/-- `timed_out_positions`: no request is made for the lookup. -/
def isTimedOut (lookup : Lookup) : Bool :=
  deadline options now ≤ clockAt lookup.componentIndex

/-- `responses`: a lookup without a request has the empty response. -/
def responseFor (lookup : Lookup) : Result RegistryResponse :=
  if isTimedOut options now clockAt lookup then { value := {} }
  else
    (getWithRateLimitRetry (httpGet lookup.componentIndex)
      lookup.url).response

/-- The license of a response that is stored. -/
def fetchedLicense? (lookup : Lookup) : Option String :=
  let response := (responseFor options now clockAt httpGet lookup).value
  if response.statusCode = 200 then
    let extracted := extractLicense lookup.registry response.body
    if extracted.usableShape then some extracted.text else none
  else none

/-- One turn of the loop over the responses. -/
def settleOnline (state : Result FetchPass) (lookup : Lookup) :
    Result FetchPass :=
  if lookup.resolved then { state with value := state.value.keep lookup }
  else
    let response := responseFor options now clockAt httpGet lookup
    let status := response.value.statusCode
    let pass := state.value
    let state := state.absorb response.warnings
    match fetchedLicense? options now clockAt httpGet lookup with
    | some license =>
      let payload := cachePayloadFor license
      { state with
        value :=
          { pass with
            summary :=
              { pass.summary with
                fetchedAnswers := pass.summary.fetchedAnswers + 1 }
            lookups := pass.lookups ++ [lookup.answer payload]
            cache := pass.cache.store lookup.cacheKey now payload } }
    | none =>
      let pass :=
        { pass with
          unusablePayloadCount :=
            pass.unusablePayloadCount + if status = 200 then 1 else 0 }
      match lookup.staleEntry with
      | some entry => { state with value := pass.fallBack lookup entry }
      | none =>
        let summary := pass.summary
        let timedOut :=
          if isTimedOut options now clockAt lookup then 1 else 0
        { state with
          value :=
            { pass with
              summary :=
                if status = 429 then
                  { summary with
                    rateLimitedComponents :=
                      summary.rateLimitedComponents + 1 }
                else
                  { summary with
                    unresolvedComponents :=
                      summary.unresolvedComponents + 1
                    timedOutComponents :=
                      summary.timedOutComponents + timedOut }
              lookups := pass.lookups ++ [lookup] } }

/-- The loop over the lookups that the cache did not answer. -/
def settle (pass : Pass) (cache : VulnCache) : Result FetchPass :=
  let start : FetchPass :=
    { summary := pass.summary, cache := cache }
  if options.offline then
    { value := pass.lookups.foldl settleOffline start }
  else
    pass.lookups.foldl (settleOnline options now clockAt httpGet)
      { value := start }

/-- What the last loop accumulates. -/
structure Reading where
  summary : LicenseEnrichmentSummary
  components : List Component
  unusableCacheCount : Nat := 0

def readLookup (reading : Reading) (lookup : Lookup) : Reading :=
  if !lookup.resolved then reading
  else
    let summary := reading.summary
    let extracted := extractCachedLicense lookup.payload
    if !extracted.usableShape then
      { reading with
        summary :=
          { summary with
            unresolvedComponents := summary.unresolvedComponents + 1 }
        unusableCacheCount := reading.unusableCacheCount + 1 }
    else if extracted.text ≠ "" then
      { reading with
        summary :=
          { summary with enrichedComponents := summary.enrichedComponents + 1 }
        components := reading.components.modify lookup.componentIndex
          fun component => { component with license := extracted.text } }
    else reading

/-- What a run returns, with the components and the cache it leaves. -/
structure LicenseRun where
  result : Result LicenseEnrichmentSummary
  components : List Component
  cache : VulnCache

def summaryWarnings (result : Result LicenseEnrichmentSummary)
    (unusablePayloadCount unusableCacheCount : Nat) :
    Result LicenseEnrichmentSummary :=
  let summary := result.value
  result
    |>.warnIf (0 < summary.staleCacheAnswers) .vulnCoverageIncomplete
      ("license fallback: " ++ toString summary.staleCacheAnswers ++
        " component(s) answered from stale cache entries")
    |>.warnIf (0 < summary.unresolvedComponents) .vulnCoverageIncomplete
      ("license fallback: no registry data for " ++
        toString summary.unresolvedComponents ++ " component(s)")
    |>.warnIf (0 < summary.rateLimitedComponents) .vulnCoverageIncomplete
      ("license fallback: rate-limited by the registry, " ++
        toString summary.rateLimitedComponents ++
        " component(s) left unenriched: rerun to complete")
    |>.warnIf (0 < summary.timedOutComponents) .licenseFallbackIncomplete
      ("license fallback: time budget of " ++
        toString (options.timeBudget.getD 0) ++ "s reached, " ++
        toString summary.timedOutComponents ++
        " component(s) left unenriched: the SBOM is complete, only " ++
        "enrichment was cut short, rerun without " ++
        "--license-fallback-timeout to finish")
    |>.warnIf (0 < unusablePayloadCount) .licenseFallbackIncomplete
      ("license fallback: " ++ toString unusablePayloadCount ++
        " registry response(s) had malformed or oversized license metadata")
    |>.warnIf (0 < unusableCacheCount) .licenseFallbackIncomplete
      ("license fallback: " ++ toString unusableCacheCount ++
        " cached response(s) had malformed license metadata")

/-- `enrich_component_licenses`; `cacheOpen` is what `VulnCache::open`
returned. -/
def enrichComponentLicenses (components : List Component)
    (cacheOpen : Result VulnCache) : LicenseRun :=
  let planned := lookupsOf components
  let start : Result LicenseEnrichmentSummary := { value := planned.summary }
  let result := start.warnIf (0 < planned.summary.skippedComponents)
    .licenseFallbackIncomplete
    ("license fallback: " ++ toString planned.summary.skippedComponents ++
      " component(s) have a missing or unsafe registry name/version, skipped")
  if planned.lookups.isEmpty then
    { result := result, components := components, cache := cacheOpen.value }
  else
    let asked := planned.lookups.foldl
      (answerFromCache options now cacheOpen.value)
      { summary := planned.summary }
    let settled := settle options now clockAt httpGet asked cacheOpen.value
    let reading := settled.value.lookups.foldl readLookup
      { summary := settled.value.summary, components := components }
    let result := (result.absorb cacheOpen.warnings).absorb settled.warnings
    { result := summaryWarnings options
        { result with value := reading.summary }
        settled.value.unusablePayloadCount reading.unusableCacheCount
      components := reading.components
      cache := settled.value.cache }

end Run

end Bomwerk.Vuln.License
