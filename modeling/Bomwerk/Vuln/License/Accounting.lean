import Bomwerk.Support.Tally
import Bomwerk.Vuln.License.Enrichment
import Mathlib.Data.Fintype.Basic

/-!
# Every candidate is counted

The counters of `enrich_component_licenses` against the candidates.  Each loop
is described by the counters that an element bumps; a candidate bumps one while
the cache and the registries are asked, and `unresolved_components` once more
when the payload that answered it cannot be read.
-/

namespace Bomwerk.Vuln.License

open Bomwerk.Core Bomwerk.Support

/-- The counters that tell what became of a candidate. -/
inductive Counter
  | skipped
  | freshCache
  | fetched
  | staleCache
  | rateLimited
  | unresolved
  deriving DecidableEq

instance : Fintype Counter where
  elems := {.skipped, .freshCache, .fetched, .staleCache, .rateLimited,
    .unresolved}
  complete counter := by cases counter <;> decide

def tally (summary : LicenseEnrichmentSummary) : Counter → Nat
  | .skipped => summary.skippedComponents
  | .freshCache => summary.freshCacheAnswers
  | .fetched => summary.fetchedAnswers
  | .staleCache => summary.staleCacheAnswers
  | .rateLimited => summary.rateLimitedComponents
  | .unresolved => summary.unresolvedComponents

theorem sum_tally (summary : LicenseEnrichmentSummary) :
    ∑ counter, tally summary counter =
      summary.skippedComponents + summary.freshCacheAnswers +
        summary.fetchedAnswers + summary.staleCacheAnswers +
        summary.rateLimitedComponents + summary.unresolvedComponents := by
  have huniv : (Finset.univ : Finset Counter) =
      {.skipped, .freshCache, .fetched, .staleCache, .rateLimited,
        .unresolved} := rfl
  rw [huniv]
  simp [tally, Nat.add_assoc]

def isCandidate (entry : Component × Nat) : Bool :=
  (candidateRegistryOf? entry.1).isSome

def candidates (components : List Component) : List (Component × Nat) :=
  components.zipIdx.filter isCandidate

/-- The lookup of one entry of the component list. -/
def plannedLookup? (entry : Component × Nat) : Option Lookup :=
  (candidateRegistryOf? entry.1).bind fun registry =>
    lookup? registry entry.1 entry.2

def planMarks (entry : Component × Nat) : List Counter :=
  if isCandidate entry ∧ plannedLookup? entry = none then
    [.skipped]
  else []

theorem addComponent_lookups (pass : Pass) (entry : Component × Nat) :
    (addComponent pass entry).lookups =
      pass.lookups ++ (plannedLookup? entry).toList := by
  unfold addComponent plannedLookup?
  cases candidateRegistryOf? entry.1 with
  | none => simp
  | some registry => cases h : lookup? registry entry.1 entry.2 <;> simp [h]

theorem addComponent_tally (pass : Pass) (entry : Component × Nat)
    (counter : Counter) :
    tally (addComponent pass entry).summary counter =
      tally pass.summary counter + (planMarks entry).count counter := by
  unfold addComponent planMarks isCandidate plannedLookup?
  cases candidateRegistryOf? entry.1 with
  | none => simp
  | some registry =>
    cases h : lookup? registry entry.1 entry.2 with
    | none => cases counter <;> simp [h, tally]
    | some lookup => cases counter <;> simp [h, tally]

theorem addComponent_candidates (pass : Pass) (entry : Component × Nat) :
    (addComponent pass entry).summary.candidateComponents =
      pass.summary.candidateComponents +
        if isCandidate entry then 1 else 0 := by
  unfold addComponent isCandidate
  cases candidateRegistryOf? entry.1 with
  | none => rfl
  | some registry =>
    cases h : lookup? registry entry.1 entry.2 <;> simp [h]

theorem lookupsOf_lookups (components : List Component) :
    (lookupsOf components).lookups =
      components.zipIdx.flatMap fun entry => (plannedLookup? entry).toList := by
  rw [lookupsOf, collected_foldl Pass.lookups addComponent_lookups]
  rfl

theorem lookupsOf_tally (components : List Component) (counter : Counter) :
    tally (lookupsOf components).summary counter =
      (components.zipIdx.flatMap planMarks).count counter := by
  have hfold := tally_foldl (fun pass : Pass => tally pass.summary)
    addComponent_tally {} components.zipIdx counter
  have hstart : tally ({} : Pass).summary counter = 0 := by
    cases counter <;> rfl
  rw [lookupsOf, hfold, hstart, Nat.zero_add]

theorem lookupsOf_candidates (components : List Component) :
    (lookupsOf components).summary.candidateComponents =
      (candidates components).length := by
  have hfold := counted_foldl
    (fun pass : Pass => pass.summary.candidateComponents)
    addComponent_candidates {} components.zipIdx
  rw [lookupsOf, hfold, candidates]
  exact Nat.zero_add _

/-! ## The loops over the lookups -/

section Run

variable (options : LicenseEnrichmentOptions) (now : Int)
  (clockAt : Nat → Int) (httpGet : Nat → RegistryGet) (cache : VulnCache)

def freshEntryOf? (lookup : Lookup) : Option VulnCacheEntry :=
  (cache.lookup lookup.cacheKey).filter (isFresh options now)

/-- The lookup behind the loop that asks the cache. -/
def asked (lookup : Lookup) : Lookup :=
  match freshEntryOf? options now cache lookup with
  | some entry => lookup.answer entry.payload
  | none => { lookup with staleEntry := cache.lookup lookup.cacheKey }

def cacheMarks (lookup : Lookup) : List Counter :=
  if (freshEntryOf? options now cache lookup).isSome then [.freshCache] else []

/-- The license that a registry gives for the lookup in this run. -/
def newLicense? (lookup : Lookup) : Option String :=
  if options.offline then none
  else fetchedLicense? options now clockAt httpGet lookup

/-- The lookup behind the loop over the responses. -/
def settled (lookup : Lookup) : Lookup :=
  if lookup.resolved then lookup
  else
    match newLicense? options now clockAt httpGet lookup with
    | some license => lookup.answer (cachePayloadFor license)
    | none =>
      (lookup.staleEntry.map fun entry =>
        lookup.answer entry.payload).getD lookup

def settleMarks (lookup : Lookup) : List Counter :=
  if lookup.resolved then []
  else if (newLicense? options now clockAt httpGet lookup).isSome then
    [.fetched]
  else if lookup.staleEntry.isSome then [.staleCache]
  else if !options.offline ∧
      (responseFor options now clockAt httpGet lookup).value.statusCode =
        429 then
    [.rateLimited]
  else [.unresolved]

def readMarks (lookup : Lookup) : List Counter :=
  if lookup.resolved ∧
      (extractCachedLicense lookup.payload).usableShape = false then
    [.unresolved]
  else []

theorem answerFromCache_lookups (pass : Pass) (lookup : Lookup) :
    (answerFromCache options now cache pass lookup).lookups =
      pass.lookups ++ [asked options now cache lookup] := by
  unfold answerFromCache asked freshEntryOf?
  dsimp only
  cases (cache.lookup lookup.cacheKey).filter (isFresh options now) <;> rfl

theorem answerFromCache_tally (pass : Pass) (lookup : Lookup)
    (counter : Counter) :
    tally (answerFromCache options now cache pass lookup).summary counter =
      tally pass.summary counter +
        (cacheMarks options now cache lookup).count counter := by
  unfold answerFromCache cacheMarks freshEntryOf?
  dsimp only
  cases (cache.lookup lookup.cacheKey).filter (isFresh options now) with
  | none =>
    cases (cache.lookup lookup.cacheKey).isSome <;> cases counter <;>
      simp [tally]
  | some entry => cases counter <;> simp [tally]

theorem answerFromCache_candidates (pass : Pass) (lookup : Lookup) :
    (answerFromCache options now cache pass lookup).summary.candidateComponents =
      pass.summary.candidateComponents := by
  unfold answerFromCache
  dsimp only
  split
  · rfl
  · split_ifs <;> rfl

variable {options}

theorem settleOffline_spec (hoffline : options.offline = true)
    (pass : FetchPass) (lookup : Lookup) :
    (settleOffline pass lookup).lookups =
        pass.lookups ++ [settled options now clockAt httpGet lookup] ∧
      (settleOffline pass lookup).summary.candidateComponents =
        pass.summary.candidateComponents ∧
      ∀ counter, tally (settleOffline pass lookup).summary counter =
        tally pass.summary counter +
          (settleMarks options now clockAt httpGet lookup).count counter := by
  unfold settleOffline settled settleMarks newLicense?
  by_cases hresolved : lookup.resolved = true
  · simp only [hresolved, if_true]
    exact ⟨rfl, rfl, fun counter => by simp [FetchPass.keep]⟩
  · simp only [hoffline, hresolved, if_true, if_false, Bool.false_eq_true]
    cases hstale : lookup.staleEntry with
    | none =>
      refine ⟨by simp, by simp, fun counter => ?_⟩
      cases counter <;> simp [tally]
    | some entry =>
      refine ⟨by simp [FetchPass.fallBack], by simp [FetchPass.fallBack],
        fun counter => ?_⟩
      cases counter <;> simp [tally, FetchPass.fallBack]

theorem settleOnline_spec (honline : options.offline = false)
    (state : Result FetchPass) (lookup : Lookup) :
    (settleOnline options now clockAt httpGet state lookup).value.lookups =
        state.value.lookups ++ [settled options now clockAt httpGet lookup] ∧
      (settleOnline options now clockAt httpGet state
          lookup).value.summary.candidateComponents =
        state.value.summary.candidateComponents ∧
      ∀ counter, tally (settleOnline options now clockAt httpGet state
            lookup).value.summary counter =
          tally state.value.summary counter +
            (settleMarks options now clockAt httpGet lookup).count counter := by
  unfold settleOnline settled settleMarks newLicense?
  by_cases hresolved : lookup.resolved = true
  · simp only [hresolved, if_true]
    exact ⟨rfl, rfl, fun counter => by simp [FetchPass.keep]⟩
  · simp only [honline, hresolved, if_false, Bool.false_eq_true]
    cases hfetched : fetchedLicense? options now clockAt httpGet lookup with
    | some license =>
      refine ⟨by simp, by simp, fun counter => ?_⟩
      cases counter <;> simp [tally]
    | none =>
      cases hstale : lookup.staleEntry with
      | some entry =>
        refine ⟨by simp [FetchPass.fallBack],
          by simp [FetchPass.fallBack], fun counter => ?_⟩
        cases counter <;> simp [tally, FetchPass.fallBack]
      | none =>
        by_cases hlimited : (responseFor options now clockAt httpGet
            lookup).value.statusCode = 429
        · refine ⟨by simp, by simp [hlimited], fun counter => ?_⟩
          cases counter <;> simp [tally, hlimited]
        · refine ⟨by simp, by simp [hlimited], fun counter => ?_⟩
          cases counter <;> simp [tally, hlimited]

variable (options)

theorem settle_spec (pass : Pass) (cache : VulnCache) :
    (settle options now clockAt httpGet pass cache).value.lookups =
        pass.lookups.map (settled options now clockAt httpGet) ∧
      (settle options now clockAt httpGet pass
          cache).value.summary.candidateComponents =
        pass.summary.candidateComponents ∧
      ∀ counter, tally (settle options now clockAt httpGet pass
            cache).value.summary counter =
          tally pass.summary counter + (pass.lookups.flatMap
            (settleMarks options now clockAt httpGet)).count counter := by
  unfold settle
  by_cases hoffline : options.offline = true
  · have hstep := settleOffline_spec now clockAt httpGet hoffline
    rw [if_pos hoffline]
    refine ⟨?_, ?_, ?_⟩
    · exact mapped_foldl (fun pass : FetchPass => pass.lookups)
        (fun pass lookup => (hstep pass lookup).1) _ _
    · exact kept_foldl
        (fun pass : FetchPass => pass.summary.candidateComponents)
        (fun pass lookup => (hstep pass lookup).2.1) _ _
    · exact tally_foldl (fun pass : FetchPass => tally pass.summary)
        (fun pass lookup => (hstep pass lookup).2.2) _ _
  · have hstep := settleOnline_spec now clockAt httpGet
      (Bool.eq_false_of_not_eq_true hoffline)
    rw [if_neg hoffline]
    refine ⟨?_, ?_, ?_⟩
    · exact mapped_foldl
        (fun state : Result FetchPass => state.value.lookups)
        (fun state lookup => (hstep state lookup).1) _ _
    · exact kept_foldl (fun state : Result FetchPass =>
          state.value.summary.candidateComponents)
        (fun state lookup => (hstep state lookup).2.1) _ _
    · exact tally_foldl
        (fun state : Result FetchPass => tally state.value.summary)
        (fun state lookup => (hstep state lookup).2.2) _ _

theorem foldl_answerFromCache_spec (pass : Pass) :
    let start : Pass := { summary := pass.summary }
    let after := pass.lookups.foldl (answerFromCache options now cache) start
    after.lookups = pass.lookups.map (asked options now cache) ∧
      after.summary.candidateComponents = pass.summary.candidateComponents ∧
      ∀ counter, tally after.summary counter = tally pass.summary counter +
        (pass.lookups.flatMap (cacheMarks options now cache)).count counter := by
  refine ⟨?_, ?_, ?_⟩
  · exact mapped_foldl Pass.lookups
      (answerFromCache_lookups options now cache) _ _
  · exact kept_foldl (fun pass : Pass => pass.summary.candidateComponents)
      (answerFromCache_candidates options now cache) _ _
  · exact tally_foldl (fun pass : Pass => tally pass.summary)
      (answerFromCache_tally options now cache) _ _

omit options now clockAt httpGet cache in
theorem readLookup_spec (reading : Reading) (lookup : Lookup) :
    (readLookup reading lookup).summary.candidateComponents =
        reading.summary.candidateComponents ∧
      ∀ counter, tally (readLookup reading lookup).summary counter =
        tally reading.summary counter + (readMarks lookup).count counter := by
  unfold readLookup readMarks
  by_cases hresolved : lookup.resolved = true
  · simp only [hresolved, Bool.not_true, Bool.false_eq_true, if_false, true_and]
    cases (extractCachedLicense lookup.payload).usableShape with
    | false =>
      refine ⟨rfl, fun counter => ?_⟩
      cases counter <;> simp [tally]
    | true =>
      simp only [Bool.not_true, Bool.false_eq_true, Bool.true_eq_false,
        if_false]
      split_ifs
      · refine ⟨rfl, fun counter => ?_⟩
        cases counter <;> simp [tally]
      · exact ⟨rfl, fun counter => by simp⟩
  · simp [hresolved]

theorem summaryWarnings_value (result : Result LicenseEnrichmentSummary)
    (unusablePayloadCount unusableCacheCount : Nat) :
    (summaryWarnings options result unusablePayloadCount
      unusableCacheCount).value = result.value := by
  simp only [summaryWarnings, Result.warnIf_value]

/-! ## The counters of a candidate -/

/-- Every counter that a run bumps for an entry of the component list. -/
def countersOf (entry : Component × Nat) : List Counter :=
  planMarks entry ++ (plannedLookup? entry).toList.flatMap fun lookup =>
    let asked := asked options now cache lookup
    cacheMarks options now cache lookup ++
      (settleMarks options now clockAt httpGet asked ++
        readMarks (settled options now clockAt httpGet asked))

/-- The counters of a run are what the entries bump. -/
theorem enrichComponentLicenses_tally (components : List Component)
    (cacheOpen : Result VulnCache) (counter : Counter) :
    tally (enrichComponentLicenses options now clockAt httpGet components
        cacheOpen).result.value counter =
      (components.zipIdx.flatMap
        (countersOf options now clockAt httpGet cacheOpen.value)).count
          counter := by
  have hsplit : (components.zipIdx.flatMap
      (countersOf options now clockAt httpGet cacheOpen.value)).count counter =
      tally (lookupsOf components).summary counter +
        (((lookupsOf components).lookups.flatMap
            (cacheMarks options now cacheOpen.value)).count counter +
          ((((lookupsOf components).lookups.map
              (asked options now cacheOpen.value)).flatMap
              (settleMarks options now clockAt httpGet)).count counter +
            ((((lookupsOf components).lookups.map
              (asked options now cacheOpen.value)).map
              (settled options now clockAt httpGet)).flatMap
              readMarks).count counter)) := by
    unfold countersOf
    rw [count_flatMap_append, lookupsOf_tally, ← List.flatMap_assoc,
      ← lookupsOf_lookups, count_flatMap_append, count_flatMap_append,
      List.flatMap_map, List.map_map, List.flatMap_map]
    rfl
  rw [hsplit, enrichComponentLicenses]
  dsimp only
  split_ifs with hempty
  · rw [List.isEmpty_iff.mp hempty]
    simp
  · obtain ⟨hasked, -, hcache⟩ := foldl_answerFromCache_spec options now
      cacheOpen.value (lookupsOf components)
    obtain ⟨hsettled, -, hsettle⟩ := settle_spec options now clockAt httpGet
      ((lookupsOf components).lookups.foldl
        (answerFromCache options now cacheOpen.value)
        { summary := (lookupsOf components).summary }) cacheOpen.value
    rw [summaryWarnings_value, tally_foldl
      (fun reading : Reading => tally reading.summary)
      fun reading lookup => (readLookup_spec reading lookup).2]
    dsimp only
    rw [hsettle, hcache, hsettled, hasked]
    omega

theorem enrichComponentLicenses_candidates (components : List Component)
    (cacheOpen : Result VulnCache) :
    (enrichComponentLicenses options now clockAt httpGet components
        cacheOpen).result.value.candidateComponents =
      (candidates components).length := by
  rw [enrichComponentLicenses]
  dsimp only
  split_ifs with hempty
  · rw [Result.warnIf_value, lookupsOf_candidates]
  · rw [summaryWarnings_value, kept_foldl
      (fun reading : Reading => reading.summary.candidateComponents)
      fun reading lookup => (readLookup_spec reading lookup).1]
    dsimp only
    rw [(settle_spec options now clockAt httpGet _ _).2.1,
      (foldl_answerFromCache_spec options now _ _).2.1, lookupsOf_candidates]

/-- The entry of the cache that answers a lookup in this run: it is fresh, or no
registry gives a license. -/
def cachedAnswer? (lookup : Lookup) : Option VulnCacheEntry :=
  (cache.lookup lookup.cacheKey).filter fun entry =>
    isFresh options now entry ||
      (newLicense? options now clockAt httpGet lookup).isNone

/-- The payload of an entry can be read where it is used. -/
def IsReadable (entry : VulnCacheEntry) : Prop :=
  (extractCachedLicense entry.payload).usableShape = true

omit options now clockAt httpGet cache in
theorem resolved_of_plannedLookup? {entry : Component × Nat}
    {lookup : Lookup} (hlookup : plannedLookup? entry = some lookup) :
    lookup.resolved = false := by
  obtain ⟨registry, -, hplanned⟩ := Option.bind_eq_some_iff.mp hlookup
  unfold lookup? at hplanned
  dsimp only at hplanned
  split_ifs at hplanned <;>
    · obtain rfl := Option.some.inj hplanned
      rfl

/-- What is fetched can be read back. -/
theorem readMarks_of_newLicense? {lookup : Lookup} {license : String}
    (hlicense : newLicense? options now clockAt httpGet lookup =
      some license) (other : Lookup) :
    readMarks (other.answer (cachePayloadFor license)) = [] := by
  have hfetched : fetchedLicense? options now clockAt httpGet lookup =
      some license := by
    unfold newLicense? at hlicense
    split_ifs at hlicense
    exact hlicense
  unfold fetchedLicense? at hfetched
  dsimp only at hfetched
  split_ifs at hfetched
  obtain rfl := Option.some.inj hfetched
  have husable := usableShape_cachePayloadFor lookup.registry
    (responseFor options now clockAt httpGet lookup).value.body
  simp [readMarks, Lookup.answer, husable]

omit options now clockAt httpGet cache in
theorem readMarks_answer (lookup : Lookup) (entry : VulnCacheEntry) :
    readMarks (lookup.answer entry.payload) = [] ↔ IsReadable entry := by
  unfold readMarks IsReadable Lookup.answer
  cases (extractCachedLicense entry.payload).usableShape <;> simp

/-- A lookup that the cache did not answer bumps one counter, and one more for an
old entry that cannot be read. -/
theorem exists_settleMarks {lookup : Lookup}
    (hresolved : lookup.resolved = false) :
    ∃ counter, settleMarks options now clockAt httpGet lookup = [counter] ∧
        (readMarks (settled options now clockAt httpGet lookup) = [] ↔
          newLicense? options now clockAt httpGet lookup = none →
            ∀ stale, lookup.staleEntry = some stale → IsReadable stale) := by
  cases hlicense : newLicense? options now clockAt httpGet lookup with
  | some license =>
    have hread := readMarks_of_newLicense? options now clockAt httpGet
      hlicense lookup
    refine ⟨.fetched, ?_, ?_⟩
    · simp [settleMarks, hresolved, hlicense]
    · simp [settled, hresolved, hlicense, hread]
  | none =>
    cases hstale : lookup.staleEntry with
    | some entry =>
      refine ⟨.staleCache, ?_, ?_⟩
      · simp [settleMarks, hresolved, hlicense, hstale]
      · simp [settled, hresolved, hlicense, hstale, readMarks_answer]
    | none =>
      have hunread : readMarks (settled options now clockAt httpGet
          lookup) = [] := by
        simp [readMarks, settled, hresolved, hlicense, hstale]
      by_cases hlimited : options.offline = false ∧
          (responseFor options now clockAt httpGet
            lookup).value.statusCode = 429
      · refine ⟨.rateLimited, ?_, by simp [hunread]⟩
        simp [settleMarks, hresolved, hlicense, hstale, hlimited]
      · refine ⟨.unresolved, ?_, by simp [hunread]⟩
        simp [settleMarks, hresolved, hlicense, hstale, hlimited]

/-- The counters of a lookup: one for how it is answered, one more for a cached
payload that cannot be read. -/
theorem exists_lookup_counters {lookup : Lookup}
    (hresolved : lookup.resolved = false) :
    ∃ counter marks, cacheMarks options now cache lookup ++
          (settleMarks options now clockAt httpGet
              (asked options now cache lookup) ++
            readMarks (settled options now clockAt httpGet
              (asked options now cache lookup))) = counter :: marks ∧
        (marks = [] ↔ ∀ cached,
          cachedAnswer? options now clockAt httpGet cache lookup =
            some cached → IsReadable cached) := by
  cases hfresh : freshEntryOf? options now cache lookup with
  | some entry =>
    obtain ⟨hentry, hage⟩ := Option.filter_eq_some_iff.mp hfresh
    have hasked : asked options now cache lookup =
        lookup.answer entry.payload := by simp [asked, hfresh]
    have hcached : cachedAnswer? options now clockAt httpGet cache lookup =
        some entry :=
      Option.filter_eq_some_iff.mpr ⟨hentry, by simp [hage]⟩
    refine ⟨.freshCache, readMarks (lookup.answer entry.payload), ?_, ?_⟩
    · simp [cacheMarks, hfresh, hasked, settleMarks, settled, Lookup.answer]
    · rw [hcached, readMarks_answer]
      simp
  | none =>
    have hasked : asked options now cache lookup =
        { lookup with staleEntry := cache.lookup lookup.cacheKey } := by
      simp [asked, hfresh]
    have hopen : (asked options now cache lookup).resolved = false := by
      rw [hasked, hresolved]
    obtain ⟨counter, hcounter, hread⟩ :=
      exists_settleMarks options now clockAt httpGet hopen
    refine ⟨counter, _, ?_, hread.trans ?_⟩
    · rw [cacheMarks, hfresh, hcounter]
      rfl
    · -- An entry that is not fresh answers where no registry does.
      have hage : ∀ entry, cache.lookup lookup.cacheKey = some entry →
          isFresh options now entry = false := by
        intro entry hentry
        simpa [freshEntryOf?, hentry] using hfresh
      have hlicense : newLicense? options now clockAt httpGet
          (asked options now cache lookup) =
            newLicense? options now clockAt httpGet lookup := by
        rw [hasked]
        rfl
      rw [hlicense, hasked]
      simp only [cachedAnswer?, Option.filter_eq_some_iff, Bool.or_eq_true,
        Option.isNone_iff_eq_none]
      constructor
      · rintro h cached ⟨hcached, hfresh | hnone⟩
        · rw [hage cached hcached] at hfresh
          exact absurd hfresh (by decide)
        · exact h hnone cached hcached
      · intro h hnone stale hstale
        exact h stale ⟨hstale, Or.inr hnone⟩

/-- A candidate bumps one counter, and a second one exactly when the cached
payload that answers it cannot be read. -/
theorem countersOf_length {entry : Component × Nat}
    (hentry : isCandidate entry = true) :
    ((countersOf options now clockAt httpGet cache entry).length = 1 ↔
        ∀ lookup, plannedLookup? entry = some lookup → ∀ cached,
          cachedAnswer? options now clockAt httpGet cache lookup =
            some cached → IsReadable cached) ∧
      countersOf options now clockAt httpGet cache entry ≠ [] := by
  unfold countersOf planMarks
  cases hplanned : plannedLookup? entry with
  | none => simp [hentry]
  | some lookup =>
    obtain ⟨counter, marks, hmarks, hreadable⟩ := exists_lookup_counters
      options now clockAt httpGet cache (resolved_of_plannedLookup? hplanned)
    have hnone : ¬ (isCandidate entry = true ∧ some lookup = none) := by
      simp
    simp only [if_neg hnone, List.nil_append, Option.toList_some,
      List.flatMap_cons, List.flatMap_nil, List.append_nil, hmarks]
    constructor
    · rw [List.length_cons, Nat.add_eq_right, List.length_eq_zero_iff,
        hreadable]
      simp
    · exact List.cons_ne_nil _ _

theorem countersOf_of_not_isCandidate {entry : Component × Nat}
    (hentry : ¬ isCandidate entry = true) :
    countersOf options now clockAt httpGet cache entry = [] := by
  have hregistry : candidateRegistryOf? entry.1 = none := by
    simpa [isCandidate] using hentry
  simp [countersOf, planMarks, plannedLookup?, hentry, hregistry]

structure CountsOnce (components : List Component)
    (cacheOpen : Result VulnCache) : Prop where
  once : ∀ entry ∈ candidates components, ∃ counter,
    countersOf options now clockAt httpGet cacheOpen.value entry = [counter]
  sums :
    let summary := (enrichComponentLicenses options now clockAt httpGet
      components cacheOpen).result.value
    summary.skippedComponents + summary.freshCacheAnswers +
        summary.fetchedAnswers + summary.staleCacheAnswers +
        summary.rateLimitedComponents + summary.unresolvedComponents =
      summary.candidateComponents

theorem countsOnce_iff (components : List Component)
    (cacheOpen : Result VulnCache) :
    CountsOnce options now clockAt httpGet components cacheOpen ↔
      ∀ entry ∈ candidates components, ∀ lookup,
        plannedLookup? entry = some lookup → ∀ cached,
          cachedAnswer? options now clockAt httpGet cacheOpen.value lookup =
            some cached → IsReadable cached := by
  have hlength : ∀ entry ∈ candidates components,
      ((countersOf options now clockAt httpGet cacheOpen.value entry).length =
          1 ↔ ∀ lookup, plannedLookup? entry = some lookup → ∀ cached,
            cachedAnswer? options now clockAt httpGet cacheOpen.value lookup =
              some cached → IsReadable cached) ∧
        countersOf options now clockAt httpGet cacheOpen.value entry ≠ [] :=
    fun entry hentry => countersOf_length options now clockAt httpGet
      cacheOpen.value (List.mem_filter.mp hentry).2
  have hsum : (enrichComponentLicenses options now clockAt httpGet components
        cacheOpen).result.value.candidateComponents =
      ∑ counter, tally (enrichComponentLicenses options now clockAt httpGet
        components cacheOpen).result.value counter ↔
      ∀ entry ∈ candidates components,
        (countersOf options now clockAt httpGet cacheOpen.value entry).length =
          1 := by
    rw [← length_flatMap_eq_iff fun entry hentry => (hlength entry hentry).2,
      enrichComponentLicenses_candidates]
    simp only [enrichComponentLicenses_tally, sum_count_eq_length]
    have hcandidates : components.zipIdx.flatMap
        (countersOf options now clockAt httpGet cacheOpen.value) =
        (candidates components).flatMap
          (countersOf options now clockAt httpGet cacheOpen.value) := by
      apply flatMap_filter_of_eq_nil
      intro entry hentry
      exact countersOf_of_not_isCandidate options now clockAt httpGet
        cacheOpen.value hentry
    rw [hcandidates]
    exact eq_comm
  constructor
  · intro h entry hentry
    rw [← (hlength entry hentry).1]
    obtain ⟨counter, hcounter⟩ := h.once entry hentry
    rw [hcounter, List.length_singleton]
  · intro h
    refine ⟨fun entry hentry => ?_, ?_⟩
    · exact List.length_eq_one_iff.mp
        ((hlength entry hentry).1.mpr (h entry hentry))
    · dsimp only
      rw [← sum_tally, eq_comm]
      exact hsum.mpr fun entry hentry =>
        (hlength entry hentry).1.mpr (h entry hentry)

end Run

/-- A cache whose one entry is no license payload. -/
def emptyObjectCache : VulnCache :=
  some
    { vulnCache := fun _ =>
        some { fetchedAtEpochSeconds := 0, payload := some (.object []) } }

/-- The component is counted as a fresh answer and as unresolved. -/
theorem not_countsOnce_emptyObject :
    ¬ CountsOnce {} 0 (fun _ => 0) (fun _ _ _ => { value := {} })
      [{ name := "serde", purl := "pkg:cargo/serde@1.0.0" }]
      { value := emptyObjectCache } := by
  intro h
  exact absurd h.sums (by decide +kernel)

end Bomwerk.Vuln.License
