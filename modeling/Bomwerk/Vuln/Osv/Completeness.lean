import Bomwerk.Vuln.Osv.Answers
import Bomwerk.Vuln.Osv.Examination

/-!
# Complete answers

When a run of `match_components` reports every advisory the server served, and
when it knows that an answer is complete.  A run decides this from two side
tables of its pagination; here the decision is compared with the pages
themselves.
-/

namespace Bomwerk.Vuln

open Bomwerk.Core Bomwerk.Support

/-! ## Merged documents -/

theorem findArray?_mergedDocument {firstPage : Json}
    (hobject : firstPage.isObject = true) (extra : List Json)
    (incomplete : Bool) :
    (mergedDocument firstPage extra incomplete).findArray? "vulns" =
      some (pageVulns firstPage ++ extra) := by
  cases incomplete <;>
    simp [mergedDocument, Json.findArray?, Json.find?_set hobject,
      Json.find?_erase]

theorem pageVulns_mergedDocument {firstPage : Json}
    (hobject : firstPage.isObject = true) (extra : List Json)
    (incomplete : Bool) :
    pageVulns (mergedDocument firstPage extra incomplete) =
      pageVulns firstPage ++ extra := by
  rw [pageVulns, findArray?_mergedDocument hobject, Option.getD_some]

theorem contains_token_mergedDocument {firstPage : Json}
    (hobject : firstPage.isObject = true) (extra : List Json)
    (incomplete : Bool) :
    (mergedDocument firstPage extra incomplete).contains "next_page_token" =
      (incomplete && firstPage.contains "next_page_token") := by
  cases incomplete <;>
    simp [mergedDocument, Json.contains, Json.find?_set hobject,
      Json.find?_erase]

theorem isObject_mergedDocument {firstPage : Json}
    (hobject : firstPage.isObject = true) (extra : List Json)
    (incomplete : Bool) :
    (mergedDocument firstPage extra incomplete).isObject = true := by
  cases incomplete <;>
    simp [mergedDocument, Json.isObject_set hobject, Json.isObject_erase]

theorem extraOf_eq_none_iff {pages : List Json} :
    extraOf pages = none ↔
      ∀ page ∈ pages, page.findArray? "vulns" = none := by
  simp [extraOf]

theorem extraOf_eq_some {pages : List Json} {extra : List Json}
    (hextra : extraOf pages = some extra) :
    extra = pages.flatMap pageVulns := by
  unfold extraOf at hextra
  split_ifs at hextra
  exact (Option.some.inj hextra).symm

/-- The final document of a purl states the advisories of all its pages. -/
theorem mem_pageIds_finalDocument_iff {firstPage : Json}
    (hobject : firstPage.isObject = true) {pages : List Json} {id : String} :
    id ∈ pageIds (finalDocument firstPage pages) ↔
      ∃ page ∈ firstPage :: pages, id ∈ pageIds page := by
  unfold finalDocument
  cases hextra : extraOf pages with
  | some extra =>
    simp only [pageIds, pageVulns_mergedDocument hobject,
      extraOf_eq_some hextra, List.filterMap_append, List.map_append,
      List.mem_append, List.mem_cons, exists_eq_or_imp]
    refine or_congr Iff.rfl ?_
    simp only [advisoryIds, List.mem_map, List.mem_filterMap, List.mem_flatMap]
    constructor
    · rintro ⟨revision, ⟨advisory, ⟨page, hpage, hmem⟩, hrevision⟩, rfl⟩
      exact ⟨page, hpage, revision, ⟨advisory, hmem, hrevision⟩, rfl⟩
    · rintro ⟨page, hpage, revision, ⟨advisory, hmem, hrevision⟩, rfl⟩
      exact ⟨revision, ⟨advisory, ⟨page, hpage, hmem⟩, hrevision⟩, rfl⟩
  | none =>
    have hpages : ∀ page ∈ pages, pageIds page = [] := fun page hpage => by
      simp [pageIds, pageVulns, extraOf_eq_none_iff.mp hextra page hpage]
    constructor
    · exact fun h => ⟨firstPage, by simp, h⟩
    · rintro ⟨page, hpage, hid⟩
      rcases List.mem_cons.mp hpage with rfl | hpage
      · exact hid
      · simp [hpages page hpage] at hid

/-- A final document keeps a token exactly when the first page has one and
either nothing was merged or the purl was given up. -/
theorem contains_token_finalDocument {firstPage : Json}
    (hobject : firstPage.isObject = true) (pages : List Json) :
    (finalDocument firstPage pages).contains "next_page_token" =
      (firstPage.contains "next_page_token" &&
        ((extraOf pages).isNone ||
          !endsChain (pages.getLast?.getD firstPage))) := by
  unfold finalDocument
  cases hextra : extraOf pages with
  | some extra =>
    rw [contains_token_mergedDocument hobject]
    simp [Bool.and_comm]
  | none => simp

theorem isObject_finalDocument {firstPage : Json}
    (hobject : firstPage.isObject = true) (pages : List Json) :
    (finalDocument firstPage pages).isObject = true := by
  unfold finalDocument
  cases extraOf pages with
  | some extra => exact isObject_mergedDocument hobject _ _
  | none => exact hobject

/-- A final document is well formed when it was merged, or when its only page
has an array of advisories or none. -/
theorem not_malformed_finalDocument {firstPage : Json}
    (hobject : firstPage.isObject = true) {pages : List Json}
    (hpages : extraOf pages ≠ none ∨
      (firstPage.contains "vulns" = true →
        (firstPage.findArray? "vulns").isSome = true)) :
    (extractFromDocument (finalDocument firstPage pages)).malformed =
      false := by
  rw [← Bool.not_eq_true, extractFromDocument_malformed_iff,
    isObject_finalDocument hobject]
  unfold finalDocument
  cases hextra : extraOf pages with
  | some extra => simp [findArray?_mergedDocument hobject]
  | none =>
    rintro (h | ⟨hvulns, harray⟩)
    · exact absurd h (by decide)
    · rcases hpages with hmerged | hsingle
      · exact hmerged hextra
      · simp only at hvulns harray
        simpa [harray] using hsingle hvulns

/-- Every page but the last carries the token that asks for the next one. -/
theorem PageChain.Serves.pageToken?_of_mem_dropLast {firstPage : Json}
    {pages : List Json} {chain : PageChain}
    (hchain : chain.token.isSome = true → (pageToken? firstPage).isSome = true)
    (hserves : chain.Serves pages) :
    ∀ page ∈ (firstPage :: pages).dropLast, (pageToken? page).isSome = true := by
  induction pages generalizing firstPage chain with
  | nil => simp
  | cons next pages ih =>
    obtain ⟨htoken, hserves⟩ := hserves
    have hnext : (chain.follow next).token.isSome = true →
        (pageToken? next).isSome = true := by
      unfold PageChain.follow
      cases next.isObject
      · simp
      · cases pageToken? next <;> simp
    intro page hpage
    rw [List.dropLast_cons_cons] at hpage
    rcases List.mem_cons.mp hpage with rfl | hmem
    · exact hchain htoken
    · exact ih hnext hserves page hmem

theorem pageToken?_eq_none_of_not_contains {page : Json}
    (htoken : page.contains "next_page_token" = false) :
    pageToken? page = none := by
  have hfind : page.find? "next_page_token" = none := by
    simpa [Json.contains] using htoken
  simp [pageToken?, Json.findString?, hfind]

/-! ## Silent runs -/

section Run

variable (scoreCvssVector : String → CvssScore) (options : MatchOptions)
  (now : Int) (components : List Component) (transport : Transport)
  (cacheOpen : Result VulnCache)

/-- The purls a run asks the server about. -/
def queriedAfresh : List String :=
  if options.offline then []
  else purlsToFetch options now cacheOpen.value (queryPurls components).toList

def pagesServed (purl : String) : List Json :=
  servedPages options now cacheOpen.value (queryPurls components).toList
    transport purl

def followUpsServed (purl : String) : List Json :=
  servedFollowUps options now cacheOpen.value (queryPurls components).toList
    transport purl

/-- The hits state what the pages state, and the last page is a last page. -/
structure CompletelyReported (hits : List VulnerabilityHit) (purl : String)
    (pages : List Json) : Prop where
  ids : ∀ id, ReportsId hits purl id ↔ ∃ page ∈ pages, id ∈ pageIds page
  finished : ∃ last, pages.getLast? = some last ∧
    last.contains "next_page_token" = false

variable {options now components transport cacheOpen}

theorem of_silent_onlineAnswers {cache : VulnCache} {purls : List String}
    (hsilent : Silent
      (onlineAnswers options now cache purls transport).warnings) :
    (staleUse options now cache purls transport).staleUsedCount +
        (staleUse options now cache purls transport).missingCount = 0 ∧
      (paginated options now cache purls
        transport).value.incompletePaginationPurls = ∅ := by
  have hcode : WarningCode.vulnCoverageIncomplete ∈ coverageCodes := by decide
  obtain ⟨hsilent, hpaginated⟩ := hsilent.of_absorb
  obtain ⟨hmissing, hsilent⟩ := hsilent.of_warnIf hcode
  have hstale := (hsilent.of_warnIf hcode).1
  have hincomplete := (hpaginated.of_warnIf hcode).1
  simp only [gt_iff_lt, decide_eq_false_iff_not, not_lt,
    Nat.le_zero] at hmissing hstale
  refine ⟨by omega, ?_⟩
  simpa [paginated, paginate] using hincomplete

theorem pagesServed_of_fresh {purl : String} {firstPage : Json}
    (hfresh : (purl, firstPage) ∈ keptFirstPages options now cacheOpen.value
      (queryPurls components).toList transport) :
    pagesServed options now components transport cacheOpen purl = firstPage ::
        followUpsServed options now components transport cacheOpen purl := by
  rw [pagesServed, servedPages, pagesOf_eq_singleton (firstPages_nodup
      (nodup_toList_orderedSet _)) (List.mem_filter.mp hfresh).1]
  rfl

theorem runAnswers_of_online (honline : options.offline = false) :
    runAnswers options now transport components cacheOpen =
      onlineAnswers options now cacheOpen.value
        (queryPurls components).toList transport := by
  rw [runAnswers, answers, if_neg (by simp [honline])]

theorem runAnswers_of_fresh (honline : options.offline = false)
    {purl : String} {firstPage : Json}
    (hfresh : (purl, firstPage) ∈ keptFirstPages options now cacheOpen.value
      (queryPurls components).toList transport) :
    (runAnswers options now transport components
        cacheOpen).value.payloadByPurl[purl]? =
      some (finalDocument firstPage
        (followUpsServed options now components transport cacheOpen
          purl)).dump := by
  rw [runAnswers_of_online honline]
  exact onlineAnswers_getElem?_of_fresh (nodup_toList_orderedSet _) hfresh

theorem extract_of_fresh {purl : String} {firstPage : Json}
    (hfresh : (purl, firstPage) ∈ keptFirstPages options now cacheOpen.value
      (queryPurls components).toList transport) :
    extractAdvisoryRevisions (finalDocument firstPage
        (followUpsServed options now components transport cacheOpen
          purl)).dump =
      extractFromDocument (finalDocument firstPage
        (followUpsServed options now components transport cacheOpen purl)) :=
  extract_finalDocument hfresh

/-- What the hits of a run state about a freshly fetched purl whose final
document is well formed. -/
theorem reportsId_of_fresh (honline : options.offline = false)
    {purl : String} {firstPage : Json}
    (hfresh : (purl, firstPage) ∈ keptFirstPages options now cacheOpen.value
      (queryPurls components).toList transport)
    (hmalformed : (extractFromDocument (finalDocument firstPage
      (followUpsServed options now components transport cacheOpen
        purl))).malformed = false) (id : String) :
    ReportsId (matchComponents scoreCvssVector options now components transport
        cacheOpen).result.value.hits purl id ↔
      ∃ page ∈ pagesServed options now components transport cacheOpen purl,
        id ∈ pageIds page := by
  have hfetch := keptFirstPages_keys_subset (List.mem_map_of_mem hfresh)
  have hne : (queryPurls components).toList ≠ [] :=
    List.ne_nil_of_mem (List.mem_filter.mp hfetch).1
  have hobject := (keptFirstPages_spec hfresh).1
  have hpayload := runAnswers_of_fresh honline hfresh
  have hextract := extract_of_fresh hfresh
  rw [reportsId_matchComponents_iff scoreCvssVector options now transport
    components cacheOpen hne,
    pagesServed_of_fresh hfresh,
    ← mem_pageIds_finalDocument_iff hobject, pageIds,
    ← extractFromDocument_advisoryRevisions, ← hextract]
  rw [← hextract] at hmalformed
  constructor
  · rintro ⟨payload, hother, -, hid⟩
    obtain rfl := Option.some.inj (hpayload.symm.trans hother)
    exact hid
  · exact fun hid => ⟨_, hpayload, hmalformed, hid⟩

theorem endsChain_of_not_incomplete {purl : String} {firstPage : Json}
    (hfresh : (purl, firstPage) ∈ keptFirstPages options now cacheOpen.value
      (queryPurls components).toList transport)
    (hcomplete : purl ∉ (paginated options now cacheOpen.value
      (queryPurls components).toList
        transport).value.incompletePaginationPurls) :
    endsChain ((followUpsServed options now components transport cacheOpen
      purl).getLast?.getD firstPage) = true := by
  have hgiven := (paginated_of_fresh (nodup_toList_orderedSet _) hfresh).2
  exact Bool.of_not_eq_false fun h => hcomplete (hgiven.mpr h)

theorem pageToken?_of_mem_dropLast {purl : String} {firstPage : Json}
    (hfresh : (purl, firstPage) ∈ keptFirstPages options now cacheOpen.value
      (queryPurls components).toList transport) :
    ∀ page ∈ (firstPage :: followUpsServed options now components transport
      cacheOpen purl).dropLast, (pageToken? page).isSome = true := by
  have htoken := runTokens_getElem?_of_fresh (nodup_toList_orderedSet _) hfresh
  refine (paginate_spec transport (runTokens options now cacheOpen.value
    (queryPurls components).toList transport)
      purl).1.pageToken?_of_mem_dropLast ?_
  rw [htoken]
  exact id

/-- A silent run kept a well-formed, complete chain for every purl it asked
about. -/
theorem exists_fresh_of_silent
    (hsilent : Silent (matchComponents scoreCvssVector options now components
      transport cacheOpen).result.warnings) {purl : String}
    (hpurl : purl ∈ queriedAfresh options now components cacheOpen) :
    ∃ firstPage, (purl, firstPage) ∈ keptFirstPages options now cacheOpen.value
        (queryPurls components).toList transport ∧
      endsChain ((followUpsServed options now components transport cacheOpen
        purl).getLast?.getD firstPage) = true ∧
      (extractFromDocument (finalDocument firstPage
        (followUpsServed options now components transport cacheOpen
          purl))).malformed = false := by
  have honline : options.offline = false := by
    by_contra h
    simp [queriedAfresh, h] at hpurl
  have hfetch : purl ∈ purlsToFetch options now cacheOpen.value
      (queryPurls components).toList := by
    simpa [queriedAfresh, honline] using hpurl
  have hne : (queryPurls components).toList ≠ [] :=
    List.ne_nil_of_mem (List.mem_filter.mp hfetch).1
  obtain ⟨-, -, hwarnings, -⟩ := matchComponents_of_ne_nil scoreCvssVector
    options now transport components cacheOpen hne
  rw [hwarnings] at hsilent
  have hanswers : Silent
      (runAnswers options now transport components cacheOpen).warnings :=
    hsilent.of_subset fun w h => by simp [h]
  have hexamination : Silent (runExamination scoreCvssVector options now
      transport components cacheOpen).warnings :=
    hsilent.of_subset fun w h => by simp [h]
  rw [runAnswers_of_online honline] at hanswers
  obtain ⟨hcounts, hincomplete⟩ :=
    of_silent_onlineAnswers hanswers
  obtain ⟨firstPage, hfresh⟩ := exists_fresh_of_counts hcounts hfetch
  have hpayload := runAnswers_of_fresh honline hfresh
  have hmalformed := (wellFormed_of_silent_examineAll scoreCvssVector options
    now _ _ _ rfl hexamination (purl, _) (mem_toList_iff.mpr hpayload)).1
  rw [extract_of_fresh hfresh] at hmalformed
  refine ⟨firstPage, hfresh, ?_, hmalformed⟩
  exact endsChain_of_not_incomplete hfresh (by simp [hincomplete])

variable (options now components transport cacheOpen) in
/-- A silent run reports everything and ends every chain exactly when every
continuation token the server sent is a string. -/
theorem completelyReported_iff_of_silent
    (hsilent : Silent (matchComponents scoreCvssVector options now components
      transport cacheOpen).result.warnings) :
    (∀ purl ∈ queriedAfresh options now components cacheOpen,
        CompletelyReported (matchComponents scoreCvssVector options now
          components transport cacheOpen).result.value.hits purl
          (pagesServed options now components transport cacheOpen purl)) ↔
      ∀ purl ∈ queriedAfresh options now components cacheOpen,
        ∀ page ∈ pagesServed options now components transport cacheOpen purl,
          ∀ token, page.find? "next_page_token" = some token →
            token.isString = true := by
  refine forall₂_congr fun purl hpurl => ?_
  have honline : options.offline = false := by
    by_contra h
    simp [queriedAfresh, h] at hpurl
  obtain ⟨firstPage, hfresh, hends, hmalformed⟩ := exists_fresh_of_silent
    scoreCvssVector hsilent hpurl
  have hids := reportsId_of_fresh scoreCvssVector honline hfresh hmalformed
  have hdropLast := pageToken?_of_mem_dropLast hfresh
  have hserved := pagesServed_of_fresh hfresh
  have hlast : (pagesServed options now components transport cacheOpen
      purl).getLast? = some ((followUpsServed options now components transport
        cacheOpen purl).getLast?.getD firstPage) := by
    rw [hserved, List.getLast?_cons]
  constructor
  · rintro ⟨-, last, hgetLast, htoken⟩ page hpage token hfind
    have hmem : page ∈ (pagesServed options now components transport cacheOpen
        purl).dropLast ∨ page = last := by
      rw [← List.dropLast_append_getLast? last hgetLast] at hpage
      simpa using hpage
    rcases hmem with hmem | rfl
    · rw [hserved] at hmem
      have hsome := hdropLast page hmem
      cases token <;> simp_all [pageToken?, Json.findString?, Json.asString?,
        Json.isString]
    · simp [Json.contains, hfind] at htoken
  · intro hstrings
    refine ⟨hids, _, hlast, ?_⟩
    rw [Json.contains, Option.isSome_eq_false_iff, Option.isNone_iff_eq_none]
    by_contra hnone
    obtain ⟨token, htoken⟩ := Option.ne_none_iff_exists'.mp hnone
    have hstring := hstrings _ (List.mem_of_getLast? hlast) token htoken
    cases token <;> simp_all [endsChain, pageToken?, Json.findString?,
      Json.asString?, Json.isString]

/-- A page that states some advisories, maybe with a continuation token. -/
def samplePage (ids : List String) (token : Option Json) : Json :=
  .object
    ((token.map fun token => ("next_page_token", token)).toList ++
      [("vulns", .array (ids.map fun id => .object [("id", .string id)]))])

/-- The answer to a request about one purl. -/
def samplePageAnswer (page : Option Json) : Result HttpResponse where
  value :=
    { statusCode := 200
      body := page.map fun page => .object [("results", .array [page])] }

/-- A server that knows one purl and answers with the given pages in turn. -/
def sampleServer (pages : List Json) : Transport where
  batch _ _ := samplePageAnswer pages[0]?
  followUp round _ := samplePageAnswer pages[round + 1]?
  hydration _ _ := { value := { statusCode := 200, body := some (.object []) } }

def samplePurl : String := "pkg:npm/left-pad@1.3.0"

/-- A run on one component, with the given cache and server. -/
def sampleRun (cache : VulnCache) (pages : List Json) : MatchRun :=
  matchComponents (fun _ => {}) {} 1000 [{ purl := samplePurl }]
    (sampleServer pages) { value := cache }

def sampleServed (cache : VulnCache) (pages : List Json) : List Json :=
  pagesServed {} 1000 [{ purl := samplePurl }] (sampleServer pages)
    { value := cache } samplePurl

/-- A run over two pages with string tokens. -/
theorem completelyReported_iff_two_pages :
    let pages := [samplePage ["A"] (some (.string "t")), samplePage ["B"] none]
    (∀ purl ∈ queriedAfresh {} 1000 [{ purl := samplePurl }]
          { value := some {} },
        CompletelyReported (sampleRun (some {}) pages).result.value.hits purl
          (pagesServed {} 1000 [{ purl := samplePurl }] (sampleServer pages)
            { value := some {} } purl)) ↔
      ∀ purl ∈ queriedAfresh {} 1000 [{ purl := samplePurl }]
          { value := some {} },
        ∀ page ∈ pagesServed {} 1000 [{ purl := samplePurl }]
          (sampleServer pages) { value := some {} } purl,
          ∀ token, page.find? "next_page_token" = some token →
            token.isString = true :=
  completelyReported_iff_of_silent (fun _ => {}) {} 1000
    [{ purl := samplePurl }]
    (sampleServer
      [samplePage ["A"] (some (.string "t")), samplePage ["B"] none])
    { value := some {} } (by decide)

/-- A follow-up page whose token is a number is taken for the last one, and the
run does not warn. -/
theorem silent_of_numeric_token :
    let pages := [samplePage ["A"] (some (.string "t")),
      samplePage ["B"] (some (.integer 5))]
    Silent (sampleRun (some {}) pages).result.warnings ∧
      samplePurl ∈ queriedAfresh {} 1000 [{ purl := samplePurl }]
        { value := some {} } ∧
      ¬ CompletelyReported (sampleRun (some {}) pages).result.value.hits
        samplePurl (sampleServed (some {}) pages) := by
  refine ⟨by decide, by decide, fun hreported => ?_⟩
  obtain ⟨last, hlast, htoken⟩ := hreported.finished
  have hcarried : (sampleServed (some {})
      [samplePage ["A"] (some (.string "t")),
        samplePage ["B"] (some (.integer 5))]).getLast?.map
          (·.contains "next_page_token") = some true := by
    decide
  rw [hlast, Option.map_some, htoken] at hcarried
  exact absurd hcarried (by decide)

/-! ## Complete chains -/

/-- A page of the documented shape. -/
structure IsWellFormedPage (page : Json) : Prop where
  isObject : page.isObject = true
  vulns : page.contains "vulns" = true →
    (page.findArray? "vulns").isSome = true
  token : ∀ token, page.find? "next_page_token" = some token →
    token.isString = true

/-- No other purl of the run reads or writes the cache key of a purl. -/
structure OwnsCacheKey (purls : List String) (purl : String) : Prop where
  detection : ∀ other ∈ purls, other ≠ purl → cString other ≠ cString purl
  hydration : ∀ other ∈ purls,
    cString (other ++ fullPayloadKeySuffix) ≠ cString purl

instance (purls : List String) (purl : String) :
    Decidable (OwnsCacheKey purls purl) :=
  decidable_of_iff
    ((∀ other ∈ purls, other ≠ purl → cString other ≠ cString purl) ∧
      ∀ other ∈ purls, cString (other ++ fullPayloadKeySuffix) ≠ cString purl)
    ⟨fun h => ⟨h.1, h.2⟩, fun h => ⟨h.detection, h.hydration⟩⟩

/-- Purls without NUL and unit-separator bytes own their keys. -/
theorem ownsCacheKey_of_plain {purls : List String} {purl : String}
    (hplain : ∀ other ∈ purl :: purls,
      '\x00' ∉ other.toList ∧ '\x1f' ∉ other.toList) :
    OwnsCacheKey purls purl := by
  have hpurl : cString purl = purl :=
    cString_eq_self_iff.mpr (hplain purl (by simp)).1
  refine ⟨fun other hother hne => ?_, fun other hother heq => ?_⟩
  · rw [hpurl, cString_eq_self_iff.mpr
      (hplain other (List.mem_cons_of_mem _ hother)).1]
    exact hne
  · have hnul := (hplain other (List.mem_cons_of_mem _ hother)).1
    have hkey : cString (other ++ fullPayloadKeySuffix) =
        other ++ fullPayloadKeySuffix := by
      rw [cString_eq_self_iff, String.toList_append, List.mem_append, not_or]
      exact ⟨hnul, by decide⟩
    rw [hkey, hpurl] at heq
    refine (hplain purl (by simp)).2 ?_
    rw [← heq, String.toList_append]
    exact List.mem_append_right _ (by decide)

variable (options now components transport cacheOpen) in
/-- A run treats the answer for a purl as complete: it is not reported as
truncated, it is what an open cache holds, and the hits state its pages. -/
structure AnsweredComplete (purl : String) : Prop where
  untruncated : ∃ payload, (runAnswers options now transport components
      cacheOpen).value.payloadByPurl[purl]? = some payload ∧
    (extractAdvisoryRevisions payload).truncated = false ∧
    (extractAdvisoryRevisions payload).malformed = false ∧
    (cacheOpen.value.isSome = true →
      (matchComponents scoreCvssVector options now components transport
        cacheOpen).cache.lookup purl =
          some { fetchedAtEpochSeconds := now, payload := payload })
  ids : ∀ page ∈ pagesServed options now components transport cacheOpen purl,
    ∀ id ∈ pageIds page,
      ReportsId (matchComponents scoreCvssVector options now components
        transport cacheOpen).result.value.hits purl id

/-- A purl that was served a well-formed last page was served a first page the
run keeps. -/
theorem exists_fresh_of_wellFormed_last {purl : String} {last : Json}
    (hlast : (pagesServed options now components transport cacheOpen
      purl).getLast? = some last)
    (hwellFormed : IsWellFormedPage last) :
    ∃ firstPage, (purl, firstPage) ∈ keptFirstPages options now cacheOpen.value
      (queryPurls components).toList transport := by
  have hnotKept : purl ∉ (keptFirstPages options now cacheOpen.value
      (queryPurls components).toList transport).map Prod.fst →
      followUpsServed options now components transport cacheOpen purl = [] :=
    fun hnot => followUpPagesOf_eq_nil transport (runTokens_getElem?_of_notMem
        hnot)
  by_contra hnone
  have hnot : purl ∉ (keptFirstPages options now cacheOpen.value
      (queryPurls components).toList transport).map Prod.fst := by
    intro hmem
    obtain ⟨served, hserved, rfl⟩ := List.mem_map.mp hmem
    exact hnone ⟨served.2, hserved⟩
  have hpages : last ∈ pagesOf purl (firstPages transport options
      (purlsToFetch options now cacheOpen.value
        (queryPurls components).toList)) := by
    have hmem := List.mem_of_getLast? hlast
    rw [pagesServed, servedPages] at hmem
    rcases List.mem_append.mp hmem with h | h
    · exact h
    · rw [show servedFollowUps options now cacheOpen.value _ transport purl =
        [] from hnotKept hnot] at h
      simp at h
  exact hnone ⟨last, List.mem_filter.mpr
    ⟨mem_pagesOf_iff.mp hpages, hwellFormed.isObject⟩⟩

/-- Behind the answers, a run leaves the cache entry of a purl that owns its
key alone. -/
theorem lookup_matchComponents {purl : String}
    (hpurls : (queryPurls components).toList ≠ [])
    (hkeys : OwnsCacheKey (queryPurls components).toList purl) :
    (matchComponents scoreCvssVector options now components transport
        cacheOpen).cache.lookup purl =
      (runAnswers options now transport components
        cacheOpen).value.cache.lookup purl := by
  rw [(matchComponents_of_ne_nil scoreCvssVector options now transport
    components cacheOpen hpurls).2.2.2, assembleAll_lookup]
  · exact examineAll_lookup scoreCvssVector options now _ _ _ purl
  · intro work hwork
    refine hkeys.hydration work.purl ?_
    -- hydrated purls are answered purls, and those were asked about
    have hpair := examineAll_work scoreCvssVector options now
      (runAnswers options now transport components
        cacheOpen).value.staleAnswerPurls
      (runAnswers options now transport components
        cacheOpen).value.payloadByPurl.toList
      { value := { cache := (runAnswers options now transport components
          cacheOpen).value.cache } }
    have hmem : (work.purl, work.advisoryRevisions) ∈ workOf
        (runAnswers options now transport components
          cacheOpen).value.payloadByPurl.toList := by
      rw [List.map_nil, List.nil_append] at hpair
      rw [← hpair]
      exact List.mem_map.mpr ⟨work, hwork, rfl⟩
    obtain ⟨⟨other, payload⟩, hanswer, hentry⟩ := List.mem_filterMap.mp hmem
    split_ifs at hentry
    obtain ⟨rfl, -⟩ := Prod.mk.inj (Option.some.inj hentry)
    exact answers_keys_subset
      (Option.isSome_of_eq_some (mem_toList_iff.mp hanswer))

/-- The cache a run leaves for a freshly fetched purl that owns its key. -/
theorem lookup_matchComponents_of_fresh (honline : options.offline = false)
    {purl : String} {firstPage : Json}
    (hfresh : (purl, firstPage) ∈ keptFirstPages options now cacheOpen.value
      (queryPurls components).toList transport)
    (hkeys : OwnsCacheKey (queryPurls components).toList purl)
    (hopen : cacheOpen.value.isSome = true) :
    (matchComponents scoreCvssVector options now components transport
        cacheOpen).cache.lookup purl =
      some
        { fetchedAtEpochSeconds := now
          payload := (finalDocument firstPage
            (followUpsServed options now components transport cacheOpen
              purl)).dump } := by
  have hfetch := keptFirstPages_keys_subset (List.mem_map_of_mem hfresh)
  rw [lookup_matchComponents scoreCvssVector
    (List.ne_nil_of_mem (List.mem_filter.mp hfetch).1) hkeys,
    runAnswers_of_online honline]
  exact onlineAnswers_lookup_of_fresh
    (nodup_toList_orderedSet _) hfresh hkeys.detection hopen

/-- A well-formed final document without a token is a complete answer. -/
theorem answeredComplete_of_finalDocument (honline : options.offline = false)
    {purl : String} {firstPage : Json}
    (hfresh : (purl, firstPage) ∈ keptFirstPages options now cacheOpen.value
      (queryPurls components).toList transport)
    (hkeys : OwnsCacheKey (queryPurls components).toList purl)
    (htoken : (finalDocument firstPage (followUpsServed options now components
      transport cacheOpen purl)).contains "next_page_token" = false)
    (hmalformed : (extractFromDocument (finalDocument firstPage
      (followUpsServed options now components transport cacheOpen
        purl))).malformed = false) :
    AnsweredComplete scoreCvssVector options now components transport cacheOpen
      purl := by
  have hextract := extract_of_fresh hfresh
  refine ⟨⟨_, runAnswers_of_fresh honline hfresh, ?_, ?_, ?_⟩, ?_⟩
  · rw [hextract, extractFromDocument_truncated]
    exact htoken
  · rw [hextract]
    exact hmalformed
  · exact lookup_matchComponents_of_fresh scoreCvssVector honline hfresh hkeys
  · intro page hpage id hid
    rw [reportsId_of_fresh scoreCvssVector honline hfresh hmalformed]
    exact ⟨page, hpage, hid⟩

variable (options now components transport cacheOpen) in
/-- A chain that ends with a well-formed page without a token is treated as
complete exactly when it is a single page or some follow-up page has a `vulns`
array. -/
theorem answeredComplete_iff {purl : String} {last : Json}
    (hpurl : purl ∈ queriedAfresh options now components cacheOpen)
    (hkeys : OwnsCacheKey (queryPurls components).toList purl)
    (hlast : (pagesServed options now components transport cacheOpen
      purl).getLast? = some last)
    (hwellFormed : IsWellFormedPage last)
    (hdone : last.contains "next_page_token" = false) :
    AnsweredComplete scoreCvssVector options now components transport cacheOpen
        purl ↔
      followUpsServed options now components transport cacheOpen purl = [] ∨
        ∃ page ∈ followUpsServed options now components transport cacheOpen
          purl, (page.findArray? "vulns").isSome = true := by
  have honline : options.offline = false := by
    by_contra h
    simp [queriedAfresh, h] at hpurl
  obtain ⟨firstPage, hfresh⟩ := exists_fresh_of_wellFormed_last hlast hwellFormed
  have hobject := (keptFirstPages_spec hfresh).1
  have hdropLast := pageToken?_of_mem_dropLast hfresh
  rw [pagesServed_of_fresh hfresh,
    List.getLast?_cons, Option.some.injEq] at hlast
  have hends : endsChain last = true := by
    simp [endsChain, hwellFormed.isObject,
      pageToken?_eq_none_of_not_contains hdone]
  have hkept := contains_token_finalDocument hobject
    (followUpsServed options now components transport cacheOpen purl)
  rw [hlast, hends] at hkept
  constructor
  · rintro ⟨⟨payload, hpayload, htruncated, -, -⟩, -⟩
    rw [runAnswers_of_fresh honline hfresh, Option.some.injEq] at hpayload
    rw [← hpayload, extract_of_fresh
      hfresh, extractFromDocument_truncated, hkept] at htruncated
    by_contra hnone
    obtain ⟨hpages, hvulns⟩ := not_or.mp hnone
    have hextra : extraOf (followUpsServed options now components transport
        cacheOpen purl) = none := by
      refine extraOf_eq_none_iff.mpr fun page hpage => ?_
      by_contra h
      exact hvulns ⟨page, hpage, Option.isSome_iff_ne_none.mpr h⟩
    -- a chain of several pages starts with a token
    have hfirst : (pageToken? firstPage).isSome = true := by
      refine hdropLast firstPage ?_
      obtain ⟨page, pages, heq⟩ := List.exists_cons_of_ne_nil hpages
      rw [heq]
      simp
    have htoken : firstPage.contains "next_page_token" = true := by
      by_contra h
      rw [pageToken?_eq_none_of_not_contains (by simpa using h)] at hfirst
      simp at hfirst
    simp [hextra, htoken] at htruncated
  · rintro (hnil | ⟨page, hpage, hvulns⟩)
    · rw [hnil] at hlast hkept
      obtain rfl : firstPage = last := hlast
      refine answeredComplete_of_finalDocument scoreCvssVector honline hfresh
        hkeys ?_ ?_
      · rw [hnil, hkept, hdone]
        rfl
      · exact not_malformed_finalDocument hobject (Or.inr hwellFormed.vulns)
    · have hextra : extraOf (followUpsServed options now components
          transport cacheOpen purl) ≠ none := fun hnone => by
        simp [extraOf_eq_none_iff.mp hnone page hpage] at hvulns
      refine answeredComplete_of_finalDocument scoreCvssVector honline hfresh
        hkeys ?_ ?_
      · simp [hkept, Option.isNone_eq_false_iff.mpr
          (Option.isSome_iff_ne_none.mpr hextra)]
      · exact not_malformed_finalDocument hobject (Or.inl hextra)

end Run

/-- A run over two pages that both have a `vulns` array. -/
theorem answeredComplete_iff_two_pages :
    let pages := [samplePage ["A"] (some (.string "t")), samplePage ["B"] none]
    AnsweredComplete (fun _ => {}) {} 1000 [{ purl := samplePurl }]
        (sampleServer pages) { value := some {} } samplePurl ↔
      followUpsServed {} 1000 [{ purl := samplePurl }] (sampleServer pages)
          { value := some {} } samplePurl = [] ∨
        ∃ page ∈ followUpsServed {} 1000 [{ purl := samplePurl }]
          (sampleServer pages) { value := some {} } samplePurl,
          (page.findArray? "vulns").isSome = true := by
  have hlast : (sampleServed (some {})
      [samplePage ["A"] (some (.string "t")), samplePage ["B"] none]).getLast?.map
        (fun page => (page.isObject, (page.findArray? "vulns").isSome,
          page.contains "next_page_token")) = some (true, true, false) := by
    decide
  obtain ⟨last, hlast, hfacts⟩ := Option.map_eq_some_iff.mp hlast
  simp only [Prod.mk.injEq] at hfacts
  obtain ⟨hobject, hvulns, hdone⟩ := hfacts
  have hwellFormed : IsWellFormedPage last :=
    ⟨hobject, fun _ => hvulns, fun token htoken => by
      simp [Json.contains, htoken] at hdone⟩
  exact answeredComplete_iff (fun _ => {}) {} 1000 [{ purl := samplePurl }]
    (sampleServer
      [samplePage ["A"] (some (.string "t")), samplePage ["B"] none])
    { value := some {} } (by decide) (ownsCacheKey_of_plain (by decide)) hlast
    hwellFormed hdone

/-- A last page without a `vulns` member leaves the answer truncated. -/
theorem not_answeredComplete_of_empty_page :
    let pages := [samplePage ["A"] (some (.string "t")), .object []]
    (sampleServed (some {}) pages).getLast?.map
        (·.contains "next_page_token") = some false ∧
      ¬ AnsweredComplete (fun _ => {}) {} 1000 [{ purl := samplePurl }]
        (sampleServer pages) { value := some {} } samplePurl := by
  refine ⟨by decide, ?_⟩
  rintro ⟨⟨payload, hpayload, htruncated, -⟩, -⟩
  have hflag : (runAnswers {} 1000
      (sampleServer [samplePage ["A"] (some (.string "t")), .object []])
      [{ purl := samplePurl }]
      { value := some {} }).value.payloadByPurl[samplePurl]?.map
        (fun payload => (extractAdvisoryRevisions payload).truncated) =
          some true := by
    decide
  rw [hpayload, Option.map_some, htruncated] at hflag
  exact absurd hflag (by decide)

end Bomwerk.Vuln
