import Bomwerk.Vuln.Osv.Pages

/-!
# The answers of a run

What `match_components` works from once the network is done: which purls were
freshly fetched, the payload each of them ends up with, and what the cache
holds for it.
-/

namespace Bomwerk.Vuln

open Bomwerk.Core Bomwerk.Support

/-! ## Batches -/

theorem flatMap_range_take_drop (limit count : Nat) (purls : List String) :
    ((List.range count).flatMap fun index =>
      (purls.drop (index * limit)).take limit) =
      purls.take (count * limit) := by
  induction count with
  | zero => simp
  | succ count ih =>
    rw [List.range_succ, List.flatMap_append, ih, Nat.succ_mul, List.take_add]
    simp

theorem batches_flatten {limit : Nat} (hlimit : 0 < limit)
    (purls : List String) : (batches limit purls).flatten = purls := by
  rw [batches, ← List.flatMap_def, flatMap_range_take_drop]
  refine List.take_of_length_le ?_
  have hdiv := Nat.lt_div_mul_add (a := purls.length + limit - 1) hlimit
  omega

theorem batchSizeLimit_pos (options : MatchOptions) :
    0 < options.batchSizeLimit :=
  Nat.lt_of_lt_of_le Nat.zero_lt_one (Nat.le_max_left _ _)

def batchPages (transport : Transport) (batch : List String × Nat) :
    List (String × Json) :=
  batch.1.zip
    ((usableResults (batchResponse transport batch.2 batch.1).value).getD [])

def firstPages (transport : Transport) (options : MatchOptions)
    (purls : List String) : List (String × Json) :=
  (batches options.batchSizeLimit purls).zipIdx.flatMap (batchPages transport)

theorem map_fst_zip_sublist {α β : Type*} (keys : List α) (values : List β) :
    ((keys.zip values).map Prod.fst).Sublist keys := by
  induction keys generalizing values with
  | nil => simp
  | cons key keys ih =>
    cases values with
    | nil => simp
    | cons value values => exact (ih values).cons_cons key

theorem flatMap_batchPages_keys_sublist (transport : Transport)
    (batches : List (List String × Nat)) :
    ((batches.flatMap (batchPages transport)).map Prod.fst).Sublist
      (batches.map Prod.fst).flatten := by
  induction batches with
  | nil => simp
  | cons batch batches ih =>
    rw [List.flatMap_cons, List.map_append, List.map_cons, List.flatten_cons]
    exact (map_fst_zip_sublist _ _).append ih

theorem firstPages_keys_sublist (transport : Transport)
    (options : MatchOptions) (purls : List String) :
    ((firstPages transport options purls).map Prod.fst).Sublist purls := by
  have h := flatMap_batchPages_keys_sublist transport
    (batches options.batchSizeLimit purls).zipIdx
  rwa [List.zipIdx_map_fst, batches_flatten (batchSizeLimit_pos options)] at h

theorem depth_add_two_le_of_usableResults {response : HttpResponse}
    {results : List Json} (hresults : usableResults response = some results)
    {page : Json} (hpage : page ∈ results) :
    page.depth + 2 ≤ maxJsonNestingDepth := by
  unfold usableResults at hresults
  split_ifs at hresults
  obtain ⟨document, hparse, hfind⟩ := Option.bind_eq_some_iff.mp hresults
  have hdocument := (parseBoundedJson_eq_some_iff.mp hparse).2
  unfold Json.findArray? at hfind
  split at hfind
  · next items hitems =>
      obtain rfl := Option.some.inj hfind
      have h := Json.depth_lt_of_mem hpage
      have h' := Json.depth_lt_of_find? hitems
      omega
  · simp at hfind

theorem firstPages_depth {transport : Transport} {options : MatchOptions}
    {purls : List String} {served : String × Json}
    (hserved : served ∈ firstPages transport options purls) :
    served.2.depth + 2 ≤ maxJsonNestingDepth := by
  obtain ⟨batch, -, hmem⟩ := List.mem_flatMap.mp hserved
  have hpage := (List.of_mem_zip (a := served.1) (b := served.2) hmem).2
  cases hresults : usableResults
      (batchResponse transport batch.2 batch.1).value with
  | none => simp [hresults] at hpage
  | some results =>
    rw [hresults] at hpage
    exact depth_add_two_le_of_usableResults hresults hpage

def freshPages (transport : Transport) (options : MatchOptions)
    (purls : List String) : List (String × Json) :=
  (firstPages transport options purls).filter fun served => served.2.isObject

/-- Pages as the payloads the run stores. -/
def payloadsOf (pages : List (String × Json)) : List (String × JsonText) :=
  pages.map fun served => (served.1, served.2.dump)

/-- The cache after a loop that stores every payload. -/
def storeAll (now : Int) (cache : VulnCache)
    (payloads : List (String × JsonText)) : VulnCache :=
  payloads.foldl (fun cache (purl, payload) => cache.store purl now payload)
    cache

/-- `storeEntry`, on the value alone. -/
def storePage (now : Int) (state : FetchState) (served : String × Json) :
    FetchState :=
  if served.2.isObject then
    { cache := state.cache.store served.1 now served.2.dump
      payloadByPurl := state.payloadByPurl.insert served.1 served.2.dump
      freshlyFetchedPurls := state.freshlyFetchedPurls ++ [served.1] }
  else state

theorem storeEntry_value (now : Int) (state : Result FetchState)
    (served : String × Json) :
    (storeEntry now state served).value = storePage now state.value served := by
  obtain ⟨purl, page⟩ := served
  simp only [storeEntry, storePage]
  cases page.isObject <;> rfl

theorem foldl_storeEntry_value (now : Int) (pages : List (String × Json))
    (state : Result FetchState) :
    (pages.foldl (storeEntry now) state).value =
      pages.foldl (storePage now) state.value := by
  induction pages generalizing state with
  | nil => rfl
  | cons served pages ih =>
    rw [List.foldl_cons, ih, storeEntry_value, List.foldl_cons]

theorem processBatch_value (transport : Transport) (now : Int)
    (state : Result FetchState) (batch : List String × Nat) :
    (processBatch transport now state batch).value =
      (batchPages transport batch).foldl (storePage now) state.value := by
  unfold processBatch batchPages
  cases hresults : usableResults
      (batchResponse transport batch.2 batch.1).value with
  | none => simp [hresults]
  | some results => simp [hresults, foldl_storeEntry_value]

theorem foldl_processBatch_value (transport : Transport) (now : Int)
    (batches : List (List String × Nat)) (state : Result FetchState) :
    (batches.foldl (processBatch transport now) state).value =
      (batches.flatMap (batchPages transport)).foldl (storePage now)
        state.value := by
  induction batches generalizing state with
  | nil => rfl
  | cons batch batches ih =>
    rw [List.foldl_cons, ih, processBatch_value, List.flatMap_cons,
      List.foldl_append]

theorem foldl_storePage (now : Int) (pages : List (String × Json))
    (state : FetchState) :
    pages.foldl (storePage now) state =
      { cache := storeAll now state.cache
          (payloadsOf (pages.filter fun served => served.2.isObject))
        payloadByPurl := insertAll state.payloadByPurl
          (payloadsOf (pages.filter fun served => served.2.isObject))
        freshlyFetchedPurls := state.freshlyFetchedPurls ++
          (pages.filter fun served => served.2.isObject).map Prod.fst } := by
  induction pages generalizing state with
  | nil => simp [storeAll, insertAll, payloadsOf]
  | cons served pages ih =>
    rw [List.foldl_cons, ih]
    cases hobject : served.2.isObject <;>
      simp [storePage, hobject, storeAll, insertAll, payloadsOf]

@[simp] theorem payloadsOf_keys (pages : List (String × Json)) :
    (payloadsOf pages).map Prod.fst = pages.map Prod.fst := by
  simp [payloadsOf, Function.comp_def]

@[simp] theorem isSome_storeAll (now : Int) (cache : VulnCache)
    (payloads : List (String × JsonText)) :
    (storeAll now cache payloads).isSome = cache.isSome := by
  induction payloads generalizing cache with
  | nil => rfl
  | cons payload payloads ih =>
    exact (ih _).trans (VulnCache.isSome_store _ _ _ _)

theorem lookup_storeAll_of_ne {now : Int} {purl : String}
    {payloads : List (String × JsonText)}
    (hkeys : ∀ other ∈ payloads.map Prod.fst, cString other ≠ cString purl)
    (cache : VulnCache) :
    (storeAll now cache payloads).lookup purl = cache.lookup purl := by
  induction payloads generalizing cache with
  | nil => rfl
  | cons payload payloads ih =>
    change (storeAll now (cache.store payload.1 now payload.2)
      payloads).lookup purl = _
    have hne : cString purl ≠ cString payload.1 :=
      Ne.symm (hkeys payload.1 (by simp))
    rw [ih fun other h => hkeys other (by simp [h]), VulnCache.lookup_store,
      if_neg fun h => hne h.2]

/-- A purl that shares its key with no other stored purl finds its payload. -/
theorem lookup_storeAll_of_mem {now : Int} {purl : String}
    {payload : JsonText} {payloads : List (String × JsonText)}
    (hnodup : (payloads.map Prod.fst).Nodup)
    (hmem : (purl, payload) ∈ payloads)
    (hkeys : ∀ other ∈ payloads.map Prod.fst, other ≠ purl →
      cString other ≠ cString purl)
    {cache : VulnCache} (hopen : cache.isSome = true) :
    (storeAll now cache payloads).lookup purl =
      some { fetchedAtEpochSeconds := now, payload := payload } := by
  induction payloads generalizing cache with
  | nil => simp at hmem
  | cons head payloads ih =>
    rw [List.map_cons, List.nodup_cons] at hnodup
    change (storeAll now (cache.store head.1 now head.2)
      payloads).lookup purl = _
    rcases List.mem_cons.mp hmem with rfl | hmem
    · rw [lookup_storeAll_of_ne, VulnCache.lookup_store, if_pos ⟨hopen, rfl⟩]
      intro other hother
      exact hkeys other (by simp [hother]) fun h => hnodup.1 (h ▸ hother)
    · exact ih hnodup.2 hmem (fun other h => hkeys other (by simp [h]))
        (by simpa using hopen)

@[simp] theorem snapshotRows_storeAll (now : Int) (cache : VulnCache)
    (payloads : List (String × JsonText)) (key : String) :
    (storeAll now cache payloads).snapshotRows key =
      cache.snapshotRows key := by
  induction payloads generalizing cache with
  | nil => rfl
  | cons payload payloads ih =>
    exact (ih _).trans (VulnCache.snapshotRows_store _ _ _ _ _)

/-! ## Merging -/

/-- What the merge loop stores for one purl; nothing when it skips the purl. -/
def mergedPair? (incomplete : Finset String)
    (payloadByPurl : OrderedMap String JsonText)
    (accumulated : String × List Json) : Option (String × JsonText) :=
  ((payloadByPurl[accumulated.1]?.bind parseBoundedJson).filter
    Json.isObject).map fun firstPage =>
      (accumulated.1, (mergedDocument firstPage accumulated.2
          (accumulated.1 ∈ incomplete)).dump)

theorem mergePages_eq (now : Int) (incomplete : Finset String)
    (state : VulnCache × OrderedMap String JsonText)
    (accumulated : String × List Json) :
    mergePages now incomplete state accumulated =
      match mergedPair? incomplete state.2 accumulated with
      | some (purl, payload) =>
        (state.1.store purl now payload, state.2.insert purl payload)
      | none => state := by
  obtain ⟨purl, extra⟩ := accumulated
  simp only [mergePages, mergedPair?]
  cases hpayload : state.2[purl]? with
  | none => simp
  | some payload =>
    cases hparse : parseBoundedJson payload with
    | none => simp [hparse]
    | some firstPage =>
      cases hobject : firstPage.isObject <;>
        simp [hparse, hobject, Option.filter]

theorem foldl_mergePages (now : Int) (incomplete : Finset String)
    {accumulated : List (String × List Json)}
    (hnodup : (accumulated.map Prod.fst).Nodup)
    (state : VulnCache × OrderedMap String JsonText) :
    accumulated.foldl (mergePages now incomplete) state = (storeAll now state.1
          (accumulated.filterMap (mergedPair? incomplete state.2)),
        insertAll state.2
          (accumulated.filterMap (mergedPair? incomplete state.2))) := by
  induction accumulated generalizing state with
  | nil => rfl
  | cons head accumulated ih =>
    rw [List.map_cons, List.nodup_cons] at hnodup
    rw [List.foldl_cons, ih hnodup.2, mergePages_eq]
    cases hpair : mergedPair? incomplete state.2 head with
    | none => simp [hpair]
    | some pair =>
      have hkey : pair.1 = head.1 := by
        obtain ⟨firstPage, -, rfl⟩ := Option.map_eq_some_iff.mp hpair
        rfl
      have hrest : accumulated.filterMap (mergedPair? incomplete
            (state.2.insert pair.1 pair.2)) =
          accumulated.filterMap (mergedPair? incomplete state.2) := by
        refine List.filterMap_congr fun other hother => ?_
        have hne : other.1 ≠ pair.1 := fun h =>
          hnodup.1 (hkey ▸ h ▸ List.mem_map_of_mem hother)
        rw [mergedPair?, mergedPair?, getElem?_insert_eq, if_neg hne]
      simp only [List.filterMap_cons, hpair, hrest]
      rfl

theorem mergedPair?_keys_sublist (incomplete : Finset String)
    (payloadByPurl : OrderedMap String JsonText)
    (accumulated : List (String × List Json)) :
    ((accumulated.filterMap (mergedPair? incomplete payloadByPurl)).map
      Prod.fst).Sublist (accumulated.map Prod.fst) := by
  induction accumulated with
  | nil => simp
  | cons head accumulated ih =>
    cases hpair : mergedPair? incomplete payloadByPurl head with
    | none => simpa [hpair] using ih.cons head.1
    | some pair =>
      obtain ⟨firstPage, -, rfl⟩ := Option.map_eq_some_iff.mp hpair
      simpa [List.filterMap_cons, hpair] using ih.cons_cons head.1

theorem depth_add_two_le_of_mem_pageVulns {page advisory : Json} {n : Nat}
    (hpage : page.depth ≤ n) (hadvisory : advisory ∈ pageVulns page) :
    advisory.depth + 2 ≤ n := by
  unfold pageVulns Json.findArray? at hadvisory
  split at hadvisory
  · next items hitems =>
      have h := Json.depth_lt_of_mem hadvisory
      have h' := Json.depth_lt_of_find? hitems
      simp only [Option.getD_some] at h
      omega
  · simp at hadvisory

/-- Merging keeps the nesting bound of the pages. -/
theorem mergedDocument_depth_le {firstPage : Json} {extra : List Json} {n : Nat}
    (hfirst : firstPage.depth + 2 ≤ n)
    (hextra : ∀ advisory ∈ extra, advisory.depth + 2 ≤ n) (incomplete : Bool) :
    (mergedDocument firstPage extra incomplete).depth ≤ n := by
  have hset : (firstPage.set "vulns"
      (.array (pageVulns firstPage ++ extra))).depth ≤ n := by
    have harray : (Json.array (pageVulns firstPage ++ extra)).depth + 1 ≤ n := by
      obtain ⟨m, rfl⟩ : ∃ m, n = m + 2 := ⟨n - 2, by omega⟩
      have hitems : Json.itemsDepth (pageVulns firstPage ++ extra) ≤ m := by
        rw [Json.itemsDepth_le_iff]
        intro advisory hadvisory
        rcases List.mem_append.mp hadvisory with h | h
        · have := depth_add_two_le_of_mem_pageVulns (le_refl _) h
          omega
        · have := hextra advisory h
          omega
      simp only [Json.depth]
      omega
    cases firstPage with
    | object members => exact Json.depth_set_object_le (by omega) harray
    | null =>
      simp only [Json.set, Json.depth, Json.membersDepth] at harray ⊢
      omega
    | _ => simp only [Json.set, Json.depth] at hfirst ⊢; omega
  unfold mergedDocument
  cases incomplete
  · exact (Json.depth_erase_le _ _).trans hset
  · exact hset

/-! ## The run -/

theorem followUps_depth {transport : Transport} {roundsLeft round : Nat}
    {tokens : OrderedMap String String} {served : String × Json}
    (hserved : served ∈ followUps transport roundsLeft round tokens) :
    served.2.depth + 2 ≤ maxJsonNestingDepth := by
  induction roundsLeft generalizing round tokens with
  | zero => simp [followUps] at hserved
  | succ roundsLeft ih =>
    unfold followUps at hserved
    split_ifs at hserved
    · simp at hserved
    · cases hpages : followUpPages
          (followUpResponse transport round tokens).value tokens with
      | none => simp [hpages] at hserved
      | some pages =>
        rw [hpages] at hserved
        rcases List.mem_append.mp hserved with hmem | hmem
        · obtain ⟨results, hresults, hzip⟩ :=
            Option.bind_eq_some_iff.mp hpages
          split_ifs at hzip
          obtain rfl := Option.some.inj hzip
          exact depth_add_two_le_of_usableResults hresults
            (List.of_mem_zip (a := served.1) (b := served.2) hmem).2
        · exact ih hmem

/-- The payload document of a freshly fetched purl: its first page, merged with
its follow-up pages when one of them has a `vulns` array. -/
def finalDocument (firstPage : Json) (followUpPages : List Json) : Json :=
  match extraOf followUpPages with
  | some extra =>
    mergedDocument firstPage extra
      (!endsChain (followUpPages.getLast?.getD firstPage))
  | none => firstPage

section Run

variable (options : MatchOptions) (now : Int) (cache : VulnCache)
  (purls : List String) (transport : Transport)

def keptFirstPages : List (String × Json) :=
  freshPages transport options (purlsToFetch options now cache purls)

def runTokens : OrderedMap String String :=
  firstPageTokens
    (fetched options now cache purls transport).value.freshlyFetchedPurls
    (staleUse options now cache purls transport).payloadByPurl

def servedFollowUps (purl : String) : List Json :=
  followUpPagesOf transport (runTokens options now cache purls transport) purl

def servedPages (purl : String) : List Json :=
  pagesOf purl
      (firstPages transport options (purlsToFetch options now cache purls)) ++
    servedFollowUps options now cache purls transport purl

variable {options now cache purls transport}

theorem servedFollowUps_depth {purl : String} {page : Json}
    (hpage : page ∈ servedFollowUps options now cache purls transport purl) :
    page.depth + 2 ≤ maxJsonNestingDepth :=
  followUps_depth (mem_pagesOf_iff.mp hpage)

theorem fetched_value :
    (fetched options now cache purls transport).value =
      { cache := storeAll now cache
          (payloadsOf (keptFirstPages options now cache purls transport))
        payloadByPurl := insertAll (freshPayloads options now cache purls)
          (payloadsOf (keptFirstPages options now cache purls transport))
        freshlyFetchedPurls :=
          (keptFirstPages options now cache purls transport).map Prod.fst } := by
  rw [fetched, fetchBatches, foldl_processBatch_value, foldl_storePage]
  rfl

theorem foldl_fallBack_getElem?_of_some
    (stale : OrderedMap String JsonText) (list : List String)
    {purl : String} {payload : JsonText} (use : StaleUse)
    (hpayload : use.payloadByPurl[purl]? = some payload) :
    (list.foldl (fallBack stale) use).payloadByPurl[purl]? = some payload := by
  induction list generalizing use with
  | nil => exact hpayload
  | cons other list ih =>
    rw [List.foldl_cons]
    refine ih _ ?_
    unfold fallBack
    split_ifs with hcontains
    · exact hpayload
    · have hne : purl ≠ other := by
        rintro rfl
        refine hcontains ?_
        rw [Std.ExtTreeMap.contains_eq_isSome_getElem?, hpayload]
        rfl
      unfold answerFromStale
      cases stale[other]? with
      | none => exact hpayload
      | some old => simpa [getElem?_insert_eq, hne] using hpayload

theorem fallBack_counts_mono (stale : OrderedMap String JsonText)
    (list : List String) (use : StaleUse) :
    use.staleUsedCount + use.missingCount ≤
      (list.foldl (fallBack stale) use).staleUsedCount +
        (list.foldl (fallBack stale) use).missingCount := by
  induction list generalizing use with
  | nil => exact le_refl _
  | cons other list ih =>
    refine le_trans ?_ (ih _)
    unfold fallBack answerFromStale
    split_ifs
    · exact le_refl _
    · cases stale[other]? <;> simp only <;> omega

/-- A fall-back loop that used nothing found every purl answered. -/
theorem contains_of_fallBack_counts (stale : OrderedMap String JsonText)
    (list : List String) (use : StaleUse)
    (hcounts : (list.foldl (fallBack stale) use).staleUsedCount +
      (list.foldl (fallBack stale) use).missingCount = 0) :
    ∀ purl ∈ list, use.payloadByPurl.contains purl = true := by
  induction list with
  | nil => simp
  | cons other list ih =>
    have hcontains : use.payloadByPurl.contains other = true := by
      by_contra h
      have hmono := fallBack_counts_mono stale list (fallBack stale use other)
      rw [List.foldl_cons] at hcounts
      have hturn : 0 < (fallBack stale use other).staleUsedCount +
          (fallBack stale use other).missingCount := by
        rw [fallBack, if_neg h, answerFromStale]
        cases stale[other]? <;> simp only <;> omega
      omega
    have hturn : fallBack stale use other = use := by
      rw [fallBack, if_pos hcontains]
    rw [List.foldl_cons, hturn] at hcounts
    intro purl hpurl
    rcases List.mem_cons.mp hpurl with rfl | hmem
    · exact hcontains
    · exact ih hcounts purl hmem

/-- When the fall-back loop used nothing, every fetched purl was served an
object as its first page. -/
theorem exists_fresh_of_counts
    (hcounts : (staleUse options now cache purls transport).staleUsedCount +
      (staleUse options now cache purls transport).missingCount = 0)
    {purl : String} (hpurl : purl ∈ purlsToFetch options now cache purls) :
    ∃ firstPage, (purl, firstPage) ∈
      keptFirstPages options now cache purls transport := by
  have hcontains := contains_of_fallBack_counts _ _ _ hcounts purl hpurl
  rw [fetched_value, Std.ExtTreeMap.contains_eq_isSome_getElem?] at hcontains
  by_contra hnot
  have hkeys : purl ∉ (payloadsOf
      (keptFirstPages options now cache purls transport)).map Prod.fst := by
    rw [payloadsOf_keys]
    intro hmem
    obtain ⟨served, hserved, rfl⟩ := List.mem_map.mp hmem
    exact hnot ⟨served.2, hserved⟩
  rw [insertAll_getElem?_of_notMem hkeys, freshPayloads,
    collect_getElem?] at hcontains
  have hstale := (List.mem_filter.mp hpurl).2
  split_ifs at hcontains
  · rw [Option.isNone_iff_eq_none] at hstale
    simp [hstale] at hcontains
  · simp at hcontains

variable (hnodup : purls.Nodup)

include hnodup

theorem keptFirstPages_nodup :
    ((keptFirstPages options now cache purls transport).map Prod.fst).Nodup := by
  have hsublist := firstPages_keys_sublist transport options
    (purlsToFetch options now cache purls)
  have hkept : ((keptFirstPages options now cache purls transport).map
      Prod.fst).Sublist ((firstPages transport options
        (purlsToFetch options now cache purls)).map Prod.fst) :=
    List.Sublist.map Prod.fst List.filter_sublist
  exact (hnodup.sublist List.filter_sublist).sublist (hkept.trans hsublist)

theorem firstPages_nodup :
    ((firstPages transport options
      (purlsToFetch options now cache purls)).map Prod.fst).Nodup :=
  (hnodup.sublist List.filter_sublist).sublist
    (firstPages_keys_sublist transport options _)

variable {purl : String} {firstPage : Json}

theorem staleUse_getElem?_of_fresh
    (hfresh : (purl, firstPage) ∈
      keptFirstPages options now cache purls transport) :
    (staleUse options now cache purls transport).payloadByPurl[purl]? =
      some firstPage.dump := by
  refine foldl_fallBack_getElem?_of_some _ _ _ ?_
  rw [fetched_value]
  refine insertAll_getElem?_of_mem ?_ ?_ _
  · rw [payloadsOf_keys]
    exact keptFirstPages_nodup hnodup
  · exact List.mem_map_of_mem hfresh

omit hnodup in
theorem keptFirstPages_spec
    (hfresh : (purl, firstPage) ∈
      keptFirstPages options now cache purls transport) :
    firstPage.isObject = true ∧ firstPage.depth + 2 ≤ maxJsonNestingDepth := by
  obtain ⟨hmem, hobject⟩ := List.mem_filter.mp hfresh
  exact ⟨hobject, firstPages_depth hmem⟩

theorem parseBoundedJson_of_fresh
    (hfresh : (purl, firstPage) ∈
      keptFirstPages options now cache purls transport) :
    (staleUse options now cache purls transport).payloadByPurl[purl]?.bind
      parseBoundedJson = some firstPage := by
  have hdepth := (keptFirstPages_spec hfresh).2
  rw [staleUse_getElem?_of_fresh hnodup
    hfresh, Option.bind_some, parseBoundedJson_dump (by omega)]

theorem runTokens_getElem?_of_fresh
    (hfresh : (purl, firstPage) ∈
      keptFirstPages options now cache purls transport) :
    (runTokens options now cache purls transport)[purl]? =
      pageToken? firstPage := by
  rw [runTokens, firstPageTokens, collect_getElem?, fetched_value,
    if_pos (List.mem_map_of_mem hfresh),
    parseBoundedJson_of_fresh hnodup hfresh,
    Option.bind_some]

omit hnodup in
theorem runTokens_getElem?_of_notMem
    (hpurl : purl ∉
      (keptFirstPages options now cache purls transport).map Prod.fst) :
    (runTokens options now cache purls transport)[purl]? = none := by
  rw [runTokens, firstPageTokens, collect_getElem?, fetched_value, if_neg hpurl]

theorem paginated_of_fresh
    (hfresh : (purl, firstPage) ∈
      keptFirstPages options now cache purls transport) :
    let followUps := servedFollowUps options now cache purls transport purl
    let paginated := (paginated options now cache purls transport).value
    paginated.extraVulnsByPurl[purl]? = extraOf followUps ∧
      (purl ∈ paginated.incompletePaginationPurls ↔
        endsChain (followUps.getLast?.getD firstPage) = false) := by
  refine ⟨(paginate_spec transport _ purl).2.2, ?_⟩
  exact mem_incompletePaginationPurls_iff transport _
    (keptFirstPages_spec hfresh).1
    (runTokens_getElem?_of_fresh hnodup hfresh)

variable (options now cache purls transport) in
/-- What the merge loop of a run stores. -/
def mergedPairs : List (String × JsonText) :=
  let paginated := (paginated options now cache purls transport).value
  paginated.extraVulnsByPurl.toList.filterMap
    (mergedPair? paginated.incompletePaginationPurls
      (staleUse options now cache purls transport).payloadByPurl)

omit hnodup in
theorem onlineAnswers_value :
    (onlineAnswers options now cache purls transport).value =
      { cache := storeAll now
          (fetched options now cache purls transport).value.cache
          (mergedPairs options now cache purls transport)
        payloadByPurl := insertAll
          (staleUse options now cache purls transport).payloadByPurl
          (mergedPairs options now cache purls transport)
        staleAnswerPurls :=
          (staleUse options now cache purls transport).staleAnswerPurls } := by
  have hmerge := foldl_mergePages now
    (paginated options now cache purls
      transport).value.incompletePaginationPurls
    (nodup_keys_toList
      (paginated options now cache purls transport).value.extraVulnsByPurl)
    ((fetched options now cache purls transport).value.cache,
      (staleUse options now cache purls transport).payloadByPurl)
  simp only [onlineAnswers, Result.absorb_value, Result.warnIf_value, hmerge]
  rfl

omit hnodup in
theorem mergedPairs_nodup :
    ((mergedPairs options now cache purls transport).map Prod.fst).Nodup :=
  (nodup_keys_toList _).sublist (mergedPair?_keys_sublist _ _ _)

/-- A purl is merged exactly when a follow-up page brought a `vulns` array. -/
theorem mem_mergedPairs_of_fresh
    (hfresh : (purl, firstPage) ∈
      keptFirstPages options now cache purls transport)
    {extra : List Json}
    (hextra : extraOf (servedFollowUps options now cache purls transport
      purl) = some extra) :
    (purl, (finalDocument firstPage
        (servedFollowUps options now cache purls transport purl)).dump) ∈
      mergedPairs options now cache purls transport := by
  obtain ⟨htable, hincomplete⟩ :=
    paginated_of_fresh hnodup hfresh
  refine List.mem_filterMap.mpr
    ⟨(purl, extra), mem_toList_iff.mpr (htable.trans hextra), ?_⟩
  have hobject := (keptFirstPages_spec hfresh).1
  simp only [mergedPair?, parseBoundedJson_of_fresh hnodup hfresh,
    Option.filter, hobject, if_true, Option.map_some, finalDocument, hextra,
    hincomplete]
  cases endsChain ((servedFollowUps options now cache purls transport
    purl).getLast?.getD firstPage) <;> rfl

theorem notMem_mergedPairs_of_fresh
    (hfresh : (purl, firstPage) ∈
      keptFirstPages options now cache purls transport)
    (hextra : extraOf (servedFollowUps options now cache purls transport
      purl) = none) :
    purl ∉ (mergedPairs options now cache purls transport).map Prod.fst := by
  intro hmem
  have htable :=
    (paginated_of_fresh hnodup hfresh).1
  have hkey := mem_keys_toList_iff.mp
    ((mergedPair?_keys_sublist _ _ _).subset hmem)
  simp [htable, hextra] at hkey

omit hnodup in
theorem mergedPairs_keys_subset {other : String}
    (hother : other ∈
      (mergedPairs options now cache purls transport).map Prod.fst) :
    other ∈ (keptFirstPages options now cache purls transport).map
      Prod.fst := by
  by_contra hnot
  have htoken := runTokens_getElem?_of_notMem hnot
  have hextra := (paginate_spec transport
    (runTokens options now cache purls transport) other).2.2
  rw [followUpPagesOf_eq_nil transport htoken] at hextra
  have hkey := mem_keys_toList_iff.mp
    ((mergedPair?_keys_sublist _ _ _).subset hother)
  rw [show (paginated options now cache purls transport).value =
    (paginate transport (runTokens options now cache purls transport)).value
    from rfl, hextra] at hkey
  simp [extraOf] at hkey

omit hnodup in
theorem keptFirstPages_keys_subset {other : String}
    (hother : other ∈
      (keptFirstPages options now cache purls transport).map Prod.fst) :
    other ∈ purlsToFetch options now cache purls := by
  obtain ⟨served, hserved, rfl⟩ := List.mem_map.mp hother
  exact (firstPages_keys_sublist transport options _).subset
    (List.mem_map_of_mem (List.mem_filter.mp hserved).1)

/-- The payload a freshly fetched purl ends up with. -/
theorem onlineAnswers_getElem?_of_fresh
    (hfresh : (purl, firstPage) ∈
      keptFirstPages options now cache purls transport) :
    (onlineAnswers options now cache purls transport).value.payloadByPurl[
        purl]? =
      some (finalDocument firstPage
        (servedFollowUps options now cache purls transport purl)).dump := by
  rw [onlineAnswers_value]
  cases hextra : extraOf (servedFollowUps options now cache purls transport
      purl) with
  | some extra =>
    exact insertAll_getElem?_of_mem mergedPairs_nodup
      (mem_mergedPairs_of_fresh hnodup hfresh hextra) _
  | none =>
    rw [insertAll_getElem?_of_notMem (notMem_mergedPairs_of_fresh hnodup
        hfresh hextra),
      staleUse_getElem?_of_fresh hnodup hfresh, finalDocument, hextra]

/-- The cache entry of a freshly fetched purl, when the run is the only user of
its key. -/
theorem onlineAnswers_lookup_of_fresh
    (hfresh : (purl, firstPage) ∈
      keptFirstPages options now cache purls transport)
    (hkeys : ∀ other ∈ purls, other ≠ purl → cString other ≠ cString purl)
    (hopen : cache.isSome = true) :
    (onlineAnswers options now cache purls transport).value.cache.lookup purl =
      some
        { fetchedAtEpochSeconds := now
          payload := (finalDocument firstPage
            (servedFollowUps options now cache purls transport purl)).dump } := by
  have hkept : ∀ other ∈ (keptFirstPages options now cache purls
      transport).map Prod.fst, other ≠ purl →
      cString other ≠ cString purl := fun other h =>
    hkeys other (List.mem_filter.mp (keptFirstPages_keys_subset h)).1
  have hmerged : ∀ other ∈ (mergedPairs options now cache purls
      transport).map Prod.fst, other ≠ purl →
      cString other ≠ cString purl := fun other h =>
    hkept other (mergedPairs_keys_subset h)
  rw [onlineAnswers_value]
  cases hextra : extraOf (servedFollowUps options now cache purls transport
      purl) with
  | some extra =>
    refine lookup_storeAll_of_mem mergedPairs_nodup
      (mem_mergedPairs_of_fresh hnodup hfresh hextra) hmerged ?_
    rw [fetched_value, isSome_storeAll]
    exact hopen
  | none =>
    have hnot := notMem_mergedPairs_of_fresh hnodup hfresh hextra
    rw [lookup_storeAll_of_ne fun other h => hmerged other h fun heq =>
      hnot (heq ▸ h)]
    rw [fetched_value, finalDocument, hextra]
    have hstored : (purl, firstPage.dump) ∈ payloadsOf
        (keptFirstPages options now cache purls transport) :=
      List.mem_map.mpr ⟨(purl, firstPage), hfresh, rfl⟩
    refine lookup_storeAll_of_mem ?_ hstored ?_ hopen
    · rw [payloadsOf_keys]
      exact keptFirstPages_nodup hnodup
    · rw [payloadsOf_keys]
      exact hkept

omit hnodup in
/-- A purl the server did not answer keeps its fresh cached payload. -/
theorem onlineAnswers_getElem?_of_cached {payload : JsonText}
    (hpurl : purl ∈ purls)
    (hpayload : freshPayload? options now cache purl = some payload) :
    (onlineAnswers options now cache purls transport).value.payloadByPurl[
        purl]? = some payload := by
  have hkept : purl ∉
      (keptFirstPages options now cache purls transport).map Prod.fst :=
    fun hmem => by
      have hfetch := (List.mem_filter.mp (keptFirstPages_keys_subset hmem)).2
      simp [hpayload] at hfetch
  rw [onlineAnswers_value]
  simp only
  rw [insertAll_getElem?_of_notMem fun hmem => hkept
    (mergedPairs_keys_subset hmem)]
  refine foldl_fallBack_getElem?_of_some _ _ _ ?_
  rw [fetched_value]
  simp only
  rw [insertAll_getElem?_of_notMem (by simpa using hkept), freshPayloads,
    collect_getElem?, if_pos hpurl, hpayload]

omit hnodup in
/-- The cache entry of a purl the server did not answer. -/
theorem onlineAnswers_lookup_of_notMem
    (hkept : purl ∉
      (keptFirstPages options now cache purls transport).map Prod.fst)
    (hkeys : ∀ other ∈ purls, other ≠ purl → cString other ≠ cString purl) :
    (onlineAnswers options now cache purls transport).value.cache.lookup purl =
      cache.lookup purl := by
  have hstored : ∀ other ∈ (keptFirstPages options now cache purls
      transport).map Prod.fst, cString other ≠ cString purl :=
    fun other h => hkeys other (List.mem_filter.mp
      (keptFirstPages_keys_subset h)).1
      fun heq => hkept (heq ▸ h)
  rw [onlineAnswers_value]
  simp only
  rw [lookup_storeAll_of_ne fun other h => hstored other
    (mergedPairs_keys_subset h),
    fetched_value]
  simp only
  exact lookup_storeAll_of_ne (by simpa using hstored) cache

omit hnodup in
theorem foldl_staleUse_keys {step : StaleUse → String → StaleUse} {key : String}
    (hstep : ∀ use other, key ≠ other →
      (step use other).payloadByPurl[key]?.isSome →
        use.payloadByPurl[key]?.isSome)
    (list : List String) (use : StaleUse)
    (hkey : (list.foldl step use).payloadByPurl[key]?.isSome) :
    use.payloadByPurl[key]?.isSome = true ∨ key ∈ list := by
  induction list generalizing use with
  | nil => exact Or.inl hkey
  | cons other list ih =>
    rcases ih _ hkey with hturn | hmem
    · by_cases h : key = other
      · exact Or.inr (by simp [h])
      · exact Or.inl (hstep use other h hturn)
    · exact Or.inr (List.mem_cons_of_mem other hmem)

omit hnodup in
theorem answerFromStale_keys (stale : OrderedMap String JsonText)
    {key : String} (use : StaleUse) (other : String) (hne : key ≠ other)
    (hkey : (answerFromStale stale use other).payloadByPurl[key]?.isSome) :
    use.payloadByPurl[key]?.isSome := by
  unfold answerFromStale at hkey
  cases hstale : stale[other]? <;>
    simpa [hstale, getElem?_insert_eq, hne] using hkey

omit hnodup in
theorem fallBack_keys (stale : OrderedMap String JsonText) {key : String}
    (use : StaleUse) (other : String) (hne : key ≠ other)
    (hkey : (fallBack stale use other).payloadByPurl[key]?.isSome) :
    use.payloadByPurl[key]?.isSome := by
  unfold fallBack at hkey
  split_ifs at hkey
  · exact hkey
  · exact answerFromStale_keys stale use other hne hkey

omit hnodup in
/-- A run answers only purls it was asked about. -/
theorem onlineAnswers_keys_subset {key : String}
    (hkey : (onlineAnswers options now cache purls
      transport).value.payloadByPurl[key]?.isSome = true) : key ∈ purls := by
  rw [onlineAnswers_value] at hkey
  by_cases hmerged : key ∈
      (mergedPairs options now cache purls transport).map Prod.fst
  · exact (List.mem_filter.mp
      (keptFirstPages_keys_subset (mergedPairs_keys_subset hmerged))).1
  simp only [insertAll_getElem?_of_notMem hmerged] at hkey
  rcases foldl_staleUse_keys (fallBack_keys _) _ _ hkey with hkey | hkey
  · rw [fetched_value] at hkey
    by_cases hkept : key ∈
        (keptFirstPages options now cache purls transport).map Prod.fst
    · exact (List.mem_filter.mp (keptFirstPages_keys_subset hkept)).1
    · rw [insertAll_getElem?_of_notMem (by simpa using hkept), freshPayloads,
        collect_getElem?] at hkey
      by_contra hnot
      simp [hnot] at hkey
  · exact (List.mem_filter.mp hkey).1

omit hnodup in
/-- The final document stays within the nesting bound, so it is read back. -/
theorem extract_finalDocument
    (hfresh : (purl, firstPage) ∈
      keptFirstPages options now cache purls transport) :
    extractAdvisoryRevisions (finalDocument firstPage
        (servedFollowUps options now cache purls transport purl)).dump =
      extractFromDocument (finalDocument firstPage
        (servedFollowUps options now cache purls transport purl)) := by
  refine extractAdvisoryRevisions_dump ?_
  have hfirst := (keptFirstPages_spec hfresh).2
  unfold finalDocument
  cases hextra : extraOf (servedFollowUps options now cache purls transport
      purl) with
  | none =>
    simp only
    omega
  | some extra =>
    refine mergedDocument_depth_le hfirst (fun advisory hadvisory => ?_) _
    unfold extraOf at hextra
    split_ifs at hextra
    obtain rfl := Option.some.inj hextra
    obtain ⟨page, hpage, hmem⟩ := List.mem_flatMap.mp hadvisory
    have hpageDepth := servedFollowUps_depth hpage
    exact depth_add_two_le_of_mem_pageVulns (by omega) hmem

omit hnodup in
theorem answers_keys_subset {key : String}
    (hkey : (answers options now cache purls
      transport).value.payloadByPurl[key]?.isSome = true) : key ∈ purls := by
  unfold answers at hkey
  split_ifs at hkey
  · simp only [offlineAnswers, Result.warnIf_value] at hkey
    rcases foldl_staleUse_keys (answerFromStale_keys _) _ _ hkey with hkey | hkey
    · rw [freshPayloads, collect_getElem?] at hkey
      by_contra hnot
      simp [hnot] at hkey
    · exact (List.mem_filter.mp hkey).1
  · exact onlineAnswers_keys_subset hkey

omit hnodup in
theorem answers_snapshotRows (key : String) :
    (answers options now cache purls transport).value.cache.snapshotRows key =
      cache.snapshotRows key := by
  unfold answers
  split_ifs
  · simp [offlineAnswers]
  · simp [onlineAnswers_value, fetched_value]

omit hnodup in
theorem answers_isSome :
    (answers options now cache purls transport).value.cache.isSome =
      cache.isSome := by
  unfold answers
  split_ifs
  · simp [offlineAnswers]
  · rw [onlineAnswers_value, isSome_storeAll, fetched_value, isSome_storeAll]

end Run
end Bomwerk.Vuln
