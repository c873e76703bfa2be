import Bomwerk.Vuln.Nvd.Payload

/-!
# Honest answers

A purl that `match_via_cpe` reports as checked has a payload behind its CPE.
Whether a run without a warning reports everything there is depends on what
that payload states: an entry without a readable id and a total that is not
declared as a non-negative integer are passed over in silence.
-/

namespace Bomwerk.Vuln.Nvd

open Bomwerk.Core Bomwerk.Support

/-! ## Queries -/

/-- The CPE a component is looked up under; nothing for one that is not. -/
def cpeOf? (component : Component) : Option String :=
  if classifyMatchCoverage component.purl = .unmappedPurlType then
    cpeMatchStringFor component.purl
  else none

/-- The CPEs of a component list, in the order of the loop. -/
def queriedCpes (components : List Component) : List String :=
  sortUnique (· ≤ ·) id (components.filterMap cpeOf?)

/-- The component is looked up, and it has no CPE. -/
def IsUnconvertible (component : Component) : Prop :=
  classifyMatchCoverage component.purl = .unmappedPurlType ∧
    cpeMatchStringFor component.purl = none

/-- What the loop over the components owes to the components behind it. -/
structure Queried (components : List Component) (queries : Queries) : Prop where
  keys : ∀ cpe : String, queries.purlsByCpe[cpe]?.isSome = true ↔
    cpe ∈ components.filterMap cpeOf?
  purls : ∀ (cpe : String) (purls : OrderedSet String),
    queries.purlsByCpe[cpe]? = some purls → (∃ purl, purl ∈ purls) ∧
        ∀ purl ∈ purls, cpeMatchStringFor purl = some cpe
  unconvertible : queries.unconvertibleComponentCount = 0 ↔
    ∀ component ∈ components, ¬ IsUnconvertible component

theorem Queried.snoc {components : List Component} {queries : Queries}
    (hqueries : Queried components queries) (component : Component) :
    Queried (components ++ [component]) (addQuery queries component) := by
  by_cases hmapped : classifyMatchCoverage component.purl = .unmappedPurlType
  · cases hcpe : cpeMatchStringFor component.purl with
    | none =>
      have hnone : cpeOf? component = none := by
        simp [cpeOf?, hmapped, hcpe]
      have hadd : addQuery queries component =
          { queries with
            unconvertibleComponentCount :=
              queries.unconvertibleComponentCount + 1 } := by
        simp [addQuery, hmapped, hcpe]
      rw [hadd]
      constructor
      · simpa [hnone] using hqueries.keys
      · exact hqueries.purls
      · have hlast : IsUnconvertible component := ⟨hmapped, hcpe⟩
        simpa using Or.inr hlast
    | some cpe =>
      have hsome : cpeOf? component = some cpe := by
        simp [cpeOf?, hmapped, hcpe]
      have hadd : addQuery queries component =
          { queries with
            purlsByCpe := updateAt queries.purlsByCpe cpe fun purls =>
              (purls.getD ∅).insert component.purl } := by
        simp [addQuery, hmapped, hcpe]
      rw [hadd]
      constructor
      · intro other
        have hkeys := hqueries.keys other
        simp only [getElem?_updateAt, List.filterMap_append,
          List.mem_append, ← hkeys]
        by_cases hother : other = cpe <;> simp [hother, hsome]
      · intro other purls hpurls
        rw [getElem?_updateAt] at hpurls
        split_ifs at hpurls with hother
        · subst hother
          obtain rfl := Option.some.inj hpurls
          refine ⟨⟨component.purl, by simp⟩, ?_⟩
          intro purl hpurl
          rw [Std.ExtTreeSet.mem_insert] at hpurl
          rcases hpurl with heq | hmem
          · rw [← Std.compare_eq_iff_eq.mp heq]
            exact hcpe
          · cases hold : queries.purlsByCpe[other]? with
            | none => simp [hold] at hmem
            | some old =>
              rw [hold] at hmem
              exact (hqueries.purls other old hold).2 purl hmem
        · exact hqueries.purls other purls hpurls
      · have hlast : ¬ IsUnconvertible component := by
          simp [IsUnconvertible, hcpe]
        simpa [or_imp, forall_and, hlast] using hqueries.unconvertible
  · have hnone : cpeOf? component = none := by
      simp [cpeOf?, hmapped]
    have hadd : addQuery queries component = queries := by
      simp [addQuery, hmapped]
    rw [hadd]
    constructor
    · simpa [hnone] using hqueries.keys
    · exact hqueries.purls
    · have hlast : ¬ IsUnconvertible component := fun h => hmapped h.1
      simpa [or_imp, forall_and, hlast] using hqueries.unconvertible

theorem queried_queriesOf (components : List Component) :
    Queried components (queriesOf components) := by
  induction components using List.reverseRecOn with
  | nil => constructor <;> simp [queriesOf]
  | append_singleton components component ih =>
    have hlast : queriesOf (components ++ [component]) =
        addQuery (queriesOf components) component := by
      rw [queriesOf, List.foldl_append, List.foldl_cons, List.foldl_nil,
        ← queriesOf]
    rw [hlast]
    exact ih.snoc component

theorem pairwise_lt_queriedCpes (components : List Component) :
    (queriedCpes components).Pairwise (· < ·) :=
  pairwise_lt_sortUnique (fun _ _ h => h) _

theorem mem_queriedCpes_iff {components : List Component} {cpe : String} :
    cpe ∈ queriedCpes components ↔ cpe ∈ components.filterMap cpeOf? := by
  have h : cpe ∈ (queriedCpes components).map id ↔
      cpe ∈ (components.filterMap cpeOf?).map id := map_key_mem_sortUnique_iff
  simpa only [List.map_id] using h

theorem map_fst_toList_purlsByCpe (components : List Component) :
    (queriesOf components).purlsByCpe.toList.map Prod.fst =
      queriedCpes components := by
  have hkeys : ((queriesOf components).purlsByCpe.toList.map
      Prod.fst).Pairwise (· < ·) :=
    List.pairwise_map.mpr (pairwise_lt_toList _)
  have hcpes := pairwise_lt_queriedCpes components
  have hne : ∀ {a b : String}, a < b → a ≠ b := fun h => h.ne
  refine List.Perm.eq_of_pairwise
    (fun _ _ _ _ hab hba => absurd hba (lt_asymm hab)) hkeys hcpes
    ((List.perm_ext_iff_of_nodup (hkeys.imp hne) (hcpes.imp hne)).mpr ?_)
  intro cpe
  rw [mem_keys_toList_iff, (queried_queriesOf components).keys,
    mem_queriedCpes_iff]

theorem nul_not_mem_of_mem_queriedCpes {components : List Component}
    {cpe : String} (hcpe : cpe ∈ queriedCpes components) :
    '\x00' ∉ cpe.toList := by
  obtain ⟨component, -, hcomponent⟩ :=
    List.mem_filterMap.mp (mem_queriedCpes_iff.mp hcpe)
  unfold cpeOf? at hcomponent
  split_ifs at hcomponent
  exact nul_not_mem_cpeMatchString hcomponent

/-! ## Honest runs -/

section Honesty

variable (scoreCvssVector : String → CvssScore) (options : NvdOptions)
  (now : Int) (httpGet : Transport) (components : List Component)
  (cacheOpen : Result VulnCache)

def answeredOf : Result LoopState :=
  answerCpes options now httpGet cacheOpen.value
    ((queriesOf components).purlsByCpe.toList.map Prod.fst)

def reportedIds (outcome : MatchOutcome) (purl : String) : Finset String :=
  ((outcome.hits.filter (·.purl = purl)).flatMap fun hit =>
    hit.advisories.map ScoredAdvisory.id).toFinset

/-- A checked purl has a payload behind it; and where nothing warns, all of the
payload is reported and the payload leaves nothing out. -/
structure IsHonest : Prop where
  resolved : ∀ purl ∈ (matchViaCpe scoreCvssVector options now httpGet
      components cacheOpen).result.value.cpeCheckedPurls,
    ∃ cpe payload, cpeMatchStringFor purl = some cpe ∧
      (answeredOf options now httpGet components
        cacheOpen).value.payloadByCpe[cpe]? = some payload ∧
      (vulnerabilities? payload).isSome = true
  complete : Quiet (matchViaCpe scoreCvssVector options now httpGet
      components cacheOpen).result.warnings →
    ∀ purl ∈ (matchViaCpe scoreCvssVector options now httpGet components
      cacheOpen).result.value.cpeCheckedPurls,
    ∀ cpe payload, cpeMatchStringFor purl = some cpe →
      (answeredOf options now httpGet components
        cacheOpen).value.payloadByCpe[cpe]? = some payload →
      let reported := reportedIds (matchViaCpe scoreCvssVector options now
        httpGet components cacheOpen).result.value purl
      reported = cveIds payload ∧
        (∀ entry ∈ entries payload, (cveId? entry).isSome = true) ∧
        ∃ total, declaredTotal? payload = some total ∧ total ≤ reported.card

/-- The payload that answers a queried CPE, from the cache the run starts with
and the response to the CPE's own request. -/
def payloadAt (cpe : String) : Option JsonText :=
  (answerAt options now httpGet cacheOpen.value
    (requestsBefore options now cacheOpen.value (queriedCpes components) cpe)
    cpe).payload?

/-- No component, response or payload gives rise to a warning about
coverage. -/
structure IsUneventful : Prop where
  convertible : ∀ component ∈ components, ¬ IsUnconvertible component
  opened : queriedCpes components ≠ [] → Quiet cacheOpen.warnings
  answered : ∀ cpe ∈ queriedCpes components,
    IsAnswered options now httpGet cacheOpen.value
      (requestsBefore options now cacheOpen.value (queriedCpes components) cpe)
      cpe
  unremarkable : ∀ cpe ∈ queriedCpes components, ∀ payload,
    payloadAt options now httpGet components cacheOpen cpe = some payload →
      IsUnremarkable payload

variable {scoreCvssVector options now httpGet components cacheOpen}

theorem answeredOf_spec :
    (∀ cpe : String, (answeredOf options now httpGet components
          cacheOpen).value.payloadByCpe[cpe]? =
        if cpe ∈ queriedCpes components then
          payloadAt options now httpGet components cacheOpen cpe
        else none) ∧
    (IsCalm (answeredOf options now httpGet components cacheOpen) ↔
      ∀ cpe ∈ queriedCpes components,
        IsAnswered options now httpGet cacheOpen.value (requestsBefore options
          now cacheOpen.value (queriedCpes components) cpe) cpe) := by
  rw [answeredOf, map_fst_toList_purlsByCpe, answerCpes]
  have hnodup : (queriedCpes components).Nodup :=
    (pairwise_lt_queriedCpes components).imp fun h => h.ne
  obtain ⟨hpayload, hcalm⟩ := @foldl_answerCpe options now httpGet
    cacheOpen.value { value := { cache := cacheOpen.value } }
    (queriedCpes components) hnodup
    (fun cpe => nul_not_mem_of_mem_queriedCpes) (fun _ _ => rfl)
  constructor
  · intro cpe
    rw [hpayload cpe]
    simp [payloadAt]
  · rw [hcalm]
    simp [IsCalm]

theorem assembled_run :
    Assembled scoreCvssVector
      (answeredOf options now httpGet components cacheOpen).value.payloadByCpe
      (queriesOf components).purlsByCpe.toList
      (assemble scoreCvssVector (answeredOf options now httpGet components
        cacheOpen).value.payloadByCpe
          (queriesOf components).purlsByCpe.toList) :=
  assembled_assemble _

theorem toList_eq_nil_of_isEmpty
    (hempty : (queriesOf components).purlsByCpe.isEmpty = true) :
    (queriesOf components).purlsByCpe.toList = [] := by
  rwa [← List.isEmpty_iff, Std.ExtTreeMap.isEmpty_toList]

theorem queriedCpes_eq_nil_of_isEmpty
    (hempty : (queriesOf components).purlsByCpe.isEmpty = true) :
    queriedCpes components = [] := by
  rw [← map_fst_toList_purlsByCpe, toList_eq_nil_of_isEmpty hempty,
    List.map_nil]

theorem queriedCpes_ne_nil_of_not_isEmpty
    (hempty : (queriesOf components).purlsByCpe.isEmpty ≠ true) :
    queriedCpes components ≠ [] := by
  rw [← map_fst_toList_purlsByCpe]
  intro hnil
  apply hempty
  rw [← Std.ExtTreeMap.isEmpty_toList, List.map_eq_nil_iff.mp hnil]
  rfl

theorem matchViaCpe_value :
    (matchViaCpe scoreCvssVector options now httpGet components
        cacheOpen).result.value =
      (assemble scoreCvssVector (answeredOf options now httpGet components
        cacheOpen).value.payloadByCpe
          (queriesOf components).purlsByCpe.toList).value.outcome.sorted := by
  simp only [matchViaCpe]
  split_ifs with hempty
  · rw [toList_eq_nil_of_isEmpty hempty]
    simp [assemble, MatchOutcome.sorted]
  · rfl

theorem mem_cpeCheckedPurls_iff {purl : String} :
    purl ∈ (matchViaCpe scoreCvssVector options now httpGet components
        cacheOpen).result.value.cpeCheckedPurls ↔
      ∃ query ∈ (queriesOf components).purlsByCpe.toList,
        purl ∈ query.2 ∧ ∃ payload, IsRead (answeredOf options now httpGet
          components cacheOpen).value.payloadByCpe query payload := by
  rw [matchViaCpe_value, MatchOutcome.sorted, List.mem_insertionSort,
    assembled_run.checked]

theorem cpeMatchStringFor_of_mem {query : String × OrderedSet String}
    (hquery : query ∈ (queriesOf components).purlsByCpe.toList)
    {purl : String} (hpurl : purl ∈ query.2) :
    cpeMatchStringFor purl = some query.1 :=
  ((queried_queriesOf components).purls query.1 query.2
    (mem_toList_iff.mp hquery)).2 purl hpurl

theorem payloadByCpe_of_mem {query : String × OrderedSet String}
    (hquery : query ∈ (queriesOf components).purlsByCpe.toList) :
    (answeredOf options now httpGet components
        cacheOpen).value.payloadByCpe[query.1]? =
      payloadAt options now httpGet components cacheOpen query.1 := by
  have hmem : query.1 ∈ queriedCpes components := by
    rw [← map_fst_toList_purlsByCpe]
    exact List.mem_map_of_mem hquery
  rw [answeredOf_spec.1, if_pos hmem]

theorem quiet_assemble_iff :
    Quiet (assemble scoreCvssVector (answeredOf options now httpGet components
        cacheOpen).value.payloadByCpe
          (queriesOf components).purlsByCpe.toList).warnings ↔
      ∀ cpe ∈ queriedCpes components, ∀ payload,
        payloadAt options now httpGet components cacheOpen cpe =
          some payload → IsUnremarkable payload := by
  rw [assembled_run.quiet, ← map_fst_toList_purlsByCpe, List.forall_mem_map]
  refine forall₂_congr fun query hquery => ?_
  rw [payloadByCpe_of_mem hquery]

theorem quiet_matchViaCpe_iff :
    Quiet (matchViaCpe scoreCvssVector options now httpGet components
        cacheOpen).result.warnings ↔
      IsUneventful options now httpGet components cacheOpen := by
  have hconvertible : decide
      (0 < (queriesOf components).unconvertibleComponentCount) = false ↔
        ∀ component ∈ components, ¬ IsUnconvertible component := by
    rw [← (queried_queriesOf components).unconvertible, decide_eq_false_iff_not]
    omega
  simp only [matchViaCpe]
  split_ifs with hempty
  · have hnil := queriedCpes_eq_nil_of_isEmpty hempty
    rw [quiet_warnIf _ _ rfl, hconvertible]
    constructor
    · rintro ⟨-, hconvertible⟩
      exact ⟨hconvertible, fun hne => absurd hnil hne, by simp [hnil],
        by simp [hnil]⟩
    · intro h
      exact ⟨by simp, h.convertible⟩
  · have hne := queriedCpes_ne_nil_of_not_isEmpty hempty
    rw [← answeredOf]
    have hcalm : IsCalm (answeredOf options now httpGet components
        cacheOpen) ↔ _ := answeredOf_spec.2
    have hcounted : ∀ n : Nat, decide (0 < n) = false ↔ n = 0 := by
      intro n
      rw [decide_eq_false_iff_not]
      omega
    simp only [Result.absorb_warnings, quiet_append, quiet_warnIf _ _
      (show isCoverageCode .vulnCoverageIncomplete = true from rfl),
      hconvertible, hcounted, quiet_assemble_iff, quiet_nil, true_and]
    constructor
    · rintro ⟨⟨⟨⟨⟨hconvertible, hopen⟩, hquiet⟩, hstale⟩, hresolved⟩, hunremarkable⟩
      exact ⟨hconvertible, fun _ => hopen,
        hcalm.mp ⟨hquiet, hstale, hresolved⟩, hunremarkable⟩
    · intro h
      obtain ⟨hquiet, hstale, hresolved⟩ := hcalm.mpr h.answered
      exact ⟨⟨⟨⟨⟨h.convertible, h.opened hne⟩, hquiet⟩, hstale⟩, hresolved⟩,
        h.unremarkable⟩

theorem mem_hits_iff {hit : VulnerabilityHit} :
    hit ∈ (matchViaCpe scoreCvssVector options now httpGet components
        cacheOpen).result.value.hits ↔
      ∃ query ∈ (queriesOf components).purlsByCpe.toList,
        hit.purl ∈ query.2 ∧ ∃ payload,
          IsRead (answeredOf options now httpGet components
            cacheOpen).value.payloadByCpe query payload ∧
          (extractAdvisories scoreCvssVector payload).advisories ≠ [] ∧
          hit.advisories = finalizeAdvisories
            (extractAdvisories scoreCvssVector payload).advisories := by
  rw [matchViaCpe_value, MatchOutcome.sorted, List.mem_insertionSort,
    assembled_run.hits]

variable (scoreCvssVector) in
theorem mem_cveIds_iff (payload : JsonText) (id : String) :
    id ∈ cveIds payload ↔ id ∈ (finalizeAdvisories
        (extractAdvisories scoreCvssVector payload).advisories).map
          ScoredAdvisory.id := by
  rw [mem_map_id_finalizeAdvisories_iff, map_id_extractAdvisories, cveIds,
    List.mem_toFinset]

/-- What is reported for a purl are the ids of the payload of its CPE. -/
theorem reportedIds_eq_cveIds {query : String × OrderedSet String}
    (hquery : query ∈ (queriesOf components).purlsByCpe.toList)
    {purl : String} (hpurl : purl ∈ query.2) {payload : JsonText}
    (hread : IsRead (answeredOf options now httpGet components
      cacheOpen).value.payloadByCpe query payload) :
    reportedIds (matchViaCpe scoreCvssVector options now httpGet components
      cacheOpen).result.value purl = cveIds payload := by
  ext id
  rw [mem_cveIds_iff scoreCvssVector, reportedIds,
    List.mem_toFinset, List.mem_flatMap]
  simp only [List.mem_filter, decide_eq_true_eq, mem_hits_iff]
  constructor
  · rintro ⟨hit, ⟨⟨other, hother, hmem, payload', hread', -, heq⟩, rfl⟩, hid⟩
    -- A purl has one CPE, so it stands behind one query only.
    have hcpe : other.1 = query.1 := by
      have h := cpeMatchStringFor_of_mem hother hmem
      rw [cpeMatchStringFor_of_mem hquery hpurl] at h
      exact (Option.some.inj h).symm
    have hpayload : payload' = payload := by
      have h := hread'.1
      rw [hcpe, hread.1] at h
      exact (Option.some.inj h).symm
    rw [heq, hpayload] at hid
    exact hid
  · intro hid
    let hit : VulnerabilityHit :=
      { purl := purl
        advisories := finalizeAdvisories
          (extractAdvisories scoreCvssVector payload).advisories }
    refine ⟨hit, ⟨⟨query, hquery, hpurl, payload, hread, ?_, rfl⟩, rfl⟩, hid⟩
    intro hnil
    rw [mem_map_id_finalizeAdvisories_iff, hnil] at hid
    exact List.not_mem_nil hid

/-- A run is honest exactly when something in it warns anyway, or each payload
that answers a CPE states all it has. -/
theorem isHonest_iff (scoreCvssVector : String → CvssScore)
    (options : NvdOptions) (now : Int) (httpGet : Transport)
    (components : List Component) (cacheOpen : Result VulnCache) :
    IsHonest scoreCvssVector options now httpGet components cacheOpen ↔
      (IsUneventful options now httpGet components cacheOpen →
        ∀ cpe ∈ queriedCpes components, ∀ payload,
          payloadAt options now httpGet components cacheOpen cpe =
            some payload → StatesAll payload) := by
  constructor
  · intro h huneventful cpe hcpe payload hpayload
    rw [← map_fst_toList_purlsByCpe] at hcpe
    obtain ⟨query, hquery, rfl⟩ := List.mem_map.mp hcpe
    obtain ⟨⟨purl, hpurl⟩, -⟩ := (queried_queriesOf components).purls query.1
      query.2 (mem_toList_iff.mp hquery)
    have hunremarkable := huneventful.unremarkable query.1
      (by rwa [← map_fst_toList_purlsByCpe]) payload hpayload
    have hget : (answeredOf options now httpGet components
        cacheOpen).value.payloadByCpe[query.1]? = some payload := by
      rw [payloadByCpe_of_mem hquery, hpayload]
    have hread : IsRead (answeredOf options now httpGet components
        cacheOpen).value.payloadByCpe query payload :=
      ⟨hget, hunremarkable.1⟩
    have hchecked : purl ∈ (matchViaCpe scoreCvssVector options now httpGet
        components cacheOpen).result.value.cpeCheckedPurls :=
      mem_cpeCheckedPurls_iff.mpr ⟨query, hquery, hpurl, payload, hread⟩
    obtain ⟨hreported, hreadable, total, htotal, hle⟩ := h.complete
      (quiet_matchViaCpe_iff.mpr huneventful) purl hchecked query.1 payload
      (cpeMatchStringFor_of_mem hquery hpurl) hget
    exact ⟨hreadable, total, htotal, hreported ▸ hle⟩
  · intro h
    constructor
    · intro purl hpurl
      obtain ⟨query, hquery, hmem, payload, hread⟩ :=
        mem_cpeCheckedPurls_iff.mp hpurl
      exact ⟨query.1, payload, cpeMatchStringFor_of_mem hquery hmem, hread⟩
    · intro hquiet purl hpurl cpe payload hcpe hget
      have huneventful := quiet_matchViaCpe_iff.mp hquiet
      obtain ⟨query, hquery, hmem, other, hread⟩ :=
        mem_cpeCheckedPurls_iff.mp hpurl
      obtain rfl : query.1 = cpe := by
        rw [cpeMatchStringFor_of_mem hquery hmem] at hcpe
        exact Option.some.inj hcpe
      obtain rfl : other = payload := by
        rw [hread.1] at hget
        exact Option.some.inj hget
      have hqueried : query.1 ∈ queriedCpes components := by
        rw [← map_fst_toList_purlsByCpe]
        exact List.mem_map_of_mem hquery
      have hstates := h huneventful query.1 hqueried other
        (payloadByCpe_of_mem hquery ▸ hget)
      have hreported : reportedIds (matchViaCpe scoreCvssVector options now
          httpGet components cacheOpen).result.value purl = cveIds other :=
        reportedIds_eq_cveIds hquery hmem hread
      rw [hreported]
      exact ⟨rfl, hstates.readable, hstates.counted⟩

end Honesty

/-- An answer whose one entry has no id, and which declares no total. -/
def untotalledAnswer : Result HttpResponse where
  value :=
    { statusCode := 200
      body := some (.object [("vulnerabilities",
        .array [.object [("cve", .object [("id", .null)])]])]) }

/-- Its CPE is checked, nothing is reported and nothing warns. -/
theorem not_isHonest_untotalled :
    ¬ IsHonest (fun _ => {}) {} 0 (fun _ _ => untotalledAnswer)
      [{ name := "zlib", purl := "pkg:conan/zlib@1.2.11" }]
      { value := none } := by
  intro h
  have hquiet : Quiet (matchViaCpe (fun _ => {}) {} 0
      (fun _ _ => untotalledAnswer)
      [{ name := "zlib", purl := "pkg:conan/zlib@1.2.11" }]
      { value := none }).result.warnings := by
    unfold Quiet
    decide +kernel
  have hchecked : "pkg:conan/zlib@1.2.11" ∈ (matchViaCpe (fun _ => {}) {} 0
      (fun _ _ => untotalledAnswer)
      [{ name := "zlib", purl := "pkg:conan/zlib@1.2.11" }]
      { value := none }).result.value.cpeCheckedPurls := by
    decide +kernel
  obtain ⟨cpe, payload, hcpe, hget, -⟩ := h.resolved _ hchecked
  obtain ⟨-, -, total, htotal, -⟩ :=
    h.complete hquiet _ hchecked cpe payload hcpe hget
  have hzlib : cpeMatchStringFor "pkg:conan/zlib@1.2.11" =
      some "cpe:2.3:a:*:zlib:1.2.11" := by decide +kernel
  obtain rfl : "cpe:2.3:a:*:zlib:1.2.11" = cpe :=
    Option.some.inj (hzlib.symm.trans hcpe)
  have huntotalled : ((answeredOf {} 0 (fun _ _ => untotalledAnswer)
      [{ name := "zlib", purl := "pkg:conan/zlib@1.2.11" }]
      { value := none }).value.payloadByCpe[
        "cpe:2.3:a:*:zlib:1.2.11"]?).bind declaredTotal? = none := by
    decide +kernel
  rw [hget, Option.bind_some, htotal] at huntotalled
  exact absurd huntotalled (by simp)

end Bomwerk.Vuln.Nvd
