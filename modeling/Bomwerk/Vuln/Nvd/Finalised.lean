import Bomwerk.Support.DistinctKeys
import Bomwerk.Vuln.Nvd.Honesty
import Mathlib.Data.Finset.Max
import Mathlib.Data.Prod.Lex

/-!
# The advisories of a hit

`finalize_advisories` sorts by severity and then drops neighbours of one id.
The sort is a total order up to ties of one id, so the worst severity of an id
comes first; but two severities of one id are neighbours only where no other
CVE is scored between them.
-/

namespace Bomwerk.Vuln

/-- What `more_severe` compares, the worst first. -/
def severityRank (advisory : ScoredAdvisory) : Bool ×ₗ ℚ ×ₗ String :=
  toLex (!advisory.severity.hasScore,
    toLex (if advisory.severity.hasScore then -advisory.severity.score else 0,
      advisory.id))

theorem moreSevere_iff {left right : ScoredAdvisory} :
    moreSevere left right = true ↔ severityRank left < severityRank right := by
  unfold moreSevere severityRank
  simp only [Prod.Lex.toLex_lt_toLex]
  cases left.severity.hasScore <;> cases right.severity.hasScore
  · simp
  · simp
  · simp
  · by_cases heq : left.severity.score = right.severity.score <;>
      simp [heq]

theorem advisoryLe_iff {left right : ScoredAdvisory} :
    AdvisoryLe left right ↔ severityRank left ≤ severityRank right := by
  rw [AdvisoryLe, ← not_lt, ← moreSevere_iff, Bool.not_eq_true]

theorem not_advisoryLe_iff {left right : ScoredAdvisory} :
    ¬ AdvisoryLe left right ↔ moreSevere right left = true := by
  rw [AdvisoryLe, Bool.not_eq_false]

instance : Std.Total AdvisoryLe where
  total left right := by
    simp only [advisoryLe_iff]
    exact le_total _ _

instance : IsTrans ScoredAdvisory AdvisoryLe where
  trans first second third := by
    simp only [advisoryLe_iff]
    exact le_trans

theorem id_eq_of_tie {left right : ScoredAdvisory}
    (hle : AdvisoryLe left right) (hge : AdvisoryLe right left) :
    left.id = right.id := by
  rw [advisoryLe_iff] at hle hge
  have h := congrArg ofLex (le_antisymm hle hge)
  exact congrArg (fun rank => (ofLex rank.2).2) h

end Bomwerk.Vuln

namespace Bomwerk.Vuln.Nvd

open Bomwerk.Core Bomwerk.Support

/-- What a hit owes to the advisories that matched: each id once, with the
worst severity that was seen for it, the worst first. -/
structure IsFinalised (matched reported : List ScoredAdvisory) : Prop where
  distinct : (reported.map ScoredAdvisory.id).Nodup
  complete : ∀ advisory ∈ matched, ∃ worst ∈ reported,
    worst.id = advisory.id ∧ worst ∈ matched ∧
      ∀ other ∈ matched, other.id = advisory.id → moreSevere other worst = false
  sound : ∀ advisory ∈ reported, advisory ∈ matched
  ordered : reported.Pairwise fun left right => moreSevere right left = false

/-- No advisory of another id is scored between two of one id. -/
def NoneBetween (matched : List ScoredAdvisory) : Prop :=
  ∀ worse ∈ matched, ∀ better ∈ matched, ∀ between ∈ matched,
    worse.id = better.id → moreSevere worse between = true →
      moreSevere between better = true → between.id = worse.id

theorem nodup_map_id_finalizeAdvisories_iff (matched : List ScoredAdvisory) :
    ((finalizeAdvisories matched).map ScoredAdvisory.id).Nodup ↔
      NoneBetween matched := by
  rw [finalizeAdvisories,
    nodup_map_key_sortUnique_iff fun _ _ hle hge => id_eq_of_tie hle hge]
  simp only [not_advisoryLe_iff, NoneBetween]

theorem finalizeAdvisories_ordered (matched : List ScoredAdvisory) :
    (finalizeAdvisories matched).Pairwise fun left right =>
      moreSevere right left = false :=
  (List.pairwise_insertionSort AdvisoryLe matched).sublist
    (uniqueBy_sublist _)

/-- An id is never lost, and its worst severity is among those that stay. -/
theorem exists_worst_mem_finalizeAdvisories {matched : List ScoredAdvisory}
    {advisory : ScoredAdvisory} (hadvisory : advisory ∈ matched) :
    ∃ worst ∈ finalizeAdvisories matched, worst.id = advisory.id ∧
      worst ∈ matched ∧ ∀ other ∈ matched, other.id = advisory.id →
        moreSevere other worst = false := by
  -- The least entry of the id in sort order, then what stands for it.
  let sameId := matched.filter fun other => other.id = advisory.id
  have hne : sameId ≠ [] := List.ne_nil_of_mem
    (List.mem_filter.mpr ⟨hadvisory, by simp⟩)
  obtain ⟨least, hleast, hmin⟩ :=
    sameId.toFinset.exists_min_image severityRank
      (List.toFinset_nonempty_iff _ |>.mpr hne)
  simp only [sameId, List.mem_toFinset, List.mem_filter, decide_eq_true_eq]
    at hleast hmin
  obtain ⟨worst, hworst, hid, hle⟩ : ∃ worst ∈ finalizeAdvisories matched,
      worst.id = least.id ∧ AdvisoryLe worst least :=
    exists_le_mem_sortUnique hleast.1
  refine ⟨worst, hworst, hid.trans hleast.2, mem_of_mem_sortUnique hworst, ?_⟩
  intro other hother hsame
  have hrank := hmin other ⟨hother, hsame⟩
  exact advisoryLe_iff.mpr ((advisoryLe_iff.mp hle).trans hrank)

theorem isFinalised_finalizeAdvisories_iff (matched : List ScoredAdvisory) :
    IsFinalised matched (finalizeAdvisories matched) ↔ NoneBetween matched := by
  rw [← nodup_map_id_finalizeAdvisories_iff]
  constructor
  · exact fun h => h.distinct
  · intro hdistinct
    exact ⟨hdistinct, fun _ h => exists_worst_mem_finalizeAdvisories h,
      fun _ h => mem_of_mem_sortUnique h, finalizeAdvisories_ordered matched⟩

/-! ## The hits of a run -/

/-- The advisories of a payload, in its order. -/
def matchedAdvisories (scoreCvssVector : String → CvssScore)
    (payload : JsonText) : List ScoredAdvisory :=
  (entries payload).filterMap (scoredAdvisory? scoreCvssVector)

theorem advisories_extractAdvisories (scoreCvssVector : String → CvssScore)
    (payload : JsonText) :
    (extractAdvisories scoreCvssVector payload).advisories =
      matchedAdvisories scoreCvssVector payload := by
  rw [matchedAdvisories, entries, vulnerabilities?_eq]
  unfold extractAdvisories
  cases (parseBoundedJson payload).filter Json.isObject with
  | none => rfl
  | some document =>
    cases hfind : document.findArray? "vulnerabilities" <;> simp [hfind]

theorem vulnerabilities?_isSome_of_matched {scoreCvssVector : String → CvssScore}
    {payload : JsonText}
    (hne : matchedAdvisories scoreCvssVector payload ≠ []) :
    (vulnerabilities? payload).isSome = true := by
  by_contra hnone
  rw [Bool.not_eq_true, Option.isSome_eq_false_iff, Option.isNone_iff_eq_none]
    at hnone
  exact hne (by rw [matchedAdvisories, entries, hnone]; rfl)

/-- Every hit of the run finalises the advisories of its CPE's payload. -/
def HitsFinalised (scoreCvssVector : String → CvssScore)
    (options : NvdOptions) (now : Int) (httpGet : Transport)
    (components : List Component) (cacheOpen : Result VulnCache) : Prop :=
  ∀ hit ∈ (matchViaCpe scoreCvssVector options now httpGet components
      cacheOpen).result.value.hits,
    ∃ cpe payload, cpeMatchStringFor hit.purl = some cpe ∧
      (answeredOf options now httpGet components
        cacheOpen).value.payloadByCpe[cpe]? = some payload ∧
      IsFinalised (matchedAdvisories scoreCvssVector payload) hit.advisories

/-- The hits are finalised exactly when in no payload that answers a CPE an
advisory is scored between two of one other id. -/
theorem hitsFinalised_iff (scoreCvssVector : String → CvssScore)
    (options : NvdOptions) (now : Int) (httpGet : Transport)
    (components : List Component) (cacheOpen : Result VulnCache) :
    HitsFinalised scoreCvssVector options now httpGet components cacheOpen ↔
      ∀ cpe ∈ queriedCpes components, ∀ payload,
        payloadAt options now httpGet components cacheOpen cpe =
          some payload →
        NoneBetween (matchedAdvisories scoreCvssVector payload) := by
  constructor
  · intro h cpe hcpe payload hpayload
    rw [← map_fst_toList_purlsByCpe] at hcpe
    obtain ⟨query, hquery, rfl⟩ := List.mem_map.mp hcpe
    obtain ⟨⟨purl, hpurl⟩, -⟩ := (queried_queriesOf components).purls query.1
      query.2 (mem_toList_iff.mp hquery)
    have hget : (answeredOf options now httpGet components
        cacheOpen).value.payloadByCpe[query.1]? = some payload := by
      rw [payloadByCpe_of_mem hquery, hpayload]
    by_cases hnil : matchedAdvisories scoreCvssVector payload = []
    · simp [NoneBetween, hnil]
    let hit : VulnerabilityHit :=
      { purl := purl
        advisories :=
          finalizeAdvisories (matchedAdvisories scoreCvssVector payload) }
    have hhit : hit ∈ (matchViaCpe scoreCvssVector options now httpGet
        components cacheOpen).result.value.hits := by
      refine mem_hits_iff.mpr ⟨query, hquery, hpurl, payload,
        ⟨hget, vulnerabilities?_isSome_of_matched hnil⟩, ?_, ?_⟩
      · rwa [advisories_extractAdvisories]
      · rw [advisories_extractAdvisories]
    obtain ⟨cpe, payload', hcpe, hget', hfinalised⟩ := h hit hhit
    obtain rfl : query.1 = cpe :=
      Option.some.inj ((cpeMatchStringFor_of_mem hquery hpurl).symm.trans hcpe)
    obtain rfl : payload = payload' :=
      Option.some.inj (hget.symm.trans hget')
    exact (isFinalised_finalizeAdvisories_iff _).mp hfinalised
  · intro h hit hhit
    obtain ⟨query, hquery, hpurl, payload, hread, -, hadvisories⟩ :=
      mem_hits_iff.mp hhit
    have hqueried : query.1 ∈ queriedCpes components := by
      rw [← map_fst_toList_purlsByCpe]
      exact List.mem_map_of_mem hquery
    refine ⟨query.1, payload, cpeMatchStringFor_of_mem hquery hpurl, hread.1,
      ?_⟩
    rw [hadvisories, advisories_extractAdvisories,
      isFinalised_finalizeAdvisories_iff]
    exact h query.1 hqueried payload
      (payloadByCpe_of_mem hquery ▸ hread.1)

/-- One entry of a payload, with one vector. -/
def scoredEntry (id vector : String) : Json :=
  .object [("cve", .object [("id", .string id), ("metrics",
    .object [("cvssMetricV31", .array [.object [("cvssData",
      .object [("vectorString", .string vector)])]])])])]

def criticalVector : String := "CVSS:3.1/AV:N/AC:L/PR:N/UI:N/S:U/C:H/I:H/A:H"
def highVector : String := "CVSS:3.1/AV:N/AC:L/PR:N/UI:N/S:U/C:N/I:N/A:H"
def mediumVector : String := "CVSS:3.1/AV:N/AC:L/PR:N/UI:N/S:U/C:L/I:N/A:N"

def exampleScore (vector : String) : CvssScore :=
  if vector = criticalVector then
    { score := 49 / 5, rating := .critical, hasScore := true }
  else if vector = highVector then
    { score := 15 / 2, rating := .high, hasScore := true }
  else if vector = mediumVector then
    { score := 53 / 10, rating := .medium, hasScore := true }
  else {}

/-- One CVE with two scores, and another one scored between them. -/
def interleavedAnswer : Result HttpResponse where
  value :=
    { statusCode := 200
      body := some (.object [("vulnerabilities",
        .array [scoredEntry "CVE-2024-0001" criticalVector,
          scoredEntry "CVE-2024-0002" highVector,
          scoredEntry "CVE-2024-0001" mediumVector])]) }

/-- The hit names the first CVE twice. -/
theorem not_hitsFinalised_interleaved :
    ¬ HitsFinalised exampleScore {} 0 (fun _ _ => interleavedAnswer)
      [{ name := "zlib", purl := "pkg:conan/zlib@1.2.11" }]
      { value := none } := by
  intro h
  have hhits : (matchViaCpe exampleScore {} 0 (fun _ _ => interleavedAnswer)
      [{ name := "zlib", purl := "pkg:conan/zlib@1.2.11" }]
      { value := none }).result.value.hits.map
        (fun hit => hit.advisories.map ScoredAdvisory.id) =
      [["CVE-2024-0001", "CVE-2024-0002", "CVE-2024-0001"]] := by
    decide +kernel
  obtain ⟨hit, hhit, hids⟩ := List.mem_map.mp
    (hhits ▸ List.mem_singleton_self _)
  obtain ⟨cpe, payload, -, -, hfinalised⟩ := h hit hhit
  have hdistinct := hfinalised.distinct
  rw [hids] at hdistinct
  exact absurd hdistinct (by decide)

end Bomwerk.Vuln.Nvd
