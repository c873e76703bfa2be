import Bomwerk.Vuln.Nvd.Answers

/-!
# What a payload states, and what is read out of it

`extract_advisories` and the last loop of `match_via_cpe` against the fields of
the payloads: the readable CVE ids are all reported, and a declared total above
their number is warned about.
-/

namespace Bomwerk.Vuln.Nvd

open Bomwerk.Core Bomwerk.Support

/-- The `vulnerabilities` array; nothing for a payload without one. -/
def vulnerabilities? (payload : JsonText) : Option (List Json) :=
  (parseBoundedJson payload).bind (·.findArray? "vulnerabilities")

def cveId? (entry : Json) : Option String :=
  (entry.find? "cve").bind (·.findString? "id")

def entries (payload : JsonText) : List Json :=
  (vulnerabilities? payload).getD []

def cveIds (payload : JsonText) : Finset String :=
  ((entries payload).filterMap cveId?).toFinset

def nonnegative? : Json → Option Nat
  | .integer value => if 0 ≤ value then some value.toNat else none
  | _ => none

/-- `totalResults`, when it is a non-negative integer. -/
def declaredTotal? (payload : JsonText) : Option Nat :=
  ((parseBoundedJson payload).bind (·.find? "totalResults")).bind nonnegative?

/-- Every entry has a readable CVE id, and a total is declared that the ids
reach. -/
structure StatesAll (payload : JsonText) : Prop where
  readable : ∀ entry ∈ entries payload, (cveId? entry).isSome = true
  counted : ∃ total, declaredTotal? payload = some total ∧
    total ≤ (cveIds payload).card

/-- A declared total that the code sees and the readable entries do not
reach. -/
def Overflows (payload : JsonText) : Prop :=
  ∃ total, declaredTotal? payload = some total ∧ total < 2 ^ 64 ∧
    ((entries payload).filterMap cveId?).length < total

/-- The code has nothing to say about the payload. -/
def IsUnremarkable (payload : JsonText) : Prop :=
  (vulnerabilities? payload).isSome = true ∧ ¬ Overflows payload

/-! ## `extract_advisories` -/

section Extract

variable (scoreCvssVector : String → CvssScore)

theorem vulnerabilities?_eq (payload : JsonText) :
    vulnerabilities? payload =
      ((parseBoundedJson payload).filter Json.isObject).bind
        (·.findArray? "vulnerabilities") := by
  unfold vulnerabilities?
  cases parseBoundedJson payload with
  | none => rfl
  | some document => cases document <;> rfl

theorem map_id_filterMap_scoredAdvisory? (entries : List Json) :
    (entries.filterMap (scoredAdvisory? scoreCvssVector)).map
      ScoredAdvisory.id = entries.filterMap cveId? := by
  rw [List.map_filterMap]
  refine List.filterMap_congr fun entry _ => ?_
  unfold scoredAdvisory? cveId?
  cases entry.find? "cve" with
  | none => rfl
  | some cve => cases hid : cve.findString? "id" <;> simp [hid]

theorem unsignedNumber?_any_lt (number : Option Json) (n : Nat) :
    (number.bind unsignedNumber?).any (n < ·) = true ↔
      ∃ total, number.bind nonnegative? = some total ∧ total < 2 ^ 64 ∧
        n < total := by
  cases number with
  | none => simp
  | some number =>
    cases number with
    | integer value =>
      simp only [Option.bind_some, unsignedNumber?, nonnegative?]
      split_ifs with hunsigned hnonneg hnonneg
      · have hfits : value.toNat < 2 ^ 64 := by omega
        simp only [Option.any_some, decide_eq_true_eq, Option.some.injEq,
          exists_eq_left', hfits, true_and]
      · exact absurd hunsigned.1 hnonneg
      · have hlarge : ¬ value.toNat < 2 ^ 64 := by omega
        simp only [Option.any_none, Bool.false_eq_true, Option.some.injEq,
          exists_eq_left', hlarge, false_and]
      · simp
    | _ => simp [unsignedNumber?, nonnegative?]

theorem extractAdvisories_malformed (payload : JsonText) :
    (extractAdvisories scoreCvssVector payload).malformed = false ↔
      (vulnerabilities? payload).isSome = true := by
  rw [vulnerabilities?_eq]
  unfold extractAdvisories
  cases (parseBoundedJson payload).filter Json.isObject with
  | none => simp
  | some document =>
    cases hfind : document.findArray? "vulnerabilities" <;> simp [hfind]

theorem map_id_extractAdvisories (payload : JsonText) :
    (extractAdvisories scoreCvssVector payload).advisories.map
      ScoredAdvisory.id = (entries payload).filterMap cveId? := by
  rw [entries, vulnerabilities?_eq]
  unfold extractAdvisories
  cases (parseBoundedJson payload).filter Json.isObject with
  | none => rfl
  | some document =>
    cases hfind : document.findArray? "vulnerabilities" with
    | none => simp [hfind]
    | some vulnerabilities =>
      simp only [Option.bind_some, hfind, Option.getD_some]
      exact map_id_filterMap_scoredAdvisory? _ _

theorem extractAdvisories_truncated {payload : JsonText}
    (hsome : (vulnerabilities? payload).isSome = true) :
    (extractAdvisories scoreCvssVector payload).truncated = true ↔
      Overflows payload := by
  obtain ⟨vulnerabilities, hvulnerabilities⟩ :=
    Option.isSome_iff_exists.mp hsome
  have hentries : entries payload = vulnerabilities := by
    simp [entries, hvulnerabilities]
  have hfilter := vulnerabilities?_eq payload
  rw [hvulnerabilities] at hfilter
  unfold vulnerabilities? at hvulnerabilities
  obtain ⟨document, hparse, hfind⟩ :=
    Option.bind_eq_some_iff.mp hvulnerabilities
  have hobject : document.isObject = true := by
    cases document <;> first | rfl | simp [Json.findArray?, Json.find?] at hfind
  have hlength : (vulnerabilities.filterMap
      (scoredAdvisory? scoreCvssVector)).length =
        (vulnerabilities.filterMap cveId?).length := by
    rw [← map_id_filterMap_scoredAdvisory? scoreCvssVector, List.length_map]
  unfold extractAdvisories Overflows declaredTotal?
  simp only [hparse, Option.filter_some, hobject, if_true, hfind,
    hentries, hlength, Option.bind_some]
  exact unsignedNumber?_any_lt _ _

theorem isUnremarkable_iff (payload : JsonText) :
    IsUnremarkable payload ↔
      (extractAdvisories scoreCvssVector payload).malformed = false ∧
        (extractAdvisories scoreCvssVector payload).truncated = false := by
  rw [extractAdvisories_malformed]
  refine and_congr_right fun hsome => ?_
  rw [← extractAdvisories_truncated scoreCvssVector hsome, Bool.not_eq_true]

theorem mem_map_id_finalizeAdvisories_iff {advisories : List ScoredAdvisory}
    {id : String} :
    id ∈ (finalizeAdvisories advisories).map ScoredAdvisory.id ↔
      id ∈ advisories.map ScoredAdvisory.id :=
  map_key_mem_sortUnique_iff

end Extract

/-! ## The last loop -/

section Assemble

variable {scoreCvssVector : String → CvssScore}
  {payloadByCpe : OrderedMap String JsonText} {state : Result Assembly}
  {query : String × OrderedSet String}

/-- The queries whose payload the last loop reads advisories out of. -/
def IsRead (payloadByCpe : OrderedMap String JsonText)
    (query : String × OrderedSet String) (payload : JsonText) : Prop :=
  payloadByCpe[query.1]? = some payload ∧
    (vulnerabilities? payload).isSome = true

/-- What the loop owes to the queries behind it. -/
structure Assembled (scoreCvssVector : String → CvssScore)
    (payloadByCpe : OrderedMap String JsonText)
    (queries : List (String × OrderedSet String)) (state : Result Assembly) :
    Prop where
  checked : ∀ purl, purl ∈ state.value.outcome.cpeCheckedPurls ↔
    ∃ query ∈ queries, purl ∈ query.2 ∧ ∃ payload,
      IsRead payloadByCpe query payload
  hits : ∀ hit, hit ∈ state.value.outcome.hits ↔
    ∃ query ∈ queries, hit.purl ∈ query.2 ∧ ∃ payload,
      IsRead payloadByCpe query payload ∧
      (extractAdvisories scoreCvssVector payload).advisories ≠ [] ∧
      hit.advisories = finalizeAdvisories
        (extractAdvisories scoreCvssVector payload).advisories
  quiet : Quiet state.warnings ↔ ∀ query ∈ queries, ∀ payload,
    payloadByCpe[query.1]? = some payload → IsUnremarkable payload
  warned : state.value.truncationWarned = true → ¬ Quiet state.warnings

theorem assembled_nil : Assembled scoreCvssVector payloadByCpe []
    { value := {} } := by
  constructor <;> simp

/-- A turn that leaves the outcome: the CPE has no payload that is read. -/
theorem Assembled.skip {queries : List (String × OrderedSet String)}
    {after : Result Assembly}
    (hstate : Assembled scoreCvssVector payloadByCpe queries state)
    (hread : ∀ payload, ¬ IsRead payloadByCpe query payload)
    (hvalue : after.value = state.value)
    (hquiet : Quiet after.warnings ↔ Quiet state.warnings ∧ ∀ payload,
      payloadByCpe[query.1]? = some payload → IsUnremarkable payload) :
    Assembled scoreCvssVector payloadByCpe (queries ++ [query]) after where
  checked purl := by
    rw [hvalue, hstate.checked]
    simp [or_and_right, exists_or, hread]
  hits hit := by
    rw [hvalue, hstate.hits]
    simp [or_and_right, exists_or, hread]
  quiet := by
    rw [hquiet, hstate.quiet]
    simp [or_imp, forall_and]
  warned := by
    rw [hvalue, hquiet]
    intro hwarned hboth
    exact hstate.warned hwarned hboth.1

theorem Assembled.snoc {queries : List (String × OrderedSet String)}
    (hstate : Assembled scoreCvssVector payloadByCpe queries state) :
    Assembled scoreCvssVector payloadByCpe (queries ++ [query])
      (assembleCpe scoreCvssVector payloadByCpe state query) := by
  cases hpayload : payloadByCpe[query.1]? with
  | none =>
    have hsame : assembleCpe scoreCvssVector payloadByCpe state query =
        state := by
      simp [assembleCpe, hpayload]
    rw [hsame]
    apply hstate.skip
    · intro payload hread
      simp [IsRead, hpayload] at hread
    · rfl
    · simp [hpayload]
  | some payload =>
    have hunique : ∀ {other : JsonText}, IsRead payloadByCpe query other ↔
          other = payload ∧ (vulnerabilities? payload).isSome = true := by
      intro other
      simp only [IsRead, hpayload, Option.some.injEq]
      constructor
      · rintro ⟨rfl, hsome⟩
        exact ⟨rfl, hsome⟩
      · rintro ⟨rfl, hsome⟩
        exact ⟨rfl, hsome⟩
    have hremarks := isUnremarkable_iff scoreCvssVector payload
    have hsome := extractAdvisories_malformed scoreCvssVector payload
    cases hmalformed : (extractAdvisories scoreCvssVector payload).malformed
    with
    | true =>
      rw [hmalformed] at hsome hremarks
      simp only [assembleCpe, hpayload, hmalformed, if_true]
      apply hstate.skip
      · intro other hread
        exact absurd (hsome.mpr (hunique.mp hread).2) (by simp)
      · rfl
      · simp [hpayload, hremarks, Quiet, isCoverageCode]
    | false =>
      rw [hmalformed] at hsome hremarks
      have hsome := hsome.mp rfl
      simp only [assembleCpe, hpayload, hmalformed, Bool.false_eq_true,
        if_false]
      constructor
      · intro purl
        simp only [List.mem_append, Std.ExtTreeSet.mem_toList, hstate.checked]
        simp [or_and_right, exists_or, hunique, hsome]
      · intro hit
        cases hadvisories :
          (extractAdvisories scoreCvssVector payload).advisories with
        | nil =>
          rw [List.isEmpty_nil, if_pos rfl, hstate.hits]
          simp [or_and_right, exists_or, hunique, hadvisories]
        | cons advisory advisories =>
          rw [List.isEmpty_cons, if_neg (by simp), List.mem_append, hstate.hits]
          simp only [List.mem_append, List.mem_singleton,
            or_and_right, exists_or, exists_eq_left, hunique, hsome,
            and_true, exists_eq_left, hadvisories]
          refine or_congr_right ?_
          simp only [List.mem_map, Std.ExtTreeSet.mem_toList]
          constructor
          · rintro ⟨purl, hpurl, rfl⟩
            exact ⟨hpurl, by simp, rfl⟩
          · rintro ⟨hpurl, -, heq⟩
            exact ⟨hit.purl, hpurl, by rw [← heq]⟩
      · rw [quiet_warnIf _ _ rfl]
        have hlast : (∀ query' ∈ queries ++ [query], ∀ payload,
            payloadByCpe[query'.1]? = some payload → IsUnremarkable payload) ↔
            Quiet state.warnings ∧ IsUnremarkable payload := by
          rw [hstate.quiet]
          simp [or_imp, forall_and, hpayload]
        rw [hlast, hremarks, and_iff_right rfl]
        refine and_congr_right fun hquiet => ?_
        -- A quiet loop has not seen a truncated payload yet.
        have hunwarned : state.value.truncationWarned = false :=
          Bool.eq_false_iff.mpr fun h => hstate.warned h hquiet
        simp [hunwarned]
      · intro hwarned
        rw [quiet_warnIf _ _ rfl]
        rintro ⟨hquiet, hcondition⟩
        have hunwarned : state.value.truncationWarned = false :=
          Bool.eq_false_iff.mpr fun h => hstate.warned h hquiet
        simp_all

theorem assembled_assemble (queries : List (String × OrderedSet String)) :
    Assembled scoreCvssVector payloadByCpe queries
      (assemble scoreCvssVector payloadByCpe queries) := by
  induction queries using List.reverseRecOn with
  | nil => exact assembled_nil
  | append_singleton queries query ih =>
    rw [assemble, List.foldl_append]
    exact ih.snoc

end Assemble
end Bomwerk.Vuln.Nvd
