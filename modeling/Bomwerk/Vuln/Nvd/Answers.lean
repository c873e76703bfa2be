import Bomwerk.Vuln.Nvd.Match
import Mathlib.Tactic.SplitIfs

/-!
# The answer of one CPE

Each CPE is looked up under a key of its own, so what the loop of
`match_via_cpe` decides for it depends on the cache the run starts from and on
the response to its own request only.
-/

namespace Bomwerk.Vuln.Nvd

open Bomwerk.Core Bomwerk.Support

/-- The codes that tell of an answer which may be incomplete. -/
def isCoverageCode (code : WarningCode) : Bool :=
  code = .vulnCoverageIncomplete ∨ code = .vulnResponseMalformed

def Quiet (warnings : List Warning) : Prop :=
  ∀ warning ∈ warnings, isCoverageCode warning.code = false

@[simp] theorem quiet_nil : Quiet [] := by
  simp [Quiet]

@[simp] theorem quiet_append (left right : List Warning) :
    Quiet (left ++ right) ↔ Quiet left ∧ Quiet right := by
  simp only [Quiet, List.mem_append]
  constructor
  · intro h
    exact ⟨fun w hw => h w (.inl hw), fun w hw => h w (.inr hw)⟩
  · rintro ⟨hleft, hright⟩ w (hw | hw)
    · exact hleft w hw
    · exact hright w hw

theorem quiet_warnIf {α : Type*} (result : Result α) (condition : Bool)
    {code : WarningCode} (hcode : isCoverageCode code = true)
    (message : String) :
    Quiet (result.warnIf condition code message).warnings ↔
      Quiet result.warnings ∧ condition = false := by
  rw [Result.warnIf_warnings]
  cases condition <;> simp [Quiet, hcode]

theorem isSafeCpeCharacter_of_validatedSegment {segment valid : String}
    (hvalid : validatedSegment segment = some valid) :
    ∀ c ∈ valid.toList, isSafeCpeCharacter c = true := by
  simp only [validatedSegment] at hvalid
  split_ifs at hvalid with hbad
  obtain rfl := Option.some.inj hvalid
  simp only [not_or, List.any_eq_true, Bool.not_eq_true', not_exists,
    not_and, Bool.not_eq_false] at hbad
  exact hbad.2.2

theorem nul_not_mem_cpeMatchString {purl cpe : String}
    (hcpe : cpeMatchStringFor purl = some cpe) : '\x00' ∉ cpe.toList := by
  unfold cpeMatchStringFor at hcpe
  simp only [Option.bind_eq_bind, Option.bind_eq_some_iff] at hcpe
  obtain ⟨-, -, product, hproduct, version, hversion, heq⟩ := hcpe
  obtain rfl := Option.some.inj heq
  have hsafe : ∀ {segment valid : String},
      validatedSegment segment = some valid → '\x00' ∉ valid.toList := by
    intro segment valid hvalid hmem
    have h := isSafeCpeCharacter_of_validatedSegment hvalid _ hmem
    exact absurd h (by decide)
  have hproduct := hsafe hproduct
  have hversion := hsafe hversion
  simp [String.toList_append, hproduct, hversion]

theorem cString_cacheKey {cpe : String} (hplain : '\x00' ∉ cpe.toList) :
    cString (cacheKey cpe) = cacheKey cpe := by
  rw [cString_eq_self_iff, cacheKey, String.toList_append, List.mem_append]
  rintro (hmem | hmem)
  · exact hplain hmem
  · exact absurd hmem (by decide)

theorem cacheKey_injective : Function.Injective cacheKey := by
  intro left right heq
  simpa [cacheKey, ← String.toList_inj, String.toList_append] using heq

theorem lookup_store_cacheKey_of_ne {cpe other : String}
    (hcpe : '\x00' ∉ cpe.toList) (hother : '\x00' ∉ other.toList)
    (hne : other ≠ cpe) (cache : VulnCache) (now : Int) (payload : JsonText) :
    (cache.store (cacheKey cpe) now payload).lookup (cacheKey other) =
      cache.lookup (cacheKey other) := by
  rw [VulnCache.lookup_store, cString_cacheKey hcpe, cString_cacheKey hother]
  have hkeys : cacheKey other ≠ cacheKey cpe := fun h =>
    hne (cacheKey_injective h)
  simp [hkeys]

/-! ## Answers -/

/-- How the loop of `match_via_cpe` answers one CPE. -/
inductive Answer
  | fresh (payload : JsonText)
  | fetched (document : Json)
  | stale (payload : JsonText)
  | unresolved

namespace Answer

/-- The payload of the answer; nothing for a CPE that stays unresolved. -/
def payload? : Answer → Option JsonText
  | fresh payload => some payload
  | fetched document => some document.dump
  | stale payload => some payload
  | unresolved => none

/-- An answer no older than the refresh horizon. -/
def isCurrent : Answer → Bool
  | fresh _ => true
  | fetched _ => true
  | stale _ => false
  | unresolved => false

/-- What is left for a CPE that could not be asked for. -/
def ofCached : Option VulnCacheEntry → Answer
  | some entry => stale entry.payload
  | none => unresolved

end Answer

section Answers

variable (options : NvdOptions) (now : Int) (httpGet : Transport)
  (cache : VulnCache)

/-- The entry that answers a CPE without a request. -/
def freshCached? (cpe : String) : Option VulnCacheEntry :=
  (cache.lookup (cacheKey cpe)).filter (isFresh options now)

def needsRequest (cpe : String) : Bool :=
  (freshCached? options now cache cpe).isNone && !options.offline

/-- The answer of a CPE whose request, if it makes one, comes after
`requestCount` others. -/
def answerAt (requestCount : Nat) (cpe : String) : Answer :=
  match freshCached? options now cache cpe with
  | some entry => .fresh entry.payload
  | none =>
    if options.offline then .ofCached (cache.lookup (cacheKey cpe))
    else
      match usableDocument (responseFor options httpGet requestCount
          cpe).value with
      | some document => .fetched document
      | none => .ofCached (cache.lookup (cacheKey cpe))

/-- The CPE is answered, and nothing on the way to its answer warns. -/
def IsAnswered (requestCount : Nat) (cpe : String) : Prop :=
  (answerAt options now httpGet cache requestCount cpe).isCurrent = true ∧
    (needsRequest options now cache cpe = true →
      Quiet (responseFor options httpGet requestCount cpe).warnings)

def requestsBefore (cpes : List String) (cpe : String) : Nat :=
  (cpes.takeWhile (· ≠ cpe)).countP (needsRequest options now cache)

/-- No warning of the loop, made or due behind it. -/
def IsCalm (state : Result LoopState) : Prop :=
  Quiet state.warnings ∧ state.value.staleFallbackCount = 0 ∧
    state.value.unresolvedCount = 0

variable {options now httpGet cache} {state : Result LoopState} {cpe : String}

/-- One turn of the loop gives the answer of its CPE and leaves the entries of
the other ones. -/
structure IsTurn (options : NvdOptions) (now : Int) (httpGet : Transport)
    (cache : VulnCache) (cpe : String) (before after : Result LoopState) :
    Prop where
  payloadByCpe : ∀ other : String, after.value.payloadByCpe[other]? =
    if other = cpe then
      (answerAt options now httpGet cache before.value.requestCount
        cpe).payload?.or before.value.payloadByCpe[other]?
    else before.value.payloadByCpe[other]?
  requestCount : after.value.requestCount = before.value.requestCount +
    if needsRequest options now cache cpe then 1 else 0
  isCalm : IsCalm after ↔ IsCalm before ∧
    IsAnswered options now httpGet cache before.value.requestCount cpe
  lookup : ∀ other : String, '\x00' ∉ other.toList → other ≠ cpe →
    after.value.cache.lookup (cacheKey other) =
      before.value.cache.lookup (cacheKey other)

theorem fallBack_payloadByCpe (state : LoopState)
    (cachedEntry : Option VulnCacheEntry) (other : String) :
    (state.fallBack cpe cachedEntry).payloadByCpe[other]? =
      if other = cpe then
        (Answer.ofCached cachedEntry).payload?.or state.payloadByCpe[other]?
      else state.payloadByCpe[other]? := by
  cases cachedEntry with
  | some entry =>
    simp only [LoopState.fallBack, getElem?_insert_eq, Answer.ofCached,
      Answer.payload?, Option.some_or]
  | none => simp [LoopState.fallBack, Answer.ofCached, Answer.payload?]

theorem fallBack_counts (state : LoopState)
    (cachedEntry : Option VulnCacheEntry) :
    ¬ ((state.fallBack cpe cachedEntry).staleFallbackCount = 0 ∧
      (state.fallBack cpe cachedEntry).unresolvedCount = 0) := by
  cases cachedEntry <;> simp [LoopState.fallBack]

@[simp] theorem fallBack_requestCount (state : LoopState)
    (cachedEntry : Option VulnCacheEntry) :
    (state.fallBack cpe cachedEntry).requestCount = state.requestCount := by
  cases cachedEntry <;> rfl

@[simp] theorem fallBack_cache (state : LoopState)
    (cachedEntry : Option VulnCacheEntry) :
    (state.fallBack cpe cachedEntry).cache = state.cache := by
  cases cachedEntry <;> rfl

@[simp] theorem isCurrent_ofCached (cachedEntry : Option VulnCacheEntry) :
    (Answer.ofCached cachedEntry).isCurrent = false := by
  cases cachedEntry <;> rfl

theorem isTurn_fetchCpe (hplain : '\x00' ∉ cpe.toList)
    (hfresh : freshCached? options now cache cpe = none)
    (honline : options.offline = false) :
    IsTurn options now httpGet cache cpe state
      (fetchCpe options now httpGet state cpe
        (cache.lookup (cacheKey cpe))) := by
  have hneeds : needsRequest options now cache cpe = true := by
    simp [needsRequest, hfresh, honline]
  have hanswer : answerAt options now httpGet cache state.value.requestCount
      cpe = match usableDocument (responseFor options httpGet
        state.value.requestCount cpe).value with
      | some document => .fetched document
      | none => .ofCached (cache.lookup (cacheKey cpe)) := by
    simp [answerAt, hfresh, honline]
  cases husable : usableDocument (responseFor options httpGet
    state.value.requestCount cpe).value with
  | some document =>
    rw [husable] at hanswer
    simp only [fetchCpe, husable]
    refine ⟨?_, ?_, ?_, ?_⟩
    · intro other
      simp only [hanswer, Answer.payload?, Option.some_or, getElem?_insert_eq]
    · simp [hneeds]
    · simp only [IsCalm, IsAnswered, hanswer, hneeds, Answer.isCurrent,
        Result.absorb_warnings, quiet_append]
      tauto
    · intro other hother hne
      exact lookup_store_cacheKey_of_ne hplain hother hne _ _ _
  | none =>
    rw [husable] at hanswer
    simp only [fetchCpe, husable]
    refine ⟨?_, ?_, ?_, ?_⟩
    · intro other
      simp only [hanswer, Result.warnIf_value, fallBack_payloadByCpe]
    · simp [hneeds]
    · have hcounts := @fallBack_counts cpe { state.value with
        requestCount := state.value.requestCount + 1 }
          (cache.lookup (cacheKey cpe))
      simp only [IsCalm, IsAnswered, hanswer, isCurrent_ofCached,
        Result.warnIf_value]
      tauto
    · intro other hother hne
      simp

/-- What one turn of the loop does. -/
theorem isTurn_answerCpe (hplain : '\x00' ∉ cpe.toList)
    (hlookup : state.value.cache.lookup (cacheKey cpe) =
      cache.lookup (cacheKey cpe)) :
    IsTurn options now httpGet cache cpe state
      (answerCpe options now httpGet state cpe) := by
  simp only [answerCpe, hlookup]
  cases hfresh : freshCached? options now cache cpe with
  | some entry =>
    have hanswer : answerAt options now httpGet cache
        state.value.requestCount cpe = .fresh entry.payload := by
      simp [answerAt, hfresh]
    have hneeds : needsRequest options now cache cpe = false := by
      simp [needsRequest, hfresh]
    simp only [freshCached?] at hfresh
    simp only [hfresh]
    refine ⟨?_, ?_, ?_, ?_⟩
    · intro other
      simp only [hanswer, Answer.payload?, Option.some_or, getElem?_insert_eq]
    · simp [hneeds]
    · simp [IsCalm, IsAnswered, hanswer, hneeds, Answer.isCurrent]
    · intro other hother hne
      rfl
  | none =>
    have hfilter := hfresh
    simp only [freshCached?] at hfilter
    simp only [hfilter]
    cases honline : options.offline with
    | false => exact isTurn_fetchCpe hplain hfresh honline
    | true =>
      have hanswer : answerAt options now httpGet cache
          state.value.requestCount cpe =
            .ofCached (cache.lookup (cacheKey cpe)) := by
        simp [answerAt, hfresh, honline]
      have hneeds : needsRequest options now cache cpe = false := by
        simp [needsRequest, honline]
      refine ⟨?_, ?_, ?_, ?_⟩
      · intro other
        simp only [hanswer, if_true, fallBack_payloadByCpe]
      · simp [hneeds]
      · have hcounts := @fallBack_counts cpe state.value
          (cache.lookup (cacheKey cpe))
        simp only [IsCalm, IsAnswered, hanswer, isCurrent_ofCached, if_true]
        tauto
      · intro other hother hne
        simp

/-- The loop over CPEs gives each one the answer that the requests before it
leave for it. -/
theorem foldl_answerCpe {cpes : List String} (hnodup : cpes.Nodup)
    (hplain : ∀ cpe ∈ cpes, '\x00' ∉ cpe.toList)
    (hlookup : ∀ cpe ∈ cpes, state.value.cache.lookup (cacheKey cpe) =
      cache.lookup (cacheKey cpe)) :
    (∀ cpe : String, (cpes.foldl (answerCpe options now httpGet)
          state).value.payloadByCpe[cpe]? =
        if cpe ∈ cpes then
          (answerAt options now httpGet cache (state.value.requestCount +
            requestsBefore options now cache cpes cpe) cpe).payload?.or
              state.value.payloadByCpe[cpe]?
        else state.value.payloadByCpe[cpe]?) ∧
    (IsCalm (cpes.foldl (answerCpe options now httpGet) state) ↔
      IsCalm state ∧ ∀ cpe ∈ cpes,
        IsAnswered options now httpGet cache (state.value.requestCount +
          requestsBefore options now cache cpes cpe) cpe) := by
  induction cpes generalizing state with
  | nil => simp
  | cons head cpes ih =>
    rw [List.nodup_cons] at hnodup
    simp only [List.forall_mem_cons] at hplain hlookup
    have hturn : IsTurn options now httpGet cache head state
        (answerCpe options now httpGet state head) :=
      isTurn_answerCpe hplain.1 hlookup.1
    have hne : ∀ cpe ∈ cpes, cpe ≠ head := by
      rintro cpe hcpe rfl
      exact hnodup.1 hcpe
    have hrest : ∀ cpe ∈ cpes,
        (answerCpe options now httpGet state head).value.cache.lookup
          (cacheKey cpe) = cache.lookup (cacheKey cpe) := by
      intro cpe hcpe
      rw [hturn.lookup cpe (hplain.2 cpe hcpe) (hne cpe hcpe)]
      exact hlookup.2 cpe hcpe
    obtain ⟨ihPayload, ihCalm⟩ := ih hnodup.2 hplain.2 hrest
    have hbeforeHead :
        requestsBefore options now cache (head :: cpes) head = 0 := by
      simp [requestsBefore]
    -- The head's own request, if any, comes before those of the tail.
    have hbefore : ∀ cpe ∈ cpes,
        (answerCpe options now httpGet state head).value.requestCount +
            requestsBefore options now cache cpes cpe =
          state.value.requestCount +
            requestsBefore options now cache (head :: cpes) cpe := by
      intro cpe hcpe
      have htake : (head :: cpes).takeWhile (· ≠ cpe) =
          head :: cpes.takeWhile (· ≠ cpe) := by
        simp [(hne cpe hcpe).symm]
      rw [hturn.requestCount, requestsBefore, requestsBefore, htake,
        List.countP_cons]
      omega
    rw [List.foldl_cons]
    constructor
    · intro cpe
      rw [ihPayload cpe, hturn.payloadByCpe cpe]
      by_cases hhead : cpe = head
      · subst hhead
        simp [hnodup.1, hbeforeHead]
      · by_cases hmem : cpe ∈ cpes
        · rw [if_pos hmem, if_neg hhead, hbefore cpe hmem,
            if_pos (List.mem_cons_of_mem _ hmem)]
        · simp [hmem, hhead]
    · rw [ihCalm, hturn.isCalm, and_assoc, List.forall_mem_cons,
        hbeforeHead, Nat.add_zero]
      refine and_congr_right fun _ => and_congr_right fun _ => ?_
      refine forall₂_congr fun cpe hcpe => ?_
      rw [hbefore cpe hcpe]

end Answers
end Bomwerk.Vuln.Nvd
