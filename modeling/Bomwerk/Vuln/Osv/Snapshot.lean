import Bomwerk.Vuln.Osv.Examination

/-!
# The advisory snapshot

What the examination of the answers does to the stored snapshots: one turn
rewrites the rows of one purl, so the whole loop rewrites the rows of each
answered purl once.
-/

namespace Bomwerk.Vuln

open Bomwerk.Core Bomwerk.Support

theorem cString_le (text : String) : cString text ≤ text := by
  rw [String.le_iff_toList_le, cString, String.toList_ofList]
  have hprefix : text.toList.takeWhile (· ≠ '\x00') <+: text.toList :=
    List.takeWhile_prefix _
  exact not_lt.mp hprefix.le

section Delta

variable {purl : String} {previous : List AdvisoryRevision}
  {extracted : ExtractedPayload}

theorem answerDelta_purl :
    (answerDelta purl previous extracted).purl = purl := by
  unfold answerDelta
  split_ifs <;> exact diffAdvisoryRevisions_purl _ _ _

theorem mem_removed_answerDelta (hprevious : SortedById previous) {id : String}
    (hid : id ∈ (answerDelta purl previous extracted).removedAdvisoryIds) :
    extracted.truncated = false ∧ id ∈ advisoryIds previous ∧ id ∉ advisoryIds
        (sortAndDeduplicateRevisions extracted.advisoryRevisions) := by
  unfold answerDelta at hid
  split_ifs at hid with htruncated
  · simp at hid
  · have hdelta := diffAdvisoryRevisions_isDelta purl hprevious
      (sortedById_sortAndDeduplicateRevisions extracted.advisoryRevisions)
    exact ⟨by simpa using htruncated, (hdelta.removed id).mp hid⟩

/-- What a stored snapshot must say for an answer to change nothing. -/
def Records (previous : List AdvisoryRevision) (extracted : ExtractedPayload) :
    Prop :=
  if extracted.truncated then
    sortAndDeduplicateRevisions extracted.advisoryRevisions ⊆ previous
  else previous = sortAndDeduplicateRevisions extracted.advisoryRevisions

instance : Decidable (Records previous extracted) := by
  unfold Records
  infer_instance

theorem isUnchanged_answerDelta_iff (purl : String)
    (hprevious : SortedById previous) :
    (answerDelta purl previous extracted).isUnchanged = true ↔
      Records previous extracted := by
  have hcurrent := sortedById_sortAndDeduplicateRevisions
    extracted.advisoryRevisions
  unfold answerDelta Records
  split_ifs
  · rw [PurlAdvisoryDelta.isUnchanged_iff,
      ← (diffAdvisoryRevisions_isDelta purl hprevious hcurrent).no_gain_iff
        hprevious]
    simp
  · exact isUnchanged_diffAdvisoryRevisions_iff purl hprevious hcurrent

theorem removed_eq_nil_of_records (hprevious : SortedById previous)
    (hrecords : Records previous extracted) :
    (answerDelta purl previous extracted).removedAdvisoryIds = [] :=
  (PurlAdvisoryDelta.isUnchanged_iff.mp
    ((isUnchanged_answerDelta_iff purl hprevious).mpr hrecords)).2.2

end Delta

def answeredRows (rows : SnapshotRows) (purl : String)
    (previous : List AdvisoryRevision) (payload : JsonText) (now : Int) :
    SnapshotRows :=
  replaceRows rows (answerRevisions payload)
    (answerDelta purl previous
      (extractAdvisoryRevisions payload)).removedAdvisoryIds now

section AnsweredRows

variable {rows : SnapshotRows} {purl : String}
  {previous : List AdvisoryRevision} {payload : JsonText} {now : Int}

theorem answeredRows_of_mem (hprevious : SortedById previous)
    {revision : AdvisoryRevision} (hrevision : revision ∈ answerRevisions payload) :
    (answeredRows rows purl previous payload now)[revision.advisoryId]? =
      some { modified := revision.modified,
             firstSeenAt :=
               (rows[revision.advisoryId]?.map SnapshotRow.firstSeenAt).getD
                 now,
             lastSeenAt := now } := by
  refine replaceRows_of_mem (sortedById_sortAndDeduplicateRevisions _)
    hrevision fun hremoved => ?_
  exact (mem_removed_answerDelta hprevious hremoved).2.2
    (List.mem_map_of_mem hrevision)

theorem answeredRows_of_notMem {id : String}
    (hid : id ∉ advisoryIds (answerRevisions payload)) :
    (answeredRows rows purl previous payload now)[id]? =
      if id ∈ (answerDelta purl previous
          (extractAdvisoryRevisions payload)).removedAdvisoryIds then none
      else rows[id]? := by
  unfold answeredRows
  split_ifs with hremoved
  · exact replaceRows_of_removed hremoved
  · exact replaceRows_of_notMem hremoved hid

theorem of_answeredRows_eq_none (hprevious : SortedById previous) {id : String}
    (hbefore : rows[id]?.isSome = true)
    (hafter : (answeredRows rows purl previous payload now)[id]? = none) :
    (extractAdvisoryRevisions payload).truncated = false ∧
      id ∉ advisoryIds (answerRevisions payload) := by
  have hid : id ∉ advisoryIds (answerRevisions payload) := by
    intro hmem
    obtain ⟨revision, hrevision, rfl⟩ := List.mem_map.mp hmem
    simp [answeredRows_of_mem hprevious hrevision] at hafter
  refine ⟨?_, hid⟩
  rw [answeredRows_of_notMem hid] at hafter
  split_ifs at hafter with hremoved
  · exact (mem_removed_answerDelta hprevious hremoved).1
  · simp [hafter] at hbefore

theorem isSome_answeredRows_of_truncated (hprevious : SortedById previous)
    (htruncated : (extractAdvisoryRevisions payload).truncated = true)
    (id : String) :
    (answeredRows rows purl previous payload now)[id]?.isSome = true ↔
      rows[id]?.isSome = true ∨ id ∈ advisoryIds (answerRevisions payload) := by
  by_cases hid : id ∈ advisoryIds (answerRevisions payload)
  · obtain ⟨revision, hrevision, rfl⟩ := List.mem_map.mp hid
    simp [answeredRows_of_mem hprevious hrevision, hid]
  · have hnot : id ∉ (answerDelta purl previous
        (extractAdvisoryRevisions payload)).removedAdvisoryIds := fun h => by
      have := (mem_removed_answerDelta hprevious h).1
      simp [htruncated] at this
    rw [answeredRows_of_notMem hid, if_neg hnot]
    simp [hid]

theorem firstSeenAt_answeredRows (hprevious : SortedById previous)
    {id : String} {before after : SnapshotRow} (hbefore : rows[id]? = some before)
    (hafter : (answeredRows rows purl previous payload now)[id]? = some after) :
    after.firstSeenAt = before.firstSeenAt := by
  by_cases hid : id ∈ advisoryIds (answerRevisions payload)
  · obtain ⟨revision, hrevision, rfl⟩ := List.mem_map.mp hid
    rw [answeredRows_of_mem hprevious hrevision, hbefore] at hafter
    obtain rfl := Option.some.inj hafter
    rfl
  · rw [answeredRows_of_notMem hid] at hafter
    split_ifs at hafter
    rw [hbefore] at hafter
    exact congrArg SnapshotRow.firstSeenAt (Option.some.inj hafter).symm

end AnsweredRows

/-! ## The loop -/

section Loop

variable (scoreCvssVector : String → CvssScore) (options : MatchOptions)
  (now : Int) (stale : Finset String)

theorem examinePurl_snapshotRows (state : Result Examination)
    (hopen : state.value.cache.isSome = true) {purl : String}
    {payload : JsonText}
    (hmalformed : (extractAdvisoryRevisions payload).malformed = false)
    (key : String) :
    (examinePurl scoreCvssVector options now stale state
        (purl, payload)).value.cache.snapshotRows key =
      if key = purl then
        answeredRows (state.value.cache.snapshotRows purl) purl
          (state.value.cache.lookupAdvisorySnapshot purl) payload now
      else state.value.cache.snapshotRows key := by
  rw [examinePurl_cache _ _ _ _ _ hmalformed,
    VulnCache.snapshotRows_storeAdvisorySnapshot _ hopen]
  rfl

theorem examinePurl_snapshotRows_of_ne (state : Result Examination)
    {answer : String × JsonText} {key : String} (hkey : key ≠ answer.1) :
    (examinePurl scoreCvssVector options now stale state
        answer).value.cache.snapshotRows key =
      state.value.cache.snapshotRows key := by
  cases hmalformed : (extractAdvisoryRevisions answer.2).malformed
  · rw [examinePurl_cache _ _ _ _ _ hmalformed,
      VulnCache.snapshotRows_storeAdvisorySnapshot_of_ne _ hkey]
  · rw [examinePurl_of_malformed _ _ _ _ _ hmalformed]

theorem examineAll_append (front back : List (String × JsonText))
    (answer : String × JsonText) (state : Result Examination) :
    examineAll scoreCvssVector options now stale (front ++ answer :: back)
        state =
      examineAll scoreCvssVector options now stale back
        (examinePurl scoreCvssVector options now stale
          (examineAll scoreCvssVector options now stale front state)
          answer) := by
  rw [examineAll, List.foldl_append, List.foldl_cons]
  rfl

theorem examineAll_snapshotRows_of_notMem {answers : List (String × JsonText)}
    {key : String} (hkey : key ∉ answers.map Prod.fst)
    (state : Result Examination) :
    (examineAll scoreCvssVector options now stale answers
        state).value.cache.snapshotRows key =
      state.value.cache.snapshotRows key := by
  induction answers generalizing state with
  | nil => rfl
  | cons answer answers ih =>
    simp only [List.map_cons, List.mem_cons, not_or] at hkey
    exact (ih hkey.2 _).trans
      (examinePurl_snapshotRows_of_ne _ _ _ _ _ hkey.1)

/-- The snapshot an answer is compared with: the rows found under the C string
of its purl.  For a purl with a NUL byte these belong to another purl, which
has had its own turn before. -/
def comparedWith (before after : String → SnapshotRows) (purl : String) :
    List AdvisoryRevision :=
  if cString purl = purl then revisionsOf (before purl)
  else revisionsOf (after (cString purl))

theorem sortedById_comparedWith (before after : String → SnapshotRows)
    (purl : String) : SortedById (comparedWith before after purl) := by
  unfold comparedWith
  split_ifs <;> exact sortedById_revisionsOf _

section Turn

variable {front back : List (String × JsonText)} {purl : String}
  {payload : JsonText}
  (hsorted : (front ++ (purl, payload) :: back).Pairwise
    fun left right => left.1 < right.1)

include hsorted

theorem notMem_front_of_sorted : purl ∉ front.map Prod.fst := by
  intro hmem
  obtain ⟨answer, hanswer, heq⟩ := List.mem_map.mp hmem
  have hlt := (List.pairwise_append.mp hsorted).2.2 answer hanswer
    (purl, payload) (by simp)
  exact absurd hlt (by simp [heq])

theorem notMem_back_of_sorted {key : String} (hkey : key ≤ purl) :
    key ∉ back.map Prod.fst := by
  intro hmem
  obtain ⟨answer, hanswer, rfl⟩ := List.mem_map.mp hmem
  have hlt := (List.pairwise_cons.mp
    (List.pairwise_append.mp hsorted).2.1).1 answer hanswer
  exact absurd hlt (not_lt.mpr hkey)

theorem lookupAdvisorySnapshot_turn (state : Result Examination) :
    (examineAll scoreCvssVector options now stale front
        state).value.cache.lookupAdvisorySnapshot purl =
      comparedWith state.value.cache.snapshotRows
        (examineAll scoreCvssVector options now stale
          (front ++ (purl, payload) :: back) state).value.cache.snapshotRows
        purl := by
  unfold comparedWith VulnCache.lookupAdvisorySnapshot
  split_ifs with hplain
  · rw [hplain, examineAll_snapshotRows_of_notMem _ _ _ _
      (notMem_front_of_sorted hsorted)]
  · have hafter := examineAll_snapshotRows_of_notMem scoreCvssVector options
      now stale (notMem_back_of_sorted hsorted (cString_le purl))
      (examinePurl scoreCvssVector options now stale
        (examineAll scoreCvssVector options now stale front state)
        (purl, payload))
    rw [examinePurl_snapshotRows_of_ne _ _ _ _ _ hplain] at hafter
    rw [examineAll_append]
    exact congrArg revisionsOf hafter.symm

/-- The rows of an answered purl after the loop. -/
theorem snapshotRows_turn (state : Result Examination)
    (hopen : state.value.cache.isSome = true) :
    (examineAll scoreCvssVector options now stale
        (front ++ (purl, payload) :: back) state).value.cache.snapshotRows
        purl =
      if (extractAdvisoryRevisions payload).malformed then
        state.value.cache.snapshotRows purl
      else answeredRows (state.value.cache.snapshotRows purl) purl
        (comparedWith state.value.cache.snapshotRows
          (examineAll scoreCvssVector options now stale
            (front ++ (purl, payload) :: back)
            state).value.cache.snapshotRows purl) payload now := by
  have hrows := examineAll_snapshotRows_of_notMem scoreCvssVector options now
    stale (notMem_front_of_sorted hsorted) state
  have hfinal : (examineAll scoreCvssVector options now stale
      (front ++ (purl, payload) :: back) state).value.cache.snapshotRows purl =
      (examinePurl scoreCvssVector options now stale
        (examineAll scoreCvssVector options now stale front state)
        (purl, payload)).value.cache.snapshotRows purl := by
    rw [examineAll_append]
    exact examineAll_snapshotRows_of_notMem _ _ _ _
      (notMem_back_of_sorted hsorted le_rfl) _
  rw [← lookupAdvisorySnapshot_turn _ _ _ _ hsorted, hfinal]
  cases hmalformed : (extractAdvisoryRevisions payload).malformed
  · rw [examinePurl_snapshotRows _ _ _ _ _
      ((examineAll_isSome _ _ _ _ _ _).trans hopen) hmalformed, if_pos rfl,
      hrows]
    rfl
  · rw [examinePurl_of_malformed _ _ _ _ _ hmalformed, hrows]
    rfl

end Turn

theorem examineAll_snapshotRows_of_mem {answers : List (String × JsonText)}
    (hsorted : answers.Pairwise fun left right => left.1 < right.1)
    {purl : String} {payload : JsonText} (hmem : (purl, payload) ∈ answers)
    (state : Result Examination) (hopen : state.value.cache.isSome = true) :
    (examineAll scoreCvssVector options now stale answers
        state).value.cache.snapshotRows purl =
      if (extractAdvisoryRevisions payload).malformed then
        state.value.cache.snapshotRows purl
      else answeredRows (state.value.cache.snapshotRows purl) purl
        (comparedWith state.value.cache.snapshotRows
          (examineAll scoreCvssVector options now stale answers
            state).value.cache.snapshotRows purl) payload now := by
  obtain ⟨front, back, rfl⟩ := List.append_of_mem hmem
  exact snapshotRows_turn scoreCvssVector options now stale hsorted state hopen

/-! ## The reported deltas -/

theorem changedPurls_prefix (answers : List (String × JsonText))
    (state : Result Examination) :
    state.value.deltas.changedPurls <+:
      (examineAll scoreCvssVector options now stale answers
        state).value.deltas.changedPurls := by
  induction answers generalizing state with
  | nil => exact List.prefix_refl _
  | cons answer answers ih =>
    refine List.IsPrefix.trans ?_ (ih _)
    cases hmalformed : (extractAdvisoryRevisions answer.2).malformed
    · rw [examinePurl_deltas _ _ _ _ _ hmalformed, OsvDeltaReport.push]
      split_ifs
      · exact List.prefix_refl _
      · exact List.prefix_append _ _
    · rw [examinePurl_of_malformed _ _ _ _ _ hmalformed]

/-- A delta is the changed delta of some answer at its turn. -/
def ChangedAtTurn (answers : List (String × JsonText))
    (state : Result Examination) (delta : PurlAdvisoryDelta) : Prop :=
  ∃ front purl payload back, answers = front ++ (purl, payload) :: back ∧
    (extractAdvisoryRevisions payload).malformed = false ∧
    delta = answerDelta purl
      ((examineAll scoreCvssVector options now stale front
        state).value.cache.lookupAdvisorySnapshot purl)
      (extractAdvisoryRevisions payload) ∧
    delta.isUnchanged = false

theorem changedAtTurn_of_mem_changedPurls {answers : List (String × JsonText)}
    {state : Result Examination} {delta : PurlAdvisoryDelta}
    (hdelta : delta ∈ (examineAll scoreCvssVector options now stale answers
      state).value.deltas.changedPurls) :
    delta ∈ state.value.deltas.changedPurls ∨
      ChangedAtTurn scoreCvssVector options now stale answers state delta := by
  induction answers using List.reverseRecOn with
  | nil => exact Or.inl hdelta
  | append_singleton answers answer ih =>
    have hkeep : ∀ h : delta ∈ (examineAll scoreCvssVector options now stale
        answers state).value.deltas.changedPurls,
        delta ∈ state.value.deltas.changedPurls ∨
          ChangedAtTurn scoreCvssVector options now stale
            (answers ++ [answer]) state delta := by
      intro h
      rcases ih h with h | ⟨front, purl, payload, back, heq, hrest⟩
      · exact Or.inl h
      · exact Or.inr
          ⟨front, purl, payload, back ++ [answer], by simp [heq], hrest⟩
    rw [examineAll_append] at hdelta
    change delta ∈ (examinePurl scoreCvssVector options now stale
      (examineAll scoreCvssVector options now stale answers state)
      answer).value.deltas.changedPurls at hdelta
    cases hmalformed : (extractAdvisoryRevisions answer.2).malformed
    · rw [examinePurl_deltas _ _ _ _ _ hmalformed,
        OsvDeltaReport.push] at hdelta
      split_ifs at hdelta with hunchanged
      · exact hkeep hdelta
      · rcases List.mem_append.mp hdelta with h | h
        · exact hkeep h
        · obtain rfl := List.mem_singleton.mp h
          exact Or.inr ⟨answers, answer.1, answer.2, [], by simp, hmalformed,
            rfl, by simpa using hunchanged⟩
    · rw [examinePurl_of_malformed _ _ _ _ _ hmalformed] at hdelta
      exact hkeep hdelta

/-- The loop reports no change exactly when every answer is recorded by the
snapshot it is compared with. -/
theorem changedPurls_examineAll_eq_nil_iff
    {answers : List (String × JsonText)}
    (hsorted : answers.Pairwise fun left right => left.1 < right.1)
    (state : Result Examination)
    (hstate : state.value.deltas.changedPurls = []) :
    (examineAll scoreCvssVector options now stale answers
        state).value.deltas.changedPurls = [] ↔
      ∀ purl payload, (purl, payload) ∈ answers →
        (extractAdvisoryRevisions payload).malformed = false →
        Records (comparedWith state.value.cache.snapshotRows
          (examineAll scoreCvssVector options now stale answers
            state).value.cache.snapshotRows purl)
          (extractAdvisoryRevisions payload) := by
  constructor
  · intro hnil purl payload hmem hmalformed
    obtain ⟨front, back, rfl⟩ := List.append_of_mem hmem
    rw [← lookupAdvisorySnapshot_turn _ _ _ _ hsorted,
      ← isUnchanged_answerDelta_iff purl
        (VulnCache.sortedById_lookupAdvisorySnapshot _ purl)]
    have hprefix := changedPurls_prefix scoreCvssVector options now stale back
      (examinePurl scoreCvssVector options now stale
        (examineAll scoreCvssVector options now stale front state)
        (purl, payload))
    rw [examineAll_append] at hnil
    rw [hnil, List.prefix_nil, examinePurl_deltas _ _ _ _ _ hmalformed,
      OsvDeltaReport.push] at hprefix
    by_contra hchanged
    rw [if_neg hchanged] at hprefix
    simp at hprefix
  · intro hrecords
    rw [List.eq_nil_iff_forall_not_mem]
    intro delta hdelta
    rcases changedAtTurn_of_mem_changedPurls _ _ _ _ hdelta with
      h | ⟨front, purl, payload, back, rfl, hmalformed, rfl, hchanged⟩
    · simp [hstate] at h
    · have hrecorded := hrecords purl payload (by simp) hmalformed
      rw [lookupAdvisorySnapshot_turn _ _ _ _ hsorted,
        (isUnchanged_answerDelta_iff purl
          (sortedById_comparedWith _ _ _)).mpr hrecorded] at hchanged
      exact absurd hchanged (by decide)

end Loop
end Bomwerk.Vuln
