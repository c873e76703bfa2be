import Bomwerk.Output.Html
import Bomwerk.Support.Grouping
import Bomwerk.Vuln.Nvd.Finalised

/-!
# The findings of a report

`normalized_vulnerabilities` depends on the order of its entries only where two
advisories of one purl and one id are equally severe and yet differ: the one
that comes first stays.
-/

namespace Bomwerk.Output.Html

open Bomwerk.Core Bomwerk.Support Bomwerk.Vuln

def entriesOf (purl : String) (vulnerabilities : List ReportVulnerability) :
    List ReportVulnerability :=
  vulnerabilities.filter (ReportVulnerability.purl · = purl)

def advisoriesOf (purl : String) (vulnerabilities : List ReportVulnerability) :
    List ScoredAdvisory :=
  (entriesOf purl vulnerabilities).flatMap ReportVulnerability.advisories

def sourcesOf (purl : String) (vulnerabilities : List ReportVulnerability) :
    List FindingSource :=
  (entriesOf purl vulnerabilities).map ReportVulnerability.source

/-- The same findings, in another order or over other entries. -/
structure SameFindings (left right : List ReportVulnerability) : Prop where
  advisories : ∀ purl, (advisoriesOf purl left).Perm (advisoriesOf purl right)
  sources : ∀ purl source,
    source ∈ sourcesOf purl left ↔ source ∈ sourcesOf purl right

/-- No advisory of the id is more severe. -/
def IsWorst (advisories : List ScoredAdvisory) (advisory : ScoredAdvisory) :
    Prop :=
  advisory ∈ advisories ∧ ∀ other ∈ advisories, other.id = advisory.id →
    moreSevere other advisory = false

instance (advisories : List ScoredAdvisory) (advisory : ScoredAdvisory) :
    Decidable (IsWorst advisories advisory) :=
  inferInstanceAs (Decidable (_ ∧ _))

/-- No two worst advisories of one purl and one id differ. -/
def HasUniqueWorst (vulnerabilities : List ReportVulnerability) : Prop :=
  ∀ purl left right, IsWorst (advisoriesOf purl vulnerabilities) left →
    IsWorst (advisoriesOf purl vulnerabilities) right →
      left.id = right.id → left = right

/-! ## The maps -/

/-- What the first of the most severe is the first largest by. -/
def severity (advisory : ScoredAdvisory) :
    OrderDual (Bool ×ₗ ℚ ×ₗ String) :=
  OrderDual.toDual (severityRank advisory)

theorem moreSevere_iff_severity {left right : ScoredAdvisory} :
    moreSevere left right = true ↔ severity right < severity left :=
  moreSevere_iff

theorem moreSevere_eq_false_iff {left right : ScoredAdvisory} :
    moreSevere left right = false ↔ severity left ≤ severity right := by
  rw [← Bool.not_eq_true, moreSevere_iff_severity, not_lt]

/-- From the first item on, the fold only compares what it holds. -/
theorem foldl_some {α β : Type*} {f : β → Option α → α} {g : α → β → α}
    (hf : ∀ item value, f item (some value) = g value item) (items : List β)
    (start : α) :
    items.foldl (fun value item => some (f item value)) (some start) =
      some (items.foldl g start) := by
  induction items generalizing start with
  | nil => rfl
  | cons item items ih => rw [List.foldl_cons, hf, ih, List.foldl_cons]

theorem getElem?_foldl_keepMostSevere (advisories : List ScoredAdvisory)
    (id : String) :
    (advisories.foldl keepMostSevere ∅)[id]? =
      match advisories.filter (ScoredAdvisory.id · = id) with
      | [] => none
      | first :: rest => some (firstLargest severity first rest) := by
  have hempty : (∅ : OrderedMap String ScoredAdvisory)[id]? = none :=
    Std.ExtTreeMap.getElem?_empty
  refine Eq.trans (foldl_updateAt_filter _ _ advisories ∅ id) ?_
  rw [hempty]
  cases advisories.filter (ScoredAdvisory.id · = id) with
  | nil => rfl
  | cons first rest =>
    refine (foldl_some (g := fun winner advisory =>
      if moreSevere advisory winner then advisory else winner)
      (fun _ _ => rfl) rest first).trans ?_
    simp only [firstLargest, moreSevere_iff_severity]

theorem isFirstLargest_of_getElem? {advisories : List ScoredAdvisory}
    {id : String} {winner : ScoredAdvisory}
    (h : (advisories.foldl keepMostSevere ∅)[id]? = some winner) :
    IsFirstLargest severity (advisories.filter (ScoredAdvisory.id · = id))
      winner := by
  rw [getElem?_foldl_keepMostSevere] at h
  cases hfilter : advisories.filter (ScoredAdvisory.id · = id) with
  | nil =>
    rw [hfilter] at h
    cases h
  | cons first rest =>
    rw [hfilter] at h
    obtain rfl := Option.some.inj h
    exact isFirstLargest_firstLargest severity first rest

theorem isWorst_of_getElem? {advisories : List ScoredAdvisory} {id : String}
    {winner : ScoredAdvisory}
    (h : (advisories.foldl keepMostSevere ∅)[id]? = some winner) :
    winner.id = id ∧ IsWorst advisories winner := by
  have hwinner := isFirstLargest_of_getElem? h
  obtain ⟨hmem, hid⟩ := List.mem_filter.mp hwinner.mem
  rw [decide_eq_true_eq] at hid
  refine ⟨hid, hmem, fun other hother hsame => ?_⟩
  rw [moreSevere_eq_false_iff]
  apply hwinner.le
  simp [hother, hsame, hid]

theorem exists_getElem?_of_mem {advisories : List ScoredAdvisory}
    {advisory : ScoredAdvisory} (hmem : advisory ∈ advisories) :
    ∃ winner,
      (advisories.foldl keepMostSevere ∅)[advisory.id]? = some winner := by
  have hfilter : advisory ∈
      advisories.filter (ScoredAdvisory.id · = advisory.id) := by
    simp [hmem]
  rw [getElem?_foldl_keepMostSevere]
  cases h : advisories.filter (ScoredAdvisory.id · = advisory.id) with
  | nil => simp [h] at hfilter
  | cons first rest => exact ⟨_, rfl⟩

theorem getElem?_advisoriesByIdByPurl
    (vulnerabilities : List ReportVulnerability) (purl : String) :
    (advisoriesByIdByPurl vulnerabilities)[purl]? =
      if entriesOf purl vulnerabilities = [] then none
      else some
        ((advisoriesOf purl vulnerabilities).foldl keepMostSevere ∅) := by
  have hrun : ∀ (entries : List ReportVulnerability)
      (value : Option (OrderedMap String ScoredAdvisory)),
      entries.foldl (fun value entry => some
        (entry.advisories.foldl keepMostSevere (value.getD ∅))) value =
        if entries = [] then value
        else some ((entries.flatMap ReportVulnerability.advisories).foldl
          keepMostSevere (value.getD ∅)) := by
    intro entries
    induction entries with
    | nil => simp
    | cons entry entries ih =>
      intro value
      rw [List.foldl_cons, ih]
      by_cases hnil : entries = []
      · simp [hnil]
      · simp [hnil, List.foldl_append]
  have hfold := foldl_updateAt_filter ReportVulnerability.purl
    (fun vulnerability byId? =>
      vulnerability.advisories.foldl keepMostSevere (byId?.getD ∅))
    vulnerabilities ∅ purl
  refine hfold.trans ?_
  rw [hrun]
  simp [entriesOf, advisoriesOf]

theorem getElem?_sourceByPurl (vulnerabilities : List ReportVulnerability)
    (purl : String) :
    (sourceByPurl vulnerabilities)[purl]? =
      if sourcesOf purl vulnerabilities = [] then none
      else if .osvPurlMatch ∈ sourcesOf purl vulnerabilities then
        some .osvPurlMatch
      else some .nvdCpeMatch := by
  have hrun : ∀ (entries : List ReportVulnerability) (source : FindingSource),
      entries.foldl (fun source vulnerability =>
        if isHighConfidenceSource vulnerability.source then
          vulnerability.source
        else source) source =
        if source = .osvPurlMatch ∨
            .osvPurlMatch ∈ entries.map ReportVulnerability.source then
          .osvPurlMatch
        else .nvdCpeMatch := by
    intro entries
    induction entries with
    | nil =>
      intro source
      cases source <;> rfl
    | cons entry entries ih =>
      intro source
      rw [List.foldl_cons, ih]
      cases source <;> cases hentry : entry.source <;>
        simp [isHighConfidenceSource, hentry]
  have hempty : (∅ : OrderedMap String FindingSource)[purl]? = none :=
    Std.ExtTreeMap.getElem?_empty
  refine Eq.trans (foldl_updateAt_filter _ _ vulnerabilities ∅ purl) ?_
  rw [hempty, sourcesOf, entriesOf]
  cases vulnerabilities.filter (ReportVulnerability.purl · = purl) with
  | nil => rfl
  | cons entry entries =>
    refine (foldl_some (fun _ _ => rfl) entries entry.source).trans ?_
    rw [hrun]
    simp only [List.map_cons, reduceCtorEq, if_false, List.mem_cons,
      @eq_comm _ FindingSource.osvPurlMatch entry.source, apply_ite some]

theorem entriesOf_eq_nil_iff {purl : String}
    {vulnerabilities : List ReportVulnerability} :
    entriesOf purl vulnerabilities = [] ↔
      sourcesOf purl vulnerabilities = [] := by
  rw [sourcesOf, List.map_eq_nil_iff]

/-- The advisories of a purl under their ids. -/
def byIdOf (purl : String) (vulnerabilities : List ReportVulnerability) :
    OrderedMap String ScoredAdvisory :=
  (advisoriesOf purl vulnerabilities).foldl keepMostSevere ∅

def entryOf (purl : String) (vulnerabilities : List ReportVulnerability) :
    ReportVulnerability :=
  rebuiltEntry (sourceByPurl vulnerabilities) purl
    (byIdOf purl vulnerabilities)

theorem mem_normalizedVulnerabilities_iff
    {vulnerabilities : List ReportVulnerability}
    {entry : ReportVulnerability} :
    entry ∈ normalizedVulnerabilities vulnerabilities ↔
      entriesOf entry.purl vulnerabilities ≠ [] ∧
        entry = entryOf entry.purl vulnerabilities := by
  rw [normalizedVulnerabilities, List.mem_insertionSort, List.mem_map]
  constructor
  · rintro ⟨⟨purl, byId⟩, hmem, rfl⟩
    have hget := mem_toList_iff.mp hmem
    rw [getElem?_advisoriesByIdByPurl] at hget
    split_ifs at hget with hnil
    obtain rfl := Option.some.inj hget
    exact ⟨hnil, rfl⟩
  · rintro ⟨hne, heq⟩
    refine ⟨(entry.purl, byIdOf entry.purl vulnerabilities), ?_, heq.symm⟩
    rw [mem_toList_iff, getElem?_advisoriesByIdByPurl, if_neg hne]
    rfl

theorem nodup_map_purl (vulnerabilities : List ReportVulnerability) :
    ((normalizedVulnerabilities vulnerabilities).map
      ReportVulnerability.purl).Nodup := by
  rw [normalizedVulnerabilities,
    ((List.perm_insertionSort _ _).map _).nodup_iff, List.map_map]
  exact nodup_keys_toList (advisoriesByIdByPurl vulnerabilities)

theorem mem_advisories_entryOf_iff {purl : String}
    {vulnerabilities : List ReportVulnerability} {advisory : ScoredAdvisory} :
    advisory ∈ (entryOf purl vulnerabilities).advisories ↔
      (byIdOf purl vulnerabilities)[advisory.id]? = some advisory := by
  rw [entryOf, rebuiltEntry, List.mem_insertionSort, List.mem_map]
  constructor
  · rintro ⟨⟨id, winner⟩, hmem, rfl⟩
    have hget := mem_toList_iff.mp hmem
    rwa [(isWorst_of_getElem? hget).1]
  · intro hget
    exact ⟨(advisory.id, advisory), mem_toList_iff.mpr hget, rfl⟩

theorem nodup_map_id (purl : String)
    (vulnerabilities : List ReportVulnerability) :
    ((entryOf purl vulnerabilities).advisories.map
      ScoredAdvisory.id).Nodup := by
  have hkeys : ((byIdOf purl vulnerabilities).toList.map Prod.snd).map
      ScoredAdvisory.id =
      (byIdOf purl vulnerabilities).toList.map Prod.fst := by
    rw [List.map_map]
    apply List.map_congr_left
    rintro ⟨id, winner⟩ hmem
    exact (isWorst_of_getElem? (mem_toList_iff.mp hmem)).1
  rw [entryOf, rebuiltEntry, ((List.perm_insertionSort _ _).map _).nodup_iff,
    hkeys]
  exact nodup_keys_toList _

section Order

variable {left right : List ReportVulnerability}

theorem SameFindings.sourcesOf_eq_nil_iff (h : SameFindings left right)
    (purl : String) : sourcesOf purl left = [] ↔ sourcesOf purl right = [] := by
  simp only [List.eq_nil_iff_forall_not_mem, h.sources]

theorem SameFindings.sourceByPurl_eq (h : SameFindings left right) :
    sourceByPurl left = sourceByPurl right := by
  apply Std.ExtTreeMap.ext_getElem?
  intro purl
  rw [getElem?_sourceByPurl, getElem?_sourceByPurl]
  simp only [h.sourcesOf_eq_nil_iff, h.sources]

theorem isWorst_congr {first second : List ScoredAdvisory}
    (hperm : first.Perm second) {advisory : ScoredAdvisory} :
    IsWorst first advisory ↔ IsWorst second advisory := by
  simp only [IsWorst, hperm.mem_iff]

theorem getElem?_foldl_keepMostSevere_congr
    {first second : List ScoredAdvisory} (hperm : first.Perm second)
    (hunique : ∀ left right, IsWorst first left → IsWorst first right →
      left.id = right.id → left = right) {id : String}
    {winner : ScoredAdvisory}
    (h : (first.foldl keepMostSevere ∅)[id]? = some winner) :
    (second.foldl keepMostSevere ∅)[id]? = some winner := by
  obtain ⟨rfl, hworst⟩ := isWorst_of_getElem? h
  obtain ⟨other, hother⟩ := exists_getElem?_of_mem (hperm.mem_iff.mp hworst.1)
  obtain ⟨hsame, hworstOther⟩ := isWorst_of_getElem? hother
  rw [hother, hunique winner other hworst
    ((isWorst_congr hperm).mpr hworstOther) hsame.symm]

theorem SameFindings.byIdOf_eq (h : SameFindings left right)
    (hunique : HasUniqueWorst left) (purl : String) :
    byIdOf purl left = byIdOf purl right := by
  have hperm := h.advisories purl
  apply Std.ExtTreeMap.ext_getElem?
  intro id
  apply Option.ext
  intro advisory
  constructor
  · exact getElem?_foldl_keepMostSevere_congr hperm (hunique purl)
  · refine getElem?_foldl_keepMostSevere_congr hperm.symm ?_
    intro first second hfirst hsecond
    exact hunique purl first second ((isWorst_congr hperm).mpr hfirst)
      ((isWorst_congr hperm).mpr hsecond)

theorem SameFindings.normalizedVulnerabilities_eq
    (h : SameFindings left right) (hunique : HasUniqueWorst left) :
    normalizedVulnerabilities left = normalizedVulnerabilities right := by
  have hbyPurl : advisoriesByIdByPurl left = advisoriesByIdByPurl right := by
    apply Std.ExtTreeMap.ext_getElem?
    intro purl
    rw [getElem?_advisoriesByIdByPurl, getElem?_advisoriesByIdByPurl]
    simp only [entriesOf_eq_nil_iff, h.sourcesOf_eq_nil_iff purl]
    rw [← byIdOf, ← byIdOf, h.byIdOf_eq hunique]
  rw [normalizedVulnerabilities, normalizedVulnerabilities, hbyPurl,
    h.sourceByPurl_eq]

end Order

/-! ## Entries cut up -/

/-- An entry as pieces of at most one advisory. -/
def piecesOf (entry : ReportVulnerability) : List ReportVulnerability :=
  { entry with advisories := [] } ::
    entry.advisories.map fun advisory => { entry with advisories := [advisory] }

theorem sameFindings_of_perm {left right : List ReportVulnerability}
    (h : left.Perm right) : SameFindings left right where
  advisories _ := (h.filter _).flatMap_right _
  sources _ _ := ((h.filter _).map _).mem_iff

theorem SameFindings.trans {first second third : List ReportVulnerability}
    (h : SameFindings first second) (h' : SameFindings second third) :
    SameFindings first third where
  advisories purl := (h.advisories purl).trans (h'.advisories purl)
  sources purl source := (h.sources purl source).trans (h'.sources purl source)

theorem sameFindings_pieces (vulnerabilities : List ReportVulnerability) :
    SameFindings vulnerabilities (vulnerabilities.flatMap piecesOf) := by
  have hentries : ∀ purl, entriesOf purl (vulnerabilities.flatMap piecesOf) =
      (entriesOf purl vulnerabilities).flatMap piecesOf := by
    intro purl
    induction vulnerabilities with
    | nil => rfl
    | cons entry vulnerabilities ih =>
      have hpieces : (piecesOf entry).filter
          (ReportVulnerability.purl · = purl) =
            if entry.purl = purl then piecesOf entry else [] := by
        split_ifs with hpurl
        · rw [List.filter_eq_self]
          intro piece hpiece
          rcases List.mem_cons.mp hpiece with rfl | hpiece
          · simpa using hpurl
          · obtain ⟨advisory, -, rfl⟩ := List.mem_map.mp hpiece
            simpa using hpurl
        · rw [List.filter_eq_nil_iff]
          intro piece hpiece
          rcases List.mem_cons.mp hpiece with rfl | hpiece
          · simpa using hpurl
          · obtain ⟨advisory, -, rfl⟩ := List.mem_map.mp hpiece
            simpa using hpurl
      rw [entriesOf, List.flatMap_cons, List.filter_append, hpieces]
      rw [entriesOf] at ih
      rw [ih, entriesOf, entriesOf, List.filter_cons]
      by_cases hpurl : entry.purl = purl <;> simp [hpurl]
  constructor
  · intro purl
    rw [advisoriesOf, advisoriesOf, hentries, List.flatMap_assoc]
    apply List.Perm.of_eq
    congr 1
    funext entry
    simp [piecesOf, List.flatMap_map]
  · intro purl source
    rw [sourcesOf, sourcesOf, hentries, List.map_flatMap, List.mem_flatMap,
      List.mem_map]
    apply exists_congr
    intro entry
    apply and_congr_right
    intro _
    simp [piecesOf, eq_comm]

/-- A worst advisory that stands first is the one that is reported. -/
theorem mem_normalized_of_isWorst {purl : String}
    {vulnerabilities : List ReportVulnerability} {advisory : ScoredAdvisory}
    (hworst : IsWorst (advisoriesOf purl vulnerabilities) advisory) :
    ∃ other, SameFindings vulnerabilities other ∧
      ∃ reported ∈ normalizedVulnerabilities other, reported.purl = purl ∧
        advisory ∈ reported.advisories := by
  obtain ⟨entry, hentry, hadvisory⟩ := List.mem_flatMap.mp hworst.1
  obtain ⟨hmem, hpurl⟩ := List.mem_filter.mp hentry
  rw [decide_eq_true_eq] at hpurl
  subst hpurl
  have hpiece : { entry with advisories := [advisory] } ∈
      vulnerabilities.flatMap piecesOf :=
    List.mem_flatMap.mpr ⟨entry, hmem, List.mem_cons_of_mem _
      (List.mem_map.mpr ⟨advisory, hadvisory, rfl⟩)⟩
  obtain ⟨rest, hsame⟩ : ∃ rest, SameFindings vulnerabilities
      ({ entry with advisories := [advisory] } :: rest) :=
    ⟨_, (sameFindings_pieces vulnerabilities).trans
      (sameFindings_of_perm (List.perm_cons_erase hpiece))⟩
  refine ⟨_, hsame, entryOf entry.purl
    ({ entry with advisories := [advisory] } :: rest), ?_, rfl, ?_⟩
  · rw [mem_normalizedVulnerabilities_iff]
    refine ⟨?_, rfl⟩
    rw [entryOf, rebuiltEntry, entriesOf, List.filter_cons_of_pos (by simp)]
    exact List.cons_ne_nil _ _
  · rw [mem_advisories_entryOf_iff, byIdOf]
    obtain ⟨winner, hwinner⟩ :=
      exists_getElem?_of_mem ((hsame.advisories _).mem_iff.mp hworst.1)
    have hfirst := isFirstLargest_of_getElem? hwinner
    have hworstOther := (isWorst_congr (hsame.advisories _)).mp hworst
    rw [hwinner]
    congr 1
    obtain ⟨before, after, hlist, hbefore, -⟩ := hfirst
    rw [advisoriesOf, entriesOf, List.filter_cons_of_pos (by simp),
      List.flatMap_cons, List.singleton_append,
      List.filter_cons_of_pos (by simp)] at hlist
    cases before with
    | nil => exact (List.cons.inj hlist).1.symm
    | cons first before =>
      obtain ⟨rfl, -⟩ := List.cons.inj hlist
      obtain ⟨hid, hworstWinner⟩ := isWorst_of_getElem? hwinner
      have hle := hworstOther.2 winner hworstWinner.1 hid
      rw [moreSevere_eq_false_iff] at hle
      exact absurd (hbefore _ List.mem_cons_self) hle.not_gt

/-- An entry by its purl and its worst severity. -/
def leadOf (entry : ReportVulnerability) : ScoredAdvisory where
  id := entry.purl
  severity := worstSeverityOf entry

theorem entryLe_iff {left right : ReportVulnerability} :
    EntryLe left right ↔ AdvisoryLe (leadOf left) (leadOf right) :=
  Iff.rfl

instance : Std.Total EntryLe where
  total left right := by
    simp only [entryLe_iff]
    exact total_of AdvisoryLe (leadOf left) (leadOf right)

instance : IsTrans ReportVulnerability EntryLe where
  trans first second third := by
    simp only [entryLe_iff]
    exact fun hfirst hsecond => trans_of AdvisoryLe hfirst hsecond

theorem pairwise_normalizedVulnerabilities
    (vulnerabilities : List ReportVulnerability) :
    (normalizedVulnerabilities vulnerabilities).Pairwise EntryLe :=
  List.pairwise_insertionSort EntryLe _

theorem pairwise_advisories_entryOf (purl : String)
    (vulnerabilities : List ReportVulnerability) :
    (entryOf purl vulnerabilities).advisories.Pairwise AdvisoryLe :=
  List.pairwise_insertionSort AdvisoryLe _

theorem entryOf_mem_normalized {purl : String}
    {vulnerabilities : List ReportVulnerability}
    (hne : entriesOf purl vulnerabilities ≠ []) :
    entryOf purl vulnerabilities ∈ normalizedVulnerabilities vulnerabilities :=
  mem_normalizedVulnerabilities_iff.mpr ⟨hne, rfl⟩

theorem entriesOf_normalized (purl : String)
    (vulnerabilities : List ReportVulnerability) :
    entriesOf purl (normalizedVulnerabilities vulnerabilities) =
      if entriesOf purl vulnerabilities = [] then []
      else [entryOf purl vulnerabilities] := by
  have hmem : ∀ entry,
      entry ∈ entriesOf purl (normalizedVulnerabilities vulnerabilities) ↔
        entriesOf purl vulnerabilities ≠ [] ∧
          entry = entryOf purl vulnerabilities := by
    intro entry
    rw [entriesOf, List.mem_filter, mem_normalizedVulnerabilities_iff,
      decide_eq_true_eq]
    constructor
    · rintro ⟨h, rfl⟩
      exact h
    · rintro ⟨hne, rfl⟩
      exact ⟨⟨hne, rfl⟩, rfl⟩
  split_ifs with hnil
  · rw [List.eq_nil_iff_forall_not_mem]
    intro entry hentry
    exact ((hmem entry).mp hentry).1 hnil
  · have hnodup : (entriesOf purl
        (normalizedVulnerabilities vulnerabilities)).Nodup :=
      ((nodup_map_purl vulnerabilities).of_map _).filter _
    rw [← List.perm_singleton, List.perm_ext_iff_of_nodup hnodup
      (List.nodup_singleton _)]
    intro entry
    rw [hmem, List.mem_singleton]
    exact and_iff_right hnil

theorem getElem?_foldl_keepMostSevere_iff {advisories : List ScoredAdvisory}
    (hnodup : (advisories.map ScoredAdvisory.id).Nodup) {id : String}
    {winner : ScoredAdvisory} :
    (advisories.foldl keepMostSevere ∅)[id]? = some winner ↔
      winner ∈ advisories ∧ winner.id = id := by
  constructor
  · intro h
    obtain ⟨hid, hmem, -⟩ := isWorst_of_getElem? h
    exact ⟨hmem, hid⟩
  · rintro ⟨hmem, rfl⟩
    obtain ⟨other, hother⟩ := exists_getElem?_of_mem hmem
    obtain ⟨hid, hmemOther, -⟩ := isWorst_of_getElem? hother
    rw [hother, List.inj_on_of_nodup_map hnodup hmemOther hmem hid]

theorem foldl_advisories_entryOf (purl : String)
    (vulnerabilities : List ReportVulnerability) :
    (entryOf purl vulnerabilities).advisories.foldl keepMostSevere ∅ =
      byIdOf purl vulnerabilities := by
  apply Std.ExtTreeMap.ext_getElem?
  intro id
  apply Option.ext
  intro winner
  rw [getElem?_foldl_keepMostSevere_iff (nodup_map_id purl vulnerabilities),
    mem_advisories_entryOf_iff]
  constructor
  · rintro ⟨hget, rfl⟩
    exact hget
  · intro hget
    obtain ⟨rfl, -⟩ := isWorst_of_getElem? hget
    exact ⟨hget, rfl⟩

theorem normalizedVulnerabilities_idem
    (vulnerabilities : List ReportVulnerability) :
    normalizedVulnerabilities (normalizedVulnerabilities vulnerabilities) =
      normalizedVulnerabilities vulnerabilities := by
  have hbyPurl : advisoriesByIdByPurl
      (normalizedVulnerabilities vulnerabilities) =
        advisoriesByIdByPurl vulnerabilities := by
    apply Std.ExtTreeMap.ext_getElem?
    intro purl
    rw [getElem?_advisoriesByIdByPurl, getElem?_advisoriesByIdByPurl,
      advisoriesOf, entriesOf_normalized]
    by_cases hnil : entriesOf purl vulnerabilities = []
    · rw [if_pos hnil, if_pos rfl, if_pos hnil]
    · rw [if_neg hnil, if_neg (List.cons_ne_nil _ _), if_neg hnil,
        List.flatMap_singleton, foldl_advisories_entryOf, byIdOf]
  have hsource : sourceByPurl (normalizedVulnerabilities vulnerabilities) =
      sourceByPurl vulnerabilities := by
    apply Std.ExtTreeMap.ext_getElem?
    intro purl
    rw [getElem?_sourceByPurl, getElem?_sourceByPurl,
      sourcesOf.eq_1 purl (normalizedVulnerabilities vulnerabilities),
      entriesOf_normalized]
    by_cases hnil : sourcesOf purl vulnerabilities = []
    · rw [if_pos (entriesOf_eq_nil_iff.mpr hnil), List.map_nil, if_pos rfl,
        if_pos hnil]
    · have hsource : (entryOf purl vulnerabilities).source =
          if .osvPurlMatch ∈ sourcesOf purl vulnerabilities then .osvPurlMatch
          else .nvdCpeMatch := by
        rw [entryOf, rebuiltEntry, getElem?_sourceByPurl, if_neg hnil]
        split_ifs <;> rfl
      rw [if_neg (mt entriesOf_eq_nil_iff.mp hnil), List.map_singleton,
        if_neg (List.cons_ne_nil _ _), hsource, if_neg hnil]
      by_cases hstrong : .osvPurlMatch ∈ sourcesOf purl vulnerabilities <;>
        simp [hstrong]
  rw [normalizedVulnerabilities, hbyPurl, hsource, normalizedVulnerabilities]

/-! ## What the report owes to its findings -/

/-- Each purl and each id once, with the worst severity, the worst first; the
same for every order and every split of the findings; and nothing is left to
do a second time. -/
structure IsFeedOrderFree (vulnerabilities : List ReportVulnerability) :
    Prop where
  order_free : ∀ other, SameFindings vulnerabilities other →
    normalizedVulnerabilities other = normalizedVulnerabilities vulnerabilities
  purls_nodup : ((normalizedVulnerabilities vulnerabilities).map
    ReportVulnerability.purl).Nodup
  purl_mem_iff : ∀ purl,
    (∃ entry ∈ normalizedVulnerabilities vulnerabilities, entry.purl = purl) ↔
      ∃ entry ∈ vulnerabilities, entry.purl = purl
  ids_nodup : ∀ entry ∈ normalizedVulnerabilities vulnerabilities,
    (entry.advisories.map ScoredAdvisory.id).Nodup
  id_mem_iff : ∀ entry ∈ normalizedVulnerabilities vulnerabilities, ∀ id,
    (∃ advisory ∈ entry.advisories, advisory.id = id) ↔
      ∃ advisory ∈ advisoriesOf entry.purl vulnerabilities, advisory.id = id
  worst : ∀ entry ∈ normalizedVulnerabilities vulnerabilities,
    ∀ advisory ∈ entry.advisories,
      IsWorst (advisoriesOf entry.purl vulnerabilities) advisory
  entries_ordered : (normalizedVulnerabilities vulnerabilities).Pairwise
    fun left right => leadsReport right left = false
  advisories_ordered : ∀ entry ∈ normalizedVulnerabilities vulnerabilities,
    entry.advisories.Pairwise fun left right => moreSevere right left = false
  idempotent :
    normalizedVulnerabilities (normalizedVulnerabilities vulnerabilities) =
      normalizedVulnerabilities vulnerabilities

theorem isFeedOrderFree_of_hasUniqueWorst
    {vulnerabilities : List ReportVulnerability}
    (hunique : HasUniqueWorst vulnerabilities) :
    IsFeedOrderFree vulnerabilities where
  order_free other hsame :=
    (hsame.normalizedVulnerabilities_eq hunique).symm
  purls_nodup := nodup_map_purl vulnerabilities
  purl_mem_iff purl := by
    constructor
    · rintro ⟨entry, hentry, rfl⟩
      obtain ⟨hne, -⟩ := mem_normalizedVulnerabilities_iff.mp hentry
      obtain ⟨source, hsource⟩ := List.exists_mem_of_ne_nil _ hne
      obtain ⟨hmem, hpurl⟩ := List.mem_filter.mp hsource
      exact ⟨source, hmem, of_decide_eq_true hpurl⟩
    · rintro ⟨entry, hentry, rfl⟩
      have hne : entriesOf entry.purl vulnerabilities ≠ [] :=
        List.ne_nil_of_mem (List.mem_filter.mpr ⟨hentry, decide_eq_true rfl⟩)
      exact ⟨_, entryOf_mem_normalized hne, rfl⟩
  ids_nodup entry hentry := by
    rw [(mem_normalizedVulnerabilities_iff.mp hentry).2]
    exact nodup_map_id _ _
  id_mem_iff entry hentry id := by
    obtain ⟨-, heq⟩ := mem_normalizedVulnerabilities_iff.mp hentry
    constructor
    · rintro ⟨advisory, hadvisory, rfl⟩
      rw [heq, mem_advisories_entryOf_iff] at hadvisory
      exact ⟨advisory, (isWorst_of_getElem? hadvisory).2.1, rfl⟩
    · rintro ⟨advisory, hadvisory, rfl⟩
      obtain ⟨winner, hwinner⟩ := exists_getElem?_of_mem hadvisory
      obtain ⟨hid, -⟩ := isWorst_of_getElem? hwinner
      refine ⟨winner, ?_, hid⟩
      rw [heq, mem_advisories_entryOf_iff, hid]
      exact hwinner
  worst entry hentry advisory hadvisory := by
    rw [(mem_normalizedVulnerabilities_iff.mp hentry).2,
      mem_advisories_entryOf_iff] at hadvisory
    exact (isWorst_of_getElem? hadvisory).2
  entries_ordered := pairwise_normalizedVulnerabilities vulnerabilities
  advisories_ordered entry hentry := by
    rw [(mem_normalizedVulnerabilities_iff.mp hentry).2]
    exact pairwise_advisories_entryOf _ _
  idempotent := normalizedVulnerabilities_idem vulnerabilities

/-- Each of two worst advisories is reported by some order. -/
theorem hasUniqueWorst_of_order_free
    {vulnerabilities : List ReportVulnerability}
    (hfree : ∀ other, SameFindings vulnerabilities other →
      normalizedVulnerabilities other =
        normalizedVulnerabilities vulnerabilities) :
    HasUniqueWorst vulnerabilities := by
  have hreported : ∀ purl advisory,
      IsWorst (advisoriesOf purl vulnerabilities) advisory →
        advisory ∈ (entryOf purl vulnerabilities).advisories := by
    intro purl advisory hworst
    obtain ⟨other, hsame, entry, hentry, rfl, hmem⟩ :=
      mem_normalized_of_isWorst hworst
    rw [hfree other hsame] at hentry
    rwa [← (mem_normalizedVulnerabilities_iff.mp hentry).2]
  intro purl left right hleft hright hid
  exact List.inj_on_of_nodup_map (nodup_map_id purl vulnerabilities)
    (hreported purl left hleft) (hreported purl right hright) hid

theorem isFeedOrderFree_iff (vulnerabilities : List ReportVulnerability) :
    IsFeedOrderFree vulnerabilities ↔ HasUniqueWorst vulnerabilities :=
  ⟨fun h => hasUniqueWorst_of_order_free h.order_free,
    isFeedOrderFree_of_hasUniqueWorst⟩

/-- Two feeds name one advisory at one score, and only one of them knows its
CVE. -/
def twoFeeds : List ReportVulnerability :=
  [⟨"pkg:a", [⟨"A", {}, ["CVE-1"]⟩], .osvPurlMatch⟩,
    ⟨"pkg:a", [⟨"A", {}, []⟩], .osvPurlMatch⟩]

theorem not_isFeedOrderFree_twoFeeds : ¬ IsFeedOrderFree twoFeeds := by
  intro h
  have hunique := hasUniqueWorst_of_order_free h.order_free
  have heq := hunique "pkg:a" ⟨"A", {}, ["CVE-1"]⟩ ⟨"A", {}, []⟩
    (by decide) (by decide) rfl
  exact absurd heq (by decide)

end Bomwerk.Output.Html
