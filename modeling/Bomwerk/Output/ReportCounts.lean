import Bomwerk.Output.ReportFindings
import Mathlib.Algebra.BigOperators.Group.Finset.Basic
import Mathlib.Algebra.GroupWithZero.Nat

/-!
# The counts of a report

The numbers of a report come from the lengths of its lists and the badges from
lookups, row by row.  They agree except where a purl has entries and none of
them lists an advisory: such an entry is counted and no row wears its badge.
-/

namespace Bomwerk.Output.Html

open Bomwerk.Core Bomwerk.Support Bomwerk.Vuln

def HtmlReport.tileValue? (report : HtmlReport) (label : String) :
    Option String :=
  (report.tiles.find? (MetricTile.label · = label)).map MetricTile.value

def HtmlReport.advisoryBadges (report : HtmlReport) : List Nat :=
  report.rows.filterMap ComponentRow.advisoryBadge?

def HtmlReport.coverageBadgeCount (report : HtmlReport)
    (badge : OsvCoverageBadge) : Nat :=
  report.rows.countP (ComponentRow.coverageBadge · = badge)

/-- The numbers of the posture line, and zeros where it shows none. -/
def Posture.counts : Posture → Nat × Nat
  | .notChecked _ => (0, 0)
  | .good => (0, 0)
  | .bad affectedComponentCount advisoryTotal _ _ =>
    (affectedComponentCount, advisoryTotal)

def Posture.isRed : Posture → Bool
  | .bad .. => true
  | _ => false

/-- Each number of the report is the number of the rows that it speaks of. -/
structure CountsAgree (report : HtmlReport) : Prop where
  vulnerable_tile : report.tileValue? "vulnerable components" =
    some (toString report.advisoryBadges.length)
  advisories_tile : report.tileValue? "advisories" =
    some (toString report.advisoryBadges.sum)
  posture_counts : report.posture.counts =
    (report.advisoryBadges.length, report.advisoryBadges.sum)
  notChecked_tile :
    (report.tileValue? "not checked").or
      (report.tileValue? "no OSV coverage (not checked)") =
        some (toString (report.coverageBadgeCount .notChecked))
  checkedViaCpe_tile : report.tileValue? "checked via CPE (low confidence)" =
    if 0 < report.coverageBadgeCount .checkedViaCpe then
      some (toString (report.coverageBadgeCount .checkedViaCpe))
    else none
  notChecked_notice : ∀ count, .notChecked count ∈ report.notices ↔
    count = report.coverageBadgeCount .notChecked ∧ 0 < count
  matchedViaCpe_notice : ∀ count, .matchedViaCpe count ∈ report.notices ↔
    count = report.coverageBadgeCount .checkedViaCpe ∧ 0 < count
  red_iff : report.posture.isRed = true ↔
    ∃ entry ∈ report.vulnerabilities, entry.advisories ≠ []

/-- The lists speak of the components, and each of a component once. -/
structure IsReportInput (components : List Component)
    (context : ReportContext) : Prop where
  purls_nodup : (components.map Component.purl).Nodup
  entries_mem : ∀ entry ∈ context.vulnerabilities,
    entry.purl ∈ components.map Component.purl
  uncovered_nodup : context.componentsWithoutOsvCoveragePurls.Nodup
  uncovered_subset : context.componentsWithoutOsvCoveragePurls ⊆
    components.map Component.purl
  cpeChecked_nodup : context.componentsCheckedViaCpeFallbackPurls.Nodup
  cpeChecked_subset : context.componentsCheckedViaCpeFallbackPurls ⊆
    context.componentsWithoutOsvCoveragePurls
  enabled : context.vulnerabilityCheckEnabled = true

/-- Every purl with an entry has an advisory. -/
def HasAdvisories (vulnerabilities : List ReportVulnerability) : Prop :=
  ∀ entry ∈ vulnerabilities, advisoriesOf entry.purl vulnerabilities ≠ []

section Sublists

variable {α : Type*} [DecidableEq α] {all some : List α}

theorem perm_filter_mem (hall : all.Nodup) (hsome : some.Nodup)
    (hsubset : some ⊆ all) : (all.filter (· ∈ some)).Perm some := by
  rw [List.perm_ext_iff_of_nodup (hall.filter _) hsome]
  intro item
  rw [List.mem_filter, decide_eq_true_eq]
  exact and_iff_right_of_imp fun h => hsubset h

theorem countP_eq_of_subset (hall : all.Nodup) (hsome : some.Nodup)
    (hsubset : some ⊆ all) {holds : α → Bool}
    (hmem : ∀ item, holds item = true → item ∈ some) :
    all.countP holds = some.countP holds := by
  rw [← (perm_filter_mem hall hsome hsubset).countP_eq, List.countP_filter]
  apply List.countP_congr
  intro item _
  rw [Bool.and_eq_true, decide_eq_true_eq]
  exact (and_iff_left_of_imp (hmem item)).symm

theorem sum_map_eq_of_subset (hall : all.Nodup) (hsome : some.Nodup)
    (hsubset : some ⊆ all) {size : α → Nat}
    (hzero : ∀ item, item ∉ some → size item = 0) :
    (all.map size).sum = (some.map size).sum := by
  rw [← List.sum_toFinset size hall, ← List.sum_toFinset size hsome]
  apply (Finset.sum_subset _ _).symm
  · intro item hitem
    exact List.mem_toFinset.mpr (hsubset (List.mem_toFinset.mp hitem))
  · intro item _ hitem
    exact hzero item fun h => hitem (List.mem_toFinset.mpr h)

end Sublists

theorem advisoryTotal_foldl (entries : List ReportVulnerability)
    (totals : FindingTotals) :
    (entries.foldl FindingTotals.add totals).advisoryTotal =
      totals.advisoryTotal +
        (entries.map fun entry => entry.advisories.length).sum := by
  induction entries generalizing totals with
  | nil => rfl
  | cons entry entries ih =>
    rw [List.foldl_cons, ih, List.map_cons, List.sum_cons, ← Nat.add_assoc]
    rfl

theorem advisoryCountByPurl_foldl (entries : List ReportVulnerability)
    (totals : FindingTotals) :
    (entries.foldl FindingTotals.add totals).advisoryCountByPurl =
      insertAll totals.advisoryCountByPurl
        (entries.map fun entry => (entry.purl, entry.advisories.length)) := by
  induction entries generalizing totals with
  | nil => rfl
  | cons entry entries ih =>
    rw [List.foldl_cons, ih]
    rfl

/-- The number on the badge of a purl, or zero. -/
def countOf (entries : List ReportVulnerability) (purl : String) : Nat :=
  (((entries.foldl FindingTotals.add {}).advisoryCountByPurl)[purl]?).getD 0

theorem countOf_of_mem {entries : List ReportVulnerability}
    (hnodup : (entries.map ReportVulnerability.purl).Nodup)
    {entry : ReportVulnerability} (hmem : entry ∈ entries) :
    countOf entries entry.purl = entry.advisories.length := by
  have hkeys : ((entries.map fun entry =>
      (entry.purl, entry.advisories.length)).map Prod.fst).Nodup := by
    rwa [List.map_map]
  rw [countOf, advisoryCountByPurl_foldl, insertAll_getElem?_of_mem hkeys
    (List.mem_map.mpr ⟨entry, hmem, rfl⟩), Option.getD_some]

theorem countOf_of_notMem {entries : List ReportVulnerability} {purl : String}
    (hpurl : purl ∉ entries.map ReportVulnerability.purl) :
    countOf entries purl = 0 := by
  have hkeys : purl ∉ (entries.map fun entry =>
      (entry.purl, entry.advisories.length)).map Prod.fst := by
    rwa [List.map_map]
  rw [countOf, advisoryCountByPurl_foldl, insertAll_getElem?_of_notMem hkeys]
  simp

theorem map_countOf {entries : List ReportVulnerability}
    (hnodup : (entries.map ReportVulnerability.purl).Nodup) :
    (entries.map ReportVulnerability.purl).map (countOf entries) =
      entries.map fun entry => entry.advisories.length := by
  rw [List.map_map]
  exact List.map_congr_left fun entry hmem => countOf_of_mem hnodup hmem

/-! ## The rows -/

section Rows

variable {components : List Component} {context : ReportContext}

theorem componentsSortedForReport_perm (components : List Component) :
    (componentsSortedForReport components).Perm components :=
  List.perm_insertionSort _ _

theorem IsReportInput.normalized_subset
    (hinput : IsReportInput components context) :
    (normalizedVulnerabilities context.vulnerabilities).map
      ReportVulnerability.purl ⊆ components.map Component.purl := by
  intro purl hpurl
  obtain ⟨entry, hentry, rfl⟩ := List.mem_map.mp hpurl
  obtain ⟨hne, -⟩ := mem_normalizedVulnerabilities_iff.mp hentry
  obtain ⟨first, hfirst⟩ := List.exists_mem_of_ne_nil _ hne
  obtain ⟨hmem, hsame⟩ := List.mem_filter.mp hfirst
  rw [← of_decide_eq_true hsame]
  exact hinput.entries_mem first hmem

theorem sum_filter_pos (counts : List Nat) :
    (counts.filter (0 < ·)).sum = counts.sum := by
  induction counts with
  | nil => rfl
  | cons count counts ih =>
    by_cases hcount : 0 < count
    · rw [List.filter_cons_of_pos (by simpa using hcount), List.sum_cons, ih,
        List.sum_cons]
    · rw [List.filter_cons_of_neg (by simpa using hcount), ih, List.sum_cons,
        Nat.eq_zero_of_not_pos hcount, Nat.zero_add]

theorem advisoryBadges_perm :
    (writeHtmlReport components context).advisoryBadges.Perm
      (((components.map Component.purl).map
        (countOf (normalizedVulnerabilities context.vulnerabilities))).filter
          (0 < ·)) := by
  have hbadge : ∀ count : Nat, (if 0 < count then some count else none) =
      Option.guard (fun count => decide (0 < count)) count := by
    intro count
    by_cases hcount : 0 < count <;> simp [Option.guard, hcount]
  have hrows : (writeHtmlReport components context).advisoryBadges =
      (componentsSortedForReport components).filterMap fun component =>
        Option.guard (fun count => decide (0 < count))
          (countOf (normalizedVulnerabilities context.vulnerabilities)
            component.purl) := by
    simp only [← hbadge]
    exact List.filterMap_map
  rw [hrows, ← List.filterMap_eq_filter, List.map_map, List.filterMap_map]
  exact (componentsSortedForReport_perm components).filterMap _

theorem length_advisoryBadges (hinput : IsReportInput components context) :
    (writeHtmlReport components context).advisoryBadges.length =
      (normalizedVulnerabilities context.vulnerabilities).countP
        (0 < ·.advisories.length) := by
  have hmem : ∀ purl,
      decide (0 < countOf (normalizedVulnerabilities context.vulnerabilities)
        purl) = true → purl ∈ (normalizedVulnerabilities
          context.vulnerabilities).map ReportVulnerability.purl := by
    intro purl hpos
    by_contra hpurl
    rw [countOf_of_notMem hpurl] at hpos
    cases hpos
  rw [advisoryBadges_perm.length_eq, ← List.countP_eq_length_filter,
    List.countP_map]
  refine (countP_eq_of_subset hinput.purls_nodup
    (nodup_map_purl context.vulnerabilities) ?_ hmem).trans ?_
  · exact hinput.normalized_subset
  · rw [← Function.comp_def (fun count => decide (0 < count)), ← List.countP_map,
      map_countOf (nodup_map_purl _), List.countP_map]
    rfl

theorem sum_advisoryBadges (hinput : IsReportInput components context) :
    (writeHtmlReport components context).advisoryBadges.sum =
      ((normalizedVulnerabilities context.vulnerabilities).map
        fun entry => entry.advisories.length).sum := by
  rw [advisoryBadges_perm.sum_eq, sum_filter_pos,
    ← map_countOf (nodup_map_purl context.vulnerabilities)]
  apply sum_map_eq_of_subset hinput.purls_nodup
    (nodup_map_purl context.vulnerabilities) hinput.normalized_subset
  intro purl hpurl
  exact countOf_of_notMem hpurl

theorem coverageBadgeCount_eq (badge : OsvCoverageBadge) :
    (writeHtmlReport components context).coverageBadgeCount badge =
      (components.map Component.purl).countP fun purl =>
        coverageBadgeOf context.componentsWithoutOsvCoveragePurls
          context.componentsCheckedViaCpeFallbackPurls purl = badge := by
  rw [HtmlReport.coverageBadgeCount, writeHtmlReport, componentRows,
    List.countP_map, List.countP_map,
    (componentsSortedForReport_perm components).countP_eq]
  rfl

theorem IsReportInput.cpeCheckedCount_eq
    (hinput : IsReportInput components context) :
    cpeCheckedCount context =
      context.componentsCheckedViaCpeFallbackPurls.length :=
  min_eq_left
    (hinput.cpeChecked_nodup.subperm hinput.cpeChecked_subset).length_le

theorem coverageBadgeCount_checkedViaCpe
    (hinput : IsReportInput components context) :
    (writeHtmlReport components context).coverageBadgeCount .checkedViaCpe =
      cpeCheckedCount context := by
  have hbadge : ∀ purl, coverageBadgeOf
      context.componentsWithoutOsvCoveragePurls
      context.componentsCheckedViaCpeFallbackPurls purl = .checkedViaCpe ↔
        purl ∈ context.componentsCheckedViaCpeFallbackPurls := by
    intro purl
    unfold coverageBadgeOf
    split_ifs with huncovered hchecked
    · simp [hchecked]
    · simp [hchecked]
    · simpa using mt (@hinput.cpeChecked_subset purl) huncovered
  simp only [coverageBadgeCount_eq, hbadge]
  rw [hinput.cpeCheckedCount_eq,
    countP_eq_of_subset hinput.purls_nodup hinput.cpeChecked_nodup
      (List.Subset.trans hinput.cpeChecked_subset hinput.uncovered_subset)
      fun purl => of_decide_eq_true, List.countP_eq_length]
  exact fun purl => decide_eq_true

theorem coverageBadgeCount_notChecked
    (hinput : IsReportInput components context) :
    (writeHtmlReport components context).coverageBadgeCount .notChecked =
      notCheckedCount context := by
  have hbadge : ∀ purl, coverageBadgeOf
      context.componentsWithoutOsvCoveragePurls
      context.componentsCheckedViaCpeFallbackPurls purl = .notChecked ↔
        purl ∈ context.componentsWithoutOsvCoveragePurls ∧
          purl ∉ context.componentsCheckedViaCpeFallbackPurls := by
    intro purl
    unfold coverageBadgeOf
    split_ifs with huncovered hchecked <;> simp [*]
  have hchecked : context.componentsWithoutOsvCoveragePurls.countP
      (· ∈ context.componentsCheckedViaCpeFallbackPurls) =
        cpeCheckedCount context := by
    rw [hinput.cpeCheckedCount_eq,
      countP_eq_of_subset hinput.uncovered_nodup hinput.cpeChecked_nodup
        hinput.cpeChecked_subset fun purl => of_decide_eq_true,
      List.countP_eq_length]
    exact fun purl => decide_eq_true
  have hsplit := @List.length_eq_countP_add_countP _
    (· ∈ context.componentsCheckedViaCpeFallbackPurls)
    context.componentsWithoutOsvCoveragePurls
  simp only [coverageBadgeCount_eq, hbadge]
  rw [countP_eq_of_subset hinput.purls_nodup hinput.uncovered_nodup
    hinput.uncovered_subset fun purl h => (of_decide_eq_true h).1,
    notCheckedCount, hsplit, hchecked, Nat.add_sub_cancel_left]
  apply List.countP_congr
  intro purl hpurl
  simp [hpurl]

end Rows

section Tiles

variable {components : List Component} {context : ReportContext}

theorem label_usageTile_ne (context : ReportContext)
    (usage : BuildUsageSummary) {label : String}
    (hlabel : label.toList.head? ≠ some 'u') :
    (usageTile context usage).label ≠ label := by
  rintro rfl
  apply hlabel
  unfold usageTile
  split_ifs
  · rfl
  · rfl
  all_goals
    rw [String.toList_append, String.toList_append]
    rfl

/-- The tiles before those about vulnerabilities have other labels. -/
theorem tileValue?_writeHtmlReport {label : String}
    (hlabel : label.toList.head? ≠ some 'u')
    (hother : label ∉ ["files scanned", "files scanned (not recorded)",
      "components", "warnings"]) :
    (writeHtmlReport components context).tileValue? label =
      ((vulnerabilityTiles context
        (normalizedVulnerabilities context.vulnerabilities).length
        (((normalizedVulnerabilities context.vulnerabilities).map
          fun entry => entry.advisories.length).sum)).find?
            (MetricTile.label · = label)).map MetricTile.value := by
  have hunmatched : "unmatched (coverage)" ≠ label := by
    rintro rfl
    exact hlabel rfl
  have hneg : ∀ (tile : MetricTile) (tiles : List MetricTile),
      tile.label ≠ label → (tile :: tiles).find? (MetricTile.label · = label) =
        tiles.find? (MetricTile.label · = label) := by
    intro tile tiles hne
    exact List.find?_cons_of_neg (by simpa using hne)
  simp only [List.mem_cons, List.not_mem_nil, or_false, not_or, ← ne_eq]
    at hother
  obtain ⟨hscanned, hunscanned, hcomponents, hwarnings⟩ := hother
  rw [HtmlReport.tileValue?]
  dsimp only [writeHtmlReport, summaryTiles]
  rw [hneg _ _ (by split_ifs <;> symm <;> assumption),
    hneg _ _ hcomponents.symm, hneg _ _ (label_usageTile_ne _ _ hlabel),
    hneg _ _ hunmatched, List.find?_append, hneg _ _ hwarnings.symm,
    List.find?_nil, Option.or_none, advisoryTotal_foldl, Nat.zero_add]

theorem tileValue?_vulnerableComponents
    (hinput : IsReportInput components context) :
    (writeHtmlReport components context).tileValue? "vulnerable components" =
      some (toString
        (normalizedVulnerabilities context.vulnerabilities).length) := by
  rw [tileValue?_writeHtmlReport (by decide) (by decide), vulnerabilityTiles,
    if_pos hinput.enabled]
  simp

theorem tileValue?_advisories (hinput : IsReportInput components context) :
    (writeHtmlReport components context).tileValue? "advisories" =
      some (toString (((normalizedVulnerabilities context.vulnerabilities).map
        fun entry => entry.advisories.length).sum)) := by
  rw [tileValue?_writeHtmlReport (by decide) (by decide), vulnerabilityTiles,
    if_pos hinput.enabled]
  simp

theorem tileValue?_notChecked (hinput : IsReportInput components context) :
    ((writeHtmlReport components context).tileValue? "not checked").or
      ((writeHtmlReport components context).tileValue?
        "no OSV coverage (not checked)") =
      some (toString (notCheckedCount context)) := by
  rw [tileValue?_writeHtmlReport (by decide) (by decide),
    tileValue?_writeHtmlReport (by decide) (by decide), vulnerabilityTiles,
    if_pos hinput.enabled]
  by_cases hchecked : 0 < cpeCheckedCount context <;> simp [hchecked]

theorem tileValue?_checkedViaCpe (hinput : IsReportInput components context) :
    (writeHtmlReport components context).tileValue?
      "checked via CPE (low confidence)" =
      if 0 < cpeCheckedCount context then
        some (toString (cpeCheckedCount context))
      else none := by
  rw [tileValue?_writeHtmlReport (by decide) (by decide), vulnerabilityTiles,
    if_pos hinput.enabled]
  by_cases hchecked : 0 < cpeCheckedCount context <;> simp [hchecked]

end Tiles

/-! ## Agreement -/

section Agreement

variable {components : List Component} {context : ReportContext}

theorem counts_posture (hinput : IsReportInput components context) :
    (writeHtmlReport components context).posture.counts =
      ((normalizedVulnerabilities context.vulnerabilities).length,
        ((normalizedVulnerabilities context.vulnerabilities).map
          fun entry => entry.advisories.length).sum) := by
  dsimp only [writeHtmlReport]
  rw [posture, if_neg (by simp [hinput.enabled]), advisoryTotal_foldl,
    Nat.zero_add]
  split_ifs with hzero
  · rw [List.eq_nil_of_length_eq_zero hzero]
    rfl
  · rfl

theorem isRed_posture_iff (hinput : IsReportInput components context) :
    (writeHtmlReport components context).posture.isRed = true ↔
      normalizedVulnerabilities context.vulnerabilities ≠ [] := by
  dsimp only [writeHtmlReport]
  rw [posture, if_neg (by simp [hinput.enabled]), ← List.length_pos_iff]
  split_ifs with hzero
  · simp [Posture.isRed, hzero]
  · simpa [Posture.isRed] using Nat.pos_of_ne_zero hzero

theorem hasAdvisories_iff {vulnerabilities : List ReportVulnerability} :
    HasAdvisories vulnerabilities ↔
      ∀ entry ∈ normalizedVulnerabilities vulnerabilities,
        entry.advisories ≠ [] := by
  have hentry : ∀ purl, (entryOf purl vulnerabilities).advisories ≠ [] ↔
      advisoriesOf purl vulnerabilities ≠ [] := by
    intro purl
    simp only [ne_eq, List.eq_nil_iff_forall_not_mem, not_forall, not_not,
      mem_advisories_entryOf_iff]
    constructor
    · rintro ⟨advisory, hget⟩
      exact ⟨advisory, (isWorst_of_getElem? hget).2.1⟩
    · rintro ⟨advisory, hmem⟩
      obtain ⟨winner, hwinner⟩ := exists_getElem?_of_mem hmem
      obtain ⟨hid, -⟩ := isWorst_of_getElem? hwinner
      exact ⟨winner, hid ▸ hwinner⟩
  constructor
  · intro h entry hmem
    obtain ⟨hne, heq⟩ := mem_normalizedVulnerabilities_iff.mp hmem
    obtain ⟨first, hfirst⟩ := List.exists_mem_of_ne_nil _ hne
    obtain ⟨hfirst, hpurl⟩ := List.mem_filter.mp hfirst
    rw [heq, hentry, ← of_decide_eq_true hpurl]
    exact h first hfirst
  · intro h entry hmem
    have hne : entriesOf entry.purl vulnerabilities ≠ [] :=
      List.ne_nil_of_mem (List.mem_filter.mpr ⟨hmem, decide_eq_true rfl⟩)
    exact (hentry entry.purl).mp (h _ (entryOf_mem_normalized hne))

theorem countsAgree_of_hasAdvisories
    (hinput : IsReportInput components context)
    (h : HasAdvisories context.vulnerabilities) :
    CountsAgree (writeHtmlReport components context) := by
  have hadvisories := hasAdvisories_iff.mp h
  have hlength : (writeHtmlReport components context).advisoryBadges.length =
      (normalizedVulnerabilities context.vulnerabilities).length := by
    rw [length_advisoryBadges hinput, List.countP_eq_length]
    intro entry hentry
    exact decide_eq_true (List.length_pos_iff.mpr (hadvisories entry hentry))
  have hshown : (writeHtmlReport components context).vulnerabilities =
      normalizedVulnerabilities context.vulnerabilities :=
    if_pos hinput.enabled
  have hnotices : (writeHtmlReport components context).notices =
      coverageNotices context := rfl
  constructor
  · rw [tileValue?_vulnerableComponents hinput, hlength]
  · rw [tileValue?_advisories hinput, sum_advisoryBadges hinput]
  · rw [counts_posture hinput, hlength, sum_advisoryBadges hinput]
  · rw [tileValue?_notChecked hinput, coverageBadgeCount_notChecked hinput]
  · rw [tileValue?_checkedViaCpe hinput,
      coverageBadgeCount_checkedViaCpe hinput]
  · intro count
    rw [coverageBadgeCount_notChecked hinput, hnotices, coverageNotices,
      if_neg (by simp [hinput.enabled]), notCheckedCount]
    split_ifs <;> simp <;> omega
  · intro count
    rw [coverageBadgeCount_checkedViaCpe hinput, hnotices, coverageNotices,
      if_neg (by simp [hinput.enabled])]
    split_ifs <;> simp <;> omega
  · rw [isRed_posture_iff hinput, hshown]
    constructor
    · intro hne
      obtain ⟨entry, hentry⟩ := List.exists_mem_of_ne_nil _ hne
      exact ⟨entry, hentry, hadvisories entry hentry⟩
    · rintro ⟨entry, hentry, -⟩
      exact List.ne_nil_of_mem hentry

theorem hasAdvisories_of_countsAgree
    (hinput : IsReportInput components context)
    (h : CountsAgree (writeHtmlReport components context)) :
    HasAdvisories context.vulnerabilities := by
  have hcounts := h.posture_counts
  rw [counts_posture hinput, Prod.mk.injEq, length_advisoryBadges hinput]
    at hcounts
  rw [hasAdvisories_iff]
  intro entry hentry
  have hpos := List.countP_eq_length.mp hcounts.1.symm entry hentry
  exact List.length_pos_iff.mp (of_decide_eq_true hpos)

theorem countsAgree_iff (hinput : IsReportInput components context) :
    CountsAgree (writeHtmlReport components context) ↔
      HasAdvisories context.vulnerabilities :=
  ⟨hasAdvisories_of_countsAgree hinput, countsAgree_of_hasAdvisories hinput⟩

end Agreement

/-- A component with an advisory, and one that nothing covers. -/
def sampleComponents : List Component :=
  [{ name := "a", purl := "pkg:a" }, { name := "b", purl := "pkg:b" }]

def sampleContext : ReportContext where
  vulnerabilities := [⟨"pkg:a", [⟨"A", {}, []⟩], .osvPurlMatch⟩]
  componentsWithoutOsvCoveragePurls := ["pkg:b"]

theorem isReportInput_sample :
    IsReportInput sampleComponents sampleContext := by
  constructor <;> decide

theorem countsAgree_iff_sample :
    CountsAgree (writeHtmlReport sampleComponents sampleContext) ↔
      HasAdvisories sampleContext.vulnerabilities :=
  countsAgree_iff isReportInput_sample

def emptyEntryContext : ReportContext where
  vulnerabilities := [⟨"pkg:a", [], .osvPurlMatch⟩]

theorem not_countsAgree_emptyEntry :
    ¬ CountsAgree (writeHtmlReport sampleComponents emptyEntryContext) := by
  intro h
  have hinput : IsReportInput sampleComponents emptyEntryContext := by
    constructor <;> decide
  have hadvisories := hasAdvisories_of_countsAgree hinput h
  exact hadvisories ⟨"pkg:a", [], .osvPurlMatch⟩ (by decide) (by decide)

end Bomwerk.Output.Html
