import Bomwerk.Core.Component
import Bomwerk.Vuln.Osv.Match

/-!
# The HTML report

`output/html.cpp`: the findings in the order of the report, and what the
posture line, the summary tiles, the component rows and the vulnerability
section show.  The markup around the shown values is fixed text.
-/

namespace Bomwerk.Output.Html

open Bomwerk.Core Bomwerk.Support Bomwerk.Vuln

inductive FindingSource
  | osvPurlMatch
  | nvdCpeMatch
  deriving DecidableEq, Repr

def isHighConfidenceSource (source : FindingSource) : Bool :=
  source = .osvPurlMatch

structure ReportVulnerability where
  purl : String
  advisories : List ScoredAdvisory := []
  source : FindingSource := .osvPurlMatch
  deriving DecidableEq, Repr

def worstSeverityOf (vulnerability : ReportVulnerability) : CvssScore :=
  match vulnerability.advisories with
  | [] => {}
  | advisory :: _ => advisory.severity

/-- The inner loop of `normalized_vulnerabilities`: the first of the most
severe advisories stays. -/
def keepMostSevere (byId : OrderedMap String ScoredAdvisory)
    (advisory : ScoredAdvisory) : OrderedMap String ScoredAdvisory :=
  updateAt byId advisory.id fun
    | some existing =>
      if moreSevere advisory existing then advisory else existing
    | none => advisory

def advisoriesByIdByPurl (vulnerabilities : List ReportVulnerability) :
    OrderedMap String (OrderedMap String ScoredAdvisory) :=
  vulnerabilities.foldl
    (fun byPurl vulnerability =>
      updateAt byPurl vulnerability.purl fun byId? =>
        vulnerability.advisories.foldl keepMostSevere (byId?.getD ∅)) ∅

/-- `source_by_purl`: the first source, until a strong one comes. -/
def sourceByPurl (vulnerabilities : List ReportVulnerability) :
    OrderedMap String FindingSource :=
  vulnerabilities.foldl
    (fun sources vulnerability =>
      updateAt sources vulnerability.purl fun
        | some source =>
          if isHighConfidenceSource vulnerability.source then
            vulnerability.source
          else source
        | none => vulnerability.source) ∅

def rebuiltEntry (sources : OrderedMap String FindingSource) (purl : String)
    (byId : OrderedMap String ScoredAdvisory) : ReportVulnerability where
  purl := purl
  source := (sources[purl]?).getD .osvPurlMatch
  advisories := (byId.toList.map Prod.snd).insertionSort AdvisoryLe

def leadsReport (left right : ReportVulnerability) : Bool :=
  let leftWorst := worstSeverityOf left
  let rightWorst := worstSeverityOf right
  if leftWorst.hasScore ≠ rightWorst.hasScore then leftWorst.hasScore
  else if leftWorst.hasScore ∧ leftWorst.score ≠ rightWorst.score then
    rightWorst.score < leftWorst.score
  else left.purl < right.purl

/-- The order that the last sort gives the entries. -/
def EntryLe (left right : ReportVulnerability) : Prop :=
  leadsReport right left = false

instance : DecidableRel EntryLe := fun left right =>
  inferInstanceAs (Decidable (leadsReport right left = false))

def normalizedVulnerabilities (vulnerabilities : List ReportVulnerability) :
    List ReportVulnerability :=
  ((advisoriesByIdByPurl vulnerabilities).toList.map fun entry =>
    rebuiltEntry (sourceByPurl vulnerabilities) entry.1 entry.2).insertionSort
      EntryLe

def highestConfidence (component : Component) : Confidence :=
  component.evidence.foldl
    (fun highest evidence =>
      if highest.rank < evidence.confidence.rank then evidence.confidence
      else highest) .low

/-- The comparison of `components_sorted_for_report`. -/
def leadsTable (left right : Component) : Bool :=
  if highestConfidence left ≠ highestConfidence right then
    (highestConfidence right).rank < (highestConfidence left).rank
  else componentIdentity left < componentIdentity right

def componentsSortedForReport (components : List Component) : List Component :=
  components.insertionSort fun left right => leadsTable right left = false

structure BuildUsageSummary where
  judged : Nat := 0
  used : Nat := 0
  unused : Nat := 0
  notJudgeable : Nat := 0
  deriving DecidableEq, Repr

def summarizeBuildUsage (components : List Component) : BuildUsageSummary :=
  components.foldl
    (fun summary component =>
      if component.root.isEmpty then
        { summary with notJudgeable := summary.notJudgeable + 1 }
      else if component.usedInBuild then
        { summary with judged := summary.judged + 1, used := summary.used + 1 }
      else
        { summary with
          judged := summary.judged + 1, unused := summary.unused + 1 }) {}

/-! ## The report -/

/-- The part of `ReportContext` that these surfaces read. -/
structure ReportContext where
  scannedFileCount : Nat := 0
  scanFileCountAvailable : Bool := true
  buildTraceApplied : Bool := false
  vulnerabilityCheckEnabled : Bool := true
  vulnerabilityCheckApplicable : Bool := true
  vulnerabilities : List ReportVulnerability := []
  componentsWithoutOsvCoveragePurls : List String := []
  componentsCheckedViaCpeFallbackPurls : List String := []
  warnings : List Warning := []

/-- What `append_posture` shows: amber, green or red. -/
inductive Posture
  | notChecked (applicable : Bool)
  | good
  | bad (affectedComponentCount advisoryTotal : Nat)
      (worstSeverity : CvssScore) (everyFindingIsLowConfidence : Bool)
  deriving DecidableEq, Repr

/-- `append_posture`. -/
def posture (context : ReportContext)
    (affectedComponentCount advisoryTotal : Nat) (worstSeverity : CvssScore)
    (everyFindingIsLowConfidence : Bool) : Posture :=
  if !context.vulnerabilityCheckEnabled then
    .notChecked context.vulnerabilityCheckApplicable
  else if affectedComponentCount = 0 then .good
  else .bad affectedComponentCount advisoryTotal worstSeverity
    everyFindingIsLowConfidence

/-- One tile of `append_metric_tile`. -/
structure MetricTile where
  tone : String
  value : String
  label : String
  deriving DecidableEq, Repr

def emptyPlaceholder : String := "-"

/-- The number of uncovered components that the CPE fallback reached. -/
def cpeCheckedCount (context : ReportContext) : Nat :=
  min context.componentsCheckedViaCpeFallbackPurls.length
    context.componentsWithoutOsvCoveragePurls.length

/-- The number of uncovered components that nothing reached. -/
def notCheckedCount (context : ReportContext) : Nat :=
  context.componentsWithoutOsvCoveragePurls.length - cpeCheckedCount context

def usageTile (context : ReportContext) (usage : BuildUsageSummary) :
    MetricTile :=
  if !context.buildTraceApplied then
    ⟨"warn", emptyPlaceholder, "unused (no build trace)"⟩
  else if usage.judged = 0 then
    ⟨"warn", emptyPlaceholder, "unused (nothing locatable)"⟩
  else
    ⟨if 0 < usage.unused then "warn" else "good", toString usage.unused,
      "unused of " ++ toString usage.judged ++ " located"⟩

def vulnerabilityTiles (context : ReportContext)
    (affectedComponentCount advisoryTotal : Nat) : List MetricTile :=
  if context.vulnerabilityCheckEnabled then
    [⟨if 0 < affectedComponentCount then "bad" else "good",
        toString affectedComponentCount, "vulnerable components"⟩,
      ⟨if 0 < advisoryTotal then "bad" else "good", toString advisoryTotal,
        "advisories"⟩,
      ⟨if 0 < notCheckedCount context then "warn" else "",
        toString (notCheckedCount context),
        if 0 < cpeCheckedCount context then "not checked"
        else "no OSV coverage (not checked)"⟩] ++
      if 0 < cpeCheckedCount context then
        [⟨"warn", toString (cpeCheckedCount context),
          "checked via CPE (low confidence)"⟩]
      else []
  else
    [⟨"warn", emptyPlaceholder, "vulnerable components (not checked)"⟩,
      ⟨"warn", emptyPlaceholder, "advisories (not checked)"⟩]

/-- `append_summary_section`. -/
def summaryTiles (context : ReportContext)
    (componentCount affectedComponentCount advisoryTotal
      unmatchedCoverageCount : Nat) (usage : BuildUsageSummary) :
    List MetricTile :=
  (if context.scanFileCountAvailable then
      ⟨"", toString context.scannedFileCount, "files scanned"⟩
    else ⟨"warn", emptyPlaceholder, "files scanned (not recorded)"⟩) ::
    ⟨"", toString componentCount, "components"⟩ ::
    usageTile context usage ::
    ⟨if 0 < unmatchedCoverageCount then "warn" else "",
      toString unmatchedCoverageCount, "unmatched (coverage)"⟩ ::
    (vulnerabilityTiles context affectedComponentCount advisoryTotal ++
      [⟨if context.warnings = [] then "" else "warn",
        toString context.warnings.length, "warnings"⟩])

inductive OsvCoverageBadge
  | none
  | notChecked
  | checkedViaCpe
  deriving DecidableEq, Repr

def advisoryCountLabel (advisoryCount : Nat) : String :=
  if advisoryCount = 1 then "1 advisory"
  else toString advisoryCount ++ " advisories"

structure ComponentRow where
  component : Component
  /-- The number on the advisory badge, if there is one. -/
  advisoryBadge? : Option Nat
  unusedBadge : Bool
  coverageBadge : OsvCoverageBadge
  matchBadge? : Option MatchCoverage
  confidence : Confidence
  deriving DecidableEq

/-- `append_component_row`. -/
def componentRow (component : Component) (advisoryCount : Nat)
    (coverageBadge : OsvCoverageBadge) (buildTraceApplied : Bool) :
    ComponentRow where
  component := component
  advisoryBadge? := if 0 < advisoryCount then some advisoryCount else none
  unusedBadge := buildTraceApplied && !component.root.isEmpty &&
    !component.usedInBuild
  coverageBadge := coverageBadge
  matchBadge? :=
    if coverageBadge = .none ∧
        classifyMatchCoverage component.purl ≠ .matched then
      some (classifyMatchCoverage component.purl)
    else none
  confidence := highestConfidence component

/-- The badge state of a row in `append_components_section`. -/
def coverageBadgeOf (uncoveredPurls cpeCheckedPurls : List String)
    (purl : String) : OsvCoverageBadge :=
  if purl ∈ uncoveredPurls then
    if purl ∈ cpeCheckedPurls then .checkedViaCpe else .notChecked
  else .none

/-- `append_components_section`. -/
def componentRows (sortedComponents : List Component)
    (advisoryCountByPurl : OrderedMap String Nat)
    (uncoveredPurls cpeCheckedPurls : List String) (buildTraceApplied : Bool) :
    List ComponentRow :=
  sortedComponents.map fun component =>
    componentRow component ((advisoryCountByPurl[component.purl]?).getD 0)
      (coverageBadgeOf uncoveredPurls cpeCheckedPurls component.purl)
      buildTraceApplied

/-- What the loop of `write_html_report` over the findings collects. -/
structure FindingTotals where
  advisoryCountByPurl : OrderedMap String Nat := ∅
  advisoryTotal : Nat := 0
  worstOverallSeverity : CvssScore := {}
  everyFindingIsLowConfidence : Bool := true

def FindingTotals.add (totals : FindingTotals)
    (vulnerability : ReportVulnerability) : FindingTotals where
  advisoryCountByPurl := totals.advisoryCountByPurl.insert vulnerability.purl
    vulnerability.advisories.length
  advisoryTotal := totals.advisoryTotal + vulnerability.advisories.length
  worstOverallSeverity :=
    let componentWorst := worstSeverityOf vulnerability
    if componentWorst.hasScore ∧ (!totals.worstOverallSeverity.hasScore ∨
        totals.worstOverallSeverity.score < componentWorst.score) then
      componentWorst
    else totals.worstOverallSeverity
  everyFindingIsLowConfidence := totals.everyFindingIsLowConfidence &&
    !isHighConfidenceSource vulnerability.source

/-- The notices of `append_vulnerabilities_section`, with their numbers. -/
inductive CoverageNotice
  | matchedViaCpe (count : Nat)
  | notChecked (count : Nat)
  deriving DecidableEq, Repr

/-- The end of `append_vulnerabilities_section`. -/
def coverageNotices (context : ReportContext) : List CoverageNotice :=
  if !context.vulnerabilityCheckEnabled then []
  else
    (if 0 < cpeCheckedCount context then
        [.matchedViaCpe (cpeCheckedCount context)]
      else []) ++
      if cpeCheckedCount context <
          context.componentsWithoutOsvCoveragePurls.length then
        [.notChecked (notCheckedCount context)]
      else []

/-- The surfaces of the document that speak of findings. -/
structure HtmlReport where
  posture : Posture
  tiles : List MetricTile
  rows : List ComponentRow
  /-- The rows of the vulnerability table. -/
  vulnerabilities : List ReportVulnerability
  notices : List CoverageNotice

def writeHtmlReport (components : List Component) (context : ReportContext) :
    HtmlReport :=
  let vulnerabilities := normalizedVulnerabilities context.vulnerabilities
  let totals := vulnerabilities.foldl FindingTotals.add {}
  let unmatchedCoverageCount := components.countP fun component =>
    classifyMatchCoverage component.purl ≠ .matched
  { posture := posture context vulnerabilities.length totals.advisoryTotal
      totals.worstOverallSeverity totals.everyFindingIsLowConfidence
    tiles := summaryTiles context components.length vulnerabilities.length
      totals.advisoryTotal unmatchedCoverageCount
      (summarizeBuildUsage components)
    rows := componentRows (componentsSortedForReport components)
      totals.advisoryCountByPurl context.componentsWithoutOsvCoveragePurls
      context.componentsCheckedViaCpeFallbackPurls context.buildTraceApplied
    vulnerabilities :=
      if context.vulnerabilityCheckEnabled then vulnerabilities else []
    notices := coverageNotices context }

end Bomwerk.Output.Html
