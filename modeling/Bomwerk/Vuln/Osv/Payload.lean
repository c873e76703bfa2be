import Bomwerk.Core.Json
import Bomwerk.Core.Text
import Bomwerk.Support.OrderedMap
import Bomwerk.Vuln.Delta
import Mathlib.Data.Rat.Defs
import Mathlib.Algebra.Order.Ring.Rat

/-!
# OSV payloads

What `vuln/osv.cpp` reads out of one detection payload (a `querybatch` result
object) and out of one hydration payload (a `/v1/query` answer).
-/

namespace Bomwerk.Vuln

open Bomwerk.Core Bomwerk.Support

structure ExtractedPayload where
  advisoryRevisions : List AdvisoryRevision := []
  truncated : Bool := false
  malformed : Bool := false
  deriving DecidableEq, Repr

/-- One turn of the loop of `extract_advisory_revisions`; nothing for an entry
the loop skips. -/
def advisoryRevision? (advisory : Json) : Option AdvisoryRevision :=
  (advisory.findString? "id").map fun id =>
    { advisoryId := id
      modified := (advisory.findString? "modified").getD "" }

/-- `extract_advisory_revisions`, behind the parse. -/
def extractFromDocument (document : Json) : ExtractedPayload :=
  if !document.isObject then { malformed := true }
  else
    let truncated := document.contains "next_page_token"
    match document.find? "vulns" with
    | none => { truncated := truncated }
    | some (.array vulns) =>
      { advisoryRevisions := vulns.filterMap advisoryRevision?
        truncated := truncated }
    | some _ => { truncated := truncated, malformed := true }

def extractAdvisoryRevisions (payload : JsonText) : ExtractedPayload :=
  match parseBoundedJson payload with
  | none => { malformed := true }
  | some document => extractFromDocument document

/-- The order of `sort_and_deduplicate_revisions`. -/
def RevisionLe (left right : AdvisoryRevision) : Prop :=
  left.advisoryId ≤ right.advisoryId

instance : DecidableRel RevisionLe := fun left right =>
  inferInstanceAs (Decidable (left.advisoryId ≤ right.advisoryId))

instance : Std.Total RevisionLe where
  total left right := le_total left.advisoryId right.advisoryId

instance : IsTrans AdvisoryRevision RevisionLe where
  trans a b _ hab hbc :=
    le_trans (show a.advisoryId ≤ b.advisoryId from hab) hbc

def sortAndDeduplicateRevisions (revisions : List AdvisoryRevision) :
    List AdvisoryRevision :=
  sortUnique RevisionLe AdvisoryRevision.advisoryId revisions

theorem sortedById_sortAndDeduplicateRevisions
    (revisions : List AdvisoryRevision) :
    SortedById (sortAndDeduplicateRevisions revisions) :=
  pairwise_lt_sortUnique (fun _ _ h => h) revisions

theorem mem_advisoryIds_sortAndDeduplicateRevisions_iff
    {revisions : List AdvisoryRevision} {id : String} :
    id ∈ advisoryIds (sortAndDeduplicateRevisions revisions) ↔
      id ∈ advisoryIds revisions :=
  map_key_mem_sortUnique_iff

/-- The `vulns` array of a page; empty when the page has none. -/
def pageVulns (page : Json) : List Json :=
  (page.findArray? "vulns").getD []

def pageIds (page : Json) : List String :=
  advisoryIds ((pageVulns page).filterMap advisoryRevision?)

theorem extractFromDocument_truncated (document : Json) :
    (extractFromDocument document).truncated =
      document.contains "next_page_token" := by
  cases document with
  | object members =>
    simp only [extractFromDocument, Json.isObject, Bool.not_true,
      Bool.false_eq_true, if_false]
    split <;> rfl
  | _ => rfl

theorem extractFromDocument_advisoryRevisions (document : Json) :
    (extractFromDocument document).advisoryRevisions =
      (pageVulns document).filterMap advisoryRevision? := by
  cases document with
  | object members =>
    simp only [extractFromDocument, Json.isObject, Bool.not_true,
      Bool.false_eq_true, if_false, pageVulns, Json.findArray?]
    split <;> simp_all
  | _ => rfl

theorem extractFromDocument_malformed_iff (document : Json) :
    (extractFromDocument document).malformed = true ↔
      document.isObject = false ∨
        (document.contains "vulns" = true ∧
          document.findArray? "vulns" = none) := by
  cases document with
  | object members =>
    simp only [extractFromDocument, Json.isObject, Bool.not_true,
      Bool.false_eq_true, if_false, Json.findArray?, Json.contains]
    split <;> simp_all
  | _ => simp [extractFromDocument, Json.isObject]

theorem extractAdvisoryRevisions_dump {document : Json}
    (hdepth : document.depth ≤ maxJsonNestingDepth) :
    extractAdvisoryRevisions document.dump = extractFromDocument document := by
  simp [extractAdvisoryRevisions, parseBoundedJson_dump hdepth]

inductive SeverityRating
  | unknown
  | none
  | low
  | medium
  | high
  | critical
  deriving DecidableEq, Repr

structure CvssScore where
  score : ℚ := 0
  rating : SeverityRating := .unknown
  hasScore : Bool := false
  deriving DecidableEq, Repr

structure ScoredAdvisory where
  id : String
  severity : CvssScore := {}
  cveAliases : List String := []
  deriving DecidableEq, Repr

def moreSevere (left right : ScoredAdvisory) : Bool :=
  if left.severity.hasScore ≠ right.severity.hasScore then
    left.severity.hasScore
  else if left.severity.hasScore ∧
      left.severity.score ≠ right.severity.score then
    right.severity.score < left.severity.score
  else left.id < right.id

def isCveShapedId (candidate : String) : Bool :=
  let remainder := candidate.toList.drop 4
  startsWith candidate "CVE-" && decide (9 ≤ remainder.length) &&
    (remainder.take 4).all Char.isDigit &&
    remainder[4]? = some '-' && (remainder.drop 5).all Char.isDigit

structure AdvisoryRecord where
  severity : CvssScore := {}
  cveAliases : List String := []
  deriving DecidableEq, Repr

/-- Whether a candidate displaces the best score so far. -/
def betterScore (best candidate : CvssScore) : CvssScore :=
  if candidate.hasScore && (!best.hasScore || best.score < candidate.score) then
    candidate
  else best

section Hydration

-- `score_cvss_vector`: the base-score formula of `core/cvss.cpp`.
variable (scoreCvssVector : String → CvssScore)

def bestSeverity (severityArray : Json) : CvssScore :=
  (severityArray.items.filterMap fun entry => entry.findString? "score").foldl
    (fun best vector => betterScore best (scoreCvssVector vector)) {}

/-- The `cve_aliases` of one advisory. -/
def cveAliasesOf (advisory : Json) : List String :=
  sortUnique (· ≤ ·) id
    ((((advisory.findArray? "aliases").getD []).filterMap
      Json.asString?).filter isCveShapedId)

/-- One turn of the loop of `extract_full_records`. -/
def advisoryRecord? (advisory : Json) : Option (String × AdvisoryRecord) :=
  (advisory.findString? "id").map fun id =>
    (id,
      { severity := ((advisory.find? "severity").map
          (bestSeverity scoreCvssVector)).getD {}
        cveAliases := cveAliasesOf advisory })

def extractFullRecords (payload : JsonText) :
    OrderedMap String AdvisoryRecord :=
  match parseBoundedJson payload with
  | none => ∅
  | some document =>
    ((pageVulns document).filterMap (advisoryRecord? scoreCvssVector)).foldl
      (fun records (id, record) => records.insert id record) ∅

end Hydration
end Bomwerk.Vuln
