import Bomwerk.Core.YamlSubset
import Bomwerk.Lockfiles.UnexhaustedRuns

/-!
# pubspec.lock

`parsers/lockfiles/pub.cpp`, and the account of the entries of a packages
section: each is closed once, with nothing but its own fields.
-/

namespace Bomwerk.Lockfiles.Pub

open Bomwerk.Core Bomwerk.Core.YamlSubset

def packagesKeyIndentation : Nat := 0

def packagesKey : List Char := "packages".toList

def entryKeyIndentation : Nat := 2

def entryFieldIndentation : Nat := 4

def descriptionFieldIndentation : Nat := 6

def descriptionKey : List Char := "description".toList

def sourceKey : List Char := "source".toList

def versionKey : List Char := "version".toList

def descriptionUrlField : List Char := "url".toList

def descriptionResolvedRefField : List Char := "resolved-ref".toList

inductive PubSource
  | unknown
  | hosted
  | path
  | git
  | sdk
  deriving DecidableEq, Repr

/-- `PendingEntry`, of an active entry. -/
structure PendingEntry where
  name : List Char
  version : List Char := []
  source : PubSource := .unknown
  descriptionUrl : List Char := []
  descriptionResolvedRef : List Char := []
  insideDescription : Bool := false

def parsePubSource (sourceValue : List Char) : PubSource :=
  if sourceValue = "hosted".toList then .hosted
  else if sourceValue = "path".toList then .path
  else if sourceValue = "git".toList then .git
  else if sourceValue = "sdk".toList then .sdk
  else .unknown

def buildPubPurl (name version : String) : String :=
  "pkg:pub/" ++ percentEncode name ++ "@" ++ percentEncode version

def evidenceDetailFor (entry : PendingEntry) (label : String) : String :=
  match entry.source with
  | .git =>
    label ++ " (source git" ++
      (if entry.descriptionUrl = [] then ""
        else ", url " ++ String.ofList entry.descriptionUrl) ++
      (if entry.descriptionResolvedRef = [] then ""
        else ", resolved-ref " ++
          String.ofList entry.descriptionResolvedRef) ++ ")"
  | .sdk => label ++ " (source sdk)"
  | _ => label ++ " (source hosted)"

/-- The component of `append_pub_component`, before its purl is
canonicalized. -/
def pubComponent (entry : PendingEntry) (label : String) : Component where
  name := String.ofList entry.name
  version := String.ofList entry.version
  purl := buildPubPurl (String.ofList entry.name) (String.ofList entry.version)
  evidence := [⟨.manifest, evidenceDetailFor entry label, .high⟩]

/-- What `close_pending_entry` makes of an entry. -/
def entryOutcome (label : String) (entry : PendingEntry) : Outcome :=
  if entry.source = .path then .ignored
  else if entry.source = .unknown then .skipped .unresolved
  else if entry.name = [] ∨ entry.version = [] then .skipped .versionless
  else .valid (some (pubComponent entry label))

def closePendingEntry (label : String) (pending : Option PendingEntry) :
    List Reading :=
  pending.toList.map fun entry => { outcome := entryOutcome label entry }

def PendingEntry.readNode (entry : PendingEntry) (node : Node) :
    PendingEntry :=
  if node.indentation = entryFieldIndentation then
    if node.key = descriptionKey then
      { entry with insideDescription := node.opensBlock }
    else if node.key = sourceKey then
      { entry with
        insideDescription := false, source := parsePubSource node.value }
    else if node.key = versionKey then
      { entry with insideDescription := false, version := node.value }
    else { entry with insideDescription := false }
  else if node.indentation = descriptionFieldIndentation ∧
      entry.insideDescription then
    if node.key = descriptionUrlField then
      { entry with descriptionUrl := node.value }
    else if node.key = descriptionResolvedRefField then
      { entry with descriptionResolvedRef := node.value }
    else entry
  else entry

/-- What the loop of `parse_pubspec_lock` carries from node to node. -/
structure LoopState where
  pending : Option PendingEntry := none
  insidePackages : Bool := false

/-- The loop of `parse_pubspec_lock`. -/
def lockEntries (label : String) :
    LoopState → List LineResult → List Reading
  | state, [] => closePendingEntry label state.pending
  | state, .nothing :: lines => lockEntries label state lines
  | state, .unsupported :: lines =>
    { outcome := .skipped .unsupportedLine } :: lockEntries label state lines
  | state, .node node :: lines =>
    if node.indentation ≤ entryKeyIndentation then
      closePendingEntry label state.pending ++
        if node.indentation = packagesKeyIndentation then
          lockEntries label { insidePackages := node.key = packagesKey } lines
        else if !state.insidePackages ∨
            node.indentation ≠ entryKeyIndentation then
          lockEntries label { state with pending := none } lines
        else if node.key = [] then
          { outcome := .skipped .malformed } ::
            lockEntries label { state with pending := none } lines
        else
          lockEntries label
            { state with pending := some { name := node.key } } lines
    else if !state.insidePackages then lockEntries label state lines
    else
      lockEntries label
        { state with pending := state.pending.map (·.readNode node) } lines

def warning (code : WarningCode) (message : String) : Warning where
  code := code
  message := "pub: " ++ message
  ecosystem := "pub"

def skipWarning (skipped : List SkipReason) (reason : SkipReason)
    (code : WarningCode) (message label : String) : List Warning :=
  if skipped.count reason = 0 then []
  else [warning code (toString (skipped.count reason) ++ message ++ label)]

/-- `warn_skip_counts`, and the warning about unsupported lines behind it. -/
def summaryOf (label : String) (skipped : List SkipReason) : List Warning :=
  skipWarning skipped .unresolved .entriesSkippedUnresolved
      " entrie(s) with an unrecognized source skipped: " label ++
    skipWarning skipped .versionless .entriesSkippedUnresolved
      " entrie(s) without a resolved version skipped: " label ++
    skipWarning skipped .malformed .malformedEntrySkipped
      " malformed entrie(s) skipped: " label ++
    skipWarning skipped .unsupportedLine .malformedEntrySkipped
      " line(s) outside the readable YAML subset skipped: " label

/-- `parse_pubspec_lock`, before any limit. -/
def lockManifest (label : String) (text : List Char) : Manifest where
  entries := lockEntries label {} (lineResults text)
  summary _ skipped := summaryOf label skipped

def parsePubspecLock (limit : Nat) (label : String) (bytes : List UInt8)
    (state : ParseState) : Option ParseState :=
  parseManifest "pub" limit (lockManifest label (byteText bytes)) state

/-- A node that closes the pending entry. -/
def isBoundary : LineResult → Bool
  | .node node => node.indentation ≤ entryKeyIndentation
  | _ => false

def isDocumentKey : LineResult → Bool
  | .node node => node.indentation = packagesKeyIndentation
  | _ => false

/-- A line below a field, or one that is no node. -/
def isInner : LineResult → Bool
  | .node node =>
    entryKeyIndentation < node.indentation ∧
      node.indentation ≠ entryFieldIndentation
  | _ => true

structure EntryField where
  head : Node
  block : List LineResult

def EntryField.lines (field : EntryField) : List LineResult :=
  .node field.head :: field.block

/-- An entry: its key, the lines ahead of its first field, and its fields. -/
structure LockEntry where
  key : Node
  lead : List LineResult
  fields : List EntryField

def LockEntry.body (entry : LockEntry) : List LineResult :=
  entry.lead ++ entry.fields.flatMap EntryField.lines

def LockEntry.lines (entry : LockEntry) : List LineResult :=
  .node entry.key :: entry.body

structure EntryField.IsSpelled (field : EntryField) : Prop where
  head : field.head.indentation = entryFieldIndentation
  block : ∀ line ∈ field.block, isInner line = true

structure LockEntry.IsSpelled (entry : LockEntry) : Prop where
  key : entry.key.indentation = entryKeyIndentation
  lead : ∀ line ∈ entry.lead, isInner line = true
  fields : ∀ field ∈ entry.fields, field.IsSpelled

/-- The value of a key among some nodes; the last one when it is repeated. -/
def lastValue? (key : List Char) (nodes : List Node) : Option (List Char) :=
  (nodes.filter (·.key = key)).getLast?.map Node.value

def EntryField.descriptionNodes (field : EntryField) : List Node :=
  if field.head.key = descriptionKey ∧ field.head.opensBlock then
    field.block.filterMap fun line =>
      match line with
      | .node node =>
        if node.indentation = descriptionFieldIndentation then some node
        else none
      | _ => none
  else []

section Own

variable (entry : LockEntry)

def LockEntry.version : List Char :=
  (lastValue? versionKey (entry.fields.map EntryField.head)).getD []

def LockEntry.source : PubSource :=
  (lastValue? sourceKey (entry.fields.map EntryField.head)).elim .unknown
    parsePubSource

def LockEntry.descriptionValue (key : List Char) : List Char :=
  (lastValue? key (entry.fields.flatMap EntryField.descriptionNodes)).getD []

def LockEntry.own : PendingEntry where
  name := entry.key.key
  version := entry.version
  source := entry.source
  descriptionUrl := entry.descriptionValue descriptionUrlField
  descriptionResolvedRef := entry.descriptionValue descriptionResolvedRefField
  insideDescription := entry.fields.getLast?.any fun field =>
    field.head.key = descriptionKey ∧ field.head.opensBlock

def LockEntry.outcome (label : String) : Outcome :=
  if entry.key.key = [] then .skipped .malformed
  else entryOutcome label entry.own

end Own

def entryReasons : List SkipReason :=
  [.unresolved, .versionless, .malformed]

/-- An entry is one component of its own name, version, source and
description, a path dependency, or one count. -/
def LockEntry.IsAccountedFor (label : String) (entry : LockEntry) : Prop :=
  (entry.outcome label = .valid (some (pubComponent entry.own label)) ∧
      entry.source ≠ .path) ∨
    (entry.outcome label = .ignored ∧ entry.source = .path) ∨
    ∃ reason ∈ entryReasons, entry.outcome label = .skipped reason

theorem LockEntry.isAccountedFor (label : String) (entry : LockEntry) :
    entry.IsAccountedFor label := by
  rw [IsAccountedFor, outcome]
  have hsource : entry.own.source = entry.source := rfl
  split_ifs with hkey
  · exact .inr (.inr ⟨.malformed, by decide, rfl⟩)
  · rw [entryOutcome, hsource]
    split_ifs with hpath hunknown hmissing
    · exact .inr (.inl ⟨rfl, hpath⟩)
    · exact .inr (.inr ⟨.unresolved, by decide, rfl⟩)
    · exact .inr (.inr ⟨.versionless, by decide, rfl⟩)
    · exact .inl ⟨rfl, hpath⟩

/-! ## Reading an entry -/

theorem lastValue?_append (key : List Char) (front back : List Node) :
    lastValue? key (front ++ back) =
      (lastValue? key back).or (lastValue? key front) := by
  rw [lastValue?, List.filter_append, List.getLast?_append, lastValue?,
    lastValue?]
  cases ((back.filter (·.key = key)).getLast?) <;> rfl

theorem lastValue?_singleton (key : List Char) (node : Node) :
    lastValue? key [node] =
      if node.key = key then some node.value else none := by
  by_cases h : node.key = key <;> simp [lastValue?, h]

def PendingEntry.readLine (entry : PendingEntry) : LineResult → PendingEntry
  | .node node => entry.readNode node
  | _ => entry

def PendingEntry.readLines (entry : PendingEntry) (lines : List LineResult) :
    PendingEntry :=
  lines.foldl PendingEntry.readLine entry

/-- Outside a description only fields are read. -/
theorem readLines_inner {lines : List LineResult}
    (hlines : ∀ line ∈ lines, isInner line = true) {entry : PendingEntry}
    (hinside : entry.insideDescription = false) :
    entry.readLines lines = entry := by
  induction lines with
  | nil => rfl
  | cons line lines ih =>
    rw [List.forall_mem_cons] at hlines
    have hline : entry.readLine line = entry := by
      cases line with
      | nothing => rfl
      | unsupported => rfl
      | node node =>
        have hfield := (of_decide_eq_true hlines.1).2
        rw [PendingEntry.readLine, PendingEntry.readNode, if_neg hfield,
          if_neg (by simp [hinside])]
    rw [PendingEntry.readLines, List.foldl_cons, hline]
    exact ih hlines.2

theorem readLines_description {field : EntryField} (hfield : field.IsSpelled)
    (hdescription : field.head.key = descriptionKey ∧
      field.head.opensBlock = true) {entry : PendingEntry}
    (hinside : entry.insideDescription = true) :
    entry.readLines field.block =
      { entry with
        descriptionUrl :=
          (lastValue? descriptionUrlField field.descriptionNodes).getD
            entry.descriptionUrl
        descriptionResolvedRef :=
          (lastValue? descriptionResolvedRefField field.descriptionNodes).getD
            entry.descriptionResolvedRef } := by
  obtain ⟨head, block⟩ := field
  have hblock := hfield.block
  rw [EntryField.descriptionNodes, if_pos hdescription]
  clear hfield hdescription
  dsimp only at hblock ⊢
  induction block using List.reverseRecOn with
  | nil => rfl
  | append_singleton block line ih =>
    have hinner := hblock line (by simp)
    have hread := ih fun line hline => hblock line (by simp [hline])
    rw [PendingEntry.readLines] at hread
    rw [PendingEntry.readLines, List.foldl_append, hread,
      List.filterMap_append, List.foldl_cons, List.foldl_nil]
    cases line with
    | nothing => simp [PendingEntry.readLine]
    | unsupported => simp [PendingEntry.readLine]
    | node node =>
      have hnotField := (of_decide_eq_true hinner).2
      rw [PendingEntry.readLine, PendingEntry.readNode, if_neg hnotField]
      by_cases hindentation :
          node.indentation = descriptionFieldIndentation
      · have hnodes : [LineResult.node node].filterMap (fun line =>
            match line with
            | .node node =>
              if node.indentation = descriptionFieldIndentation then
                some node
              else none
            | _ => none) = [node] := by
          simp [hindentation]
        rw [if_pos ⟨hindentation, hinside⟩, hnodes, lastValue?_append,
          lastValue?_append, lastValue?_singleton, lastValue?_singleton]
        split_ifs with hurl href href
        · rw [hurl] at href
          exact absurd href (by decide)
        · rfl
        · rfl
        · rfl
      · rw [if_neg fun h => hindentation h.1]
        simp [hindentation]

/-- One more field of an entry. -/
theorem readLines_field {field : EntryField} (hfield : field.IsSpelled)
    (key : Node) (lead : List LineResult) (fields : List EntryField) :
    (LockEntry.own ⟨key, lead, fields⟩).readLines field.lines =
      LockEntry.own ⟨key, lead, fields ++ [field]⟩ := by
  have hheads : ∀ wanted, lastValue? wanted
      ((fields ++ [field]).map EntryField.head) =
        (if field.head.key = wanted then some field.head.value else none).or
          (lastValue? wanted (fields.map EntryField.head)) := by
    intro wanted
    rw [List.map_append, lastValue?_append, List.map_singleton,
      lastValue?_singleton]
  have hdescriptions : ∀ wanted, lastValue? wanted
      ((fields ++ [field]).flatMap EntryField.descriptionNodes) =
        (lastValue? wanted field.descriptionNodes).or
          (lastValue? wanted
            (fields.flatMap EntryField.descriptionNodes)) := by
    intro wanted
    rw [List.flatMap_append, lastValue?_append, List.flatMap_singleton]
  have hhead := hfield.head
  rw [EntryField.lines, PendingEntry.readLines, List.foldl_cons,
    PendingEntry.readLine, PendingEntry.readNode, if_pos hhead,
    ← PendingEntry.readLines]
  by_cases hdescription : field.head.key = descriptionKey
  · have hversion : descriptionKey ≠ versionKey := by decide
    have hsource : descriptionKey ≠ sourceKey := by decide
    rw [if_pos hdescription]
    by_cases hopens : field.head.opensBlock = true
    · rw [readLines_description hfield ⟨hdescription, hopens⟩ hopens]
      simp only [LockEntry.own, LockEntry.version, LockEntry.source,
        LockEntry.descriptionValue, hheads, hdescriptions, hdescription,
        hopens, hversion, hsource, if_false, Option.none_or]
      cases lastValue? descriptionUrlField field.descriptionNodes <;>
        cases lastValue? descriptionResolvedRefField field.descriptionNodes <;>
        simp [hdescription, hopens]
    · have hnodes : field.descriptionNodes = [] := if_neg fun h => hopens h.2
      rw [readLines_inner hfield.block (by simpa using hopens)]
      simp only [LockEntry.own, LockEntry.version, LockEntry.source,
        LockEntry.descriptionValue, hheads, hdescriptions, hdescription,
        hnodes, hversion, hsource, if_false, Option.none_or]
      simp [lastValue?, hopens]
  · have hnodes : field.descriptionNodes = [] :=
      if_neg fun h => hdescription h.1
    rw [if_neg hdescription]
    split_ifs with hsource hversion
    · have hversion : sourceKey ≠ versionKey := by decide
      rw [readLines_inner hfield.block rfl]
      simp only [LockEntry.own, LockEntry.version, LockEntry.source,
        LockEntry.descriptionValue, hheads, hdescriptions, hnodes, hsource,
        hversion, if_false, if_true, Option.none_or]
      simp [lastValue?, hdescription]
    · have hsource : versionKey ≠ sourceKey := by decide
      rw [readLines_inner hfield.block rfl]
      simp only [LockEntry.own, LockEntry.version, LockEntry.source,
        LockEntry.descriptionValue, hheads, hdescriptions, hnodes, hsource,
        hversion, if_false, if_true, Option.none_or]
      simp [lastValue?, hdescription]
    · rw [readLines_inner hfield.block rfl]
      simp only [LockEntry.own, LockEntry.version, LockEntry.source,
        LockEntry.descriptionValue, hheads, hdescriptions, hnodes, hsource,
        hversion, if_false, Option.none_or]
      simp [lastValue?, hdescription]

/-- An entry is read from its own fields. -/
theorem readLines_body {entry : LockEntry} (hentry : entry.IsSpelled) :
    ({ name := entry.key.key } : PendingEntry).readLines entry.body =
      entry.own := by
  obtain ⟨key, lead, fields⟩ := entry
  have hfields := hentry.fields
  have hlead : lead.foldl PendingEntry.readLine { name := key.key } =
      { name := key.key } := readLines_inner hentry.lead rfl
  rw [LockEntry.body, PendingEntry.readLines, List.foldl_append]
  dsimp only at hfields ⊢
  rw [hlead]
  clear hentry
  induction fields using List.reverseRecOn with
  | nil => rfl
  | append_singleton fields field ih =>
    rw [List.flatMap_append, List.foldl_append, List.flatMap_singleton,
      ih fun other hother => hfields other (by simp [hother]),
      ← PendingEntry.readLines]
    exact readLines_field (hfields field (by simp)) key lead fields

/-! ## Lines and what they yield -/

/-- The counts of the lines outside the readable subset. -/
def unsupportedSkips (lines : List LineResult) : List SkipReason :=
  lines.filterMap fun line =>
    if line = .unsupported then some .unsupportedLine else none

def outcomeEmission? (outcome : Outcome) : Option Emission :=
  Reading.emission? { outcome := outcome }

def outcomeSkip? (outcome : Outcome) : Option SkipReason :=
  Reading.skip? { outcome := outcome }

/-- The readings are some outcomes, and the counts of some unsupported
lines. -/
structure Yields (readings : List Reading) (outcomes : List Outcome)
    (lines : List LineResult) : Prop where
  emissions : readings.filterMap Reading.emission? =
    outcomes.filterMap outcomeEmission?
  skips : (readings.filterMap Reading.skip?).Perm
    (outcomes.filterMap outcomeSkip? ++ unsupportedSkips lines)

theorem Yields.append {front back : List Reading}
    {frontOutcomes backOutcomes : List Outcome}
    {frontLines backLines : List LineResult}
    (hfront : Yields front frontOutcomes frontLines)
    (hback : Yields back backOutcomes backLines) :
    Yields (front ++ back) (frontOutcomes ++ backOutcomes)
      (frontLines ++ backLines) where
  emissions := by
    rw [List.filterMap_append, List.filterMap_append, hfront.emissions,
      hback.emissions]
  skips := by
    rw [List.filterMap_append, List.filterMap_append, unsupportedSkips,
      List.filterMap_append]
    refine (hfront.skips.append hback.skips).trans ?_
    rw [List.append_assoc, List.append_assoc]
    apply List.Perm.append_left
    rw [← List.append_assoc, ← List.append_assoc]
    exact List.Perm.append_right _ List.perm_append_comm

section Run

variable {label : String}

theorem yields_closePendingEntry (pending : Option PendingEntry) :
    Yields (closePendingEntry label pending)
      (pending.toList.map (entryOutcome label)) [] := by
  cases pending with
  | none => exact ⟨rfl, .refl _⟩
  | some entry =>
    constructor
    · rfl
    · rw [unsupportedSkips, List.filterMap_nil, List.append_nil]
      exact .refl _

theorem yields_lockEntries_inside {lines : List LineResult}
    (hlines : ∀ line ∈ lines, isBoundary line = false)
    (pending : Option PendingEntry) :
    Yields (lockEntries label
      { pending := pending, insidePackages := true } lines)
      ((pending.map (·.readLines lines)).toList.map (entryOutcome label))
      lines := by
  induction lines generalizing pending with
  | nil =>
    cases pending with
    | none => exact yields_closePendingEntry none
    | some entry => exact yields_closePendingEntry (some entry)
  | cons line lines ih =>
    rw [List.forall_mem_cons] at hlines
    have hskips : ∀ line : LineResult, line ≠ .unsupported →
        unsupportedSkips (line :: lines) = unsupportedSkips lines :=
      fun line hline => List.filterMap_cons_none (if_neg hline)
    cases line with
    | nothing =>
      have h := ih hlines.2 pending
      exact ⟨h.emissions, by rw [hskips _ (by simp)]; exact h.skips⟩
    | unsupported =>
      have h := ih hlines.2 pending
      exact ⟨h.emissions, (h.skips.cons _).trans List.perm_middle.symm⟩
    | node node =>
      have h := ih hlines.2 (pending.map (·.readNode node))
      have hdeep : ¬node.indentation ≤ entryKeyIndentation :=
        of_decide_eq_false hlines.1
      rw [lockEntries, if_neg hdeep, if_neg (by simp)]
      rw [Option.map_map] at h
      exact ⟨h.emissions, by rw [hskips _ (by simp)]; exact h.skips⟩

/-- The packages gate behind some lines. -/
def insideBehind (insidePackages : Bool) : List LineResult → Bool
  | [] => insidePackages
  | .node node :: lines =>
    if node.indentation = packagesKeyIndentation then
      insideBehind (node.key = packagesKey) lines
    else insideBehind insidePackages lines
  | _ :: lines => insideBehind insidePackages lines

/-- A boundary closes the pending entry as the end of the text does. -/
theorem lockEntries_boundary {line : LineResult}
    (hline : isBoundary line = true) (state : LoopState)
    (lines : List LineResult) :
    lockEntries label state (line :: lines) =
      closePendingEntry label state.pending ++
        lockEntries label { insidePackages := state.insidePackages }
          (line :: lines) := by
  cases line with
  | nothing => cases hline
  | unsupported => cases hline
  | node node =>
    have hindentation : node.indentation ≤ entryKeyIndentation :=
      of_decide_eq_true hline
    rw [lockEntries, lockEntries, if_pos hindentation, if_pos hindentation]
    rfl

theorem lockEntries_append {front back : List LineResult}
    (hback : ∀ line ∈ back.head?, isBoundary line = true)
    (state : LoopState) :
    lockEntries label state (front ++ back) = lockEntries label state front ++
        lockEntries label
          { insidePackages := insideBehind state.insidePackages front }
          back := by
  induction front generalizing state with
  | nil =>
    cases back with
    | nil => simp [lockEntries, closePendingEntry]
    | cons line back =>
      rw [List.nil_append, lockEntries_boundary (hback line rfl)]
      rfl
  | cons line front ih =>
    cases line with
    | nothing => exact ih state
    | unsupported => exact congrArg _ (ih state)
    | node node =>
      have hdocument : node.indentation = packagesKeyIndentation →
          node.indentation ≤ entryKeyIndentation := by
        intro h
        rw [h]
        decide
      rw [List.cons_append, lockEntries, lockEntries, insideBehind]
      split_ifs with hentry hpackages hskip hempty hinside
      · rw [ih, List.append_assoc]
      · rw [ih, List.append_assoc]
      · rw [ih, List.append_assoc, List.cons_append]
      · rw [ih, List.append_assoc]
      · exact absurd (hdocument ‹_›) hentry
      · exact ih _
      · exact absurd (hdocument ‹_›) hentry
      · exact ih _

theorem insideBehind_of_forall {lines : List LineResult}
    (hlines : ∀ line ∈ lines, isDocumentKey line = false)
    (insidePackages : Bool) :
    insideBehind insidePackages lines = insidePackages := by
  induction lines with
  | nil => rfl
  | cons line lines ih =>
    rw [List.forall_mem_cons] at hlines
    cases line with
    | nothing => exact ih hlines.2
    | unsupported => exact ih hlines.2
    | node node =>
      have hdeep : ¬node.indentation = packagesKeyIndentation :=
        of_decide_eq_false hlines.1
      rw [insideBehind, if_neg hdeep]
      exact ih hlines.2

theorem isDocumentKey_of_not_isBoundary {line : LineResult}
    (h : isBoundary line = false) : isDocumentKey line = false := by
  cases line with
  | nothing => rfl
  | unsupported => rfl
  | node node =>
    have hdeep : ¬node.indentation ≤ entryKeyIndentation :=
      of_decide_eq_false h
    exact decide_eq_false fun heq => hdeep (heq.le.trans (Nat.zero_le _))

theorem not_isBoundary_of_isInner {line : LineResult}
    (h : isInner line = true) : isBoundary line = false := by
  cases line with
  | nothing => rfl
  | unsupported => rfl
  | node node =>
    exact decide_eq_false (of_decide_eq_true h).1.not_ge

theorem LockEntry.IsSpelled.not_isBoundary {entry : LockEntry}
    (hentry : entry.IsSpelled) :
    ∀ line ∈ entry.body, isBoundary line = false := by
  intro line hline
  rcases List.mem_append.mp hline with hline | hline
  · exact not_isBoundary_of_isInner (hentry.lead line hline)
  · obtain ⟨field, hfield, hline⟩ := List.mem_flatMap.mp hline
    have hspelled := hentry.fields field hfield
    rcases List.mem_cons.mp hline with rfl | hline
    · rw [isBoundary, hspelled.head]
      decide
    · exact not_isBoundary_of_isInner (hspelled.block line hline)

theorem yields_entry {entry : LockEntry} (hentry : entry.IsSpelled) :
    Yields (lockEntries label { insidePackages := true } entry.lines)
      [entry.outcome label] entry.lines := by
  have hbody := hentry.not_isBoundary
  rw [LockEntry.lines, lockEntries, if_pos hentry.key.le,
    if_neg (by rw [hentry.key]; decide), if_neg (by simp [hentry.key]),
    LockEntry.outcome]
  split_ifs with hkey
  · have h := @yields_lockEntries_inside label _ hbody none
    exact ⟨h.emissions, h.skips.cons _⟩
  · have h := @yields_lockEntries_inside label _ hbody
      (some { name := entry.key.key })
    rw [Option.map_some, readLines_body hentry] at h
    exact ⟨h.emissions, h.skips⟩

theorem head?_flatMap_lines {entries : List LockEntry}
    (hentries : ∀ entry ∈ entries, entry.IsSpelled) :
    ∀ line ∈ (entries.flatMap LockEntry.lines).head?,
      isBoundary line = true := by
  cases entries with
  | nil => simp
  | cons entry entries =>
    rintro line ⟨⟩
    exact decide_eq_true (hentries entry (by simp)).key.le

theorem yields_entries {entries : List LockEntry}
    (hentries : ∀ entry ∈ entries, entry.IsSpelled) :
    Yields (lockEntries label { insidePackages := true }
      (entries.flatMap LockEntry.lines))
      (entries.map (·.outcome label)) (entries.flatMap LockEntry.lines) := by
  induction entries with
  | nil => exact yields_closePendingEntry none
  | cons entry entries ih =>
    rw [List.forall_mem_cons] at hentries
    obtain ⟨hentry, hentries⟩ := hentries
    have hinside : insideBehind true entry.lines = true := by
      apply insideBehind_of_forall
      rw [LockEntry.lines, List.forall_mem_cons]
      constructor
      · rw [isDocumentKey, hentry.key]
        decide
      · intro line hline
        exact isDocumentKey_of_not_isBoundary
          (hentry.not_isBoundary line hline)
    rw [List.flatMap_cons, List.map_cons,
      lockEntries_append (head?_flatMap_lines hentries), hinside]
    exact (yields_entry hentry).append (ih hentries)

theorem not_throws_closePendingEntry (pending : Option PendingEntry) :
    ∀ reading ∈ closePendingEntry label pending, ¬reading.Throws := by
  cases pending with
  | none => simp [closePendingEntry]
  | some entry =>
    intro reading hreading
    rw [List.mem_singleton.mp hreading]
    dsimp only [Reading.Throws, entryOutcome]
    split_ifs <;> simp

theorem not_throws_lockEntries (state : LoopState) (lines : List LineResult) :
    ∀ reading ∈ lockEntries label state lines, ¬reading.Throws := by
  induction lines generalizing state with
  | nil => exact not_throws_closePendingEntry state.pending
  | cons line lines ih =>
    cases line with
    | nothing => exact ih state
    | unsupported =>
      rw [lockEntries, List.forall_mem_cons]
      exact ⟨by simp [Reading.Throws], ih state⟩
    | node node =>
      rw [lockEntries]
      split_ifs
      · rw [List.forall_mem_append]
        exact ⟨not_throws_closePendingEntry state.pending, ih _⟩
      · rw [List.forall_mem_append]
        exact ⟨not_throws_closePendingEntry state.pending, ih _⟩
      · rw [List.forall_mem_append, List.forall_mem_cons]
        exact ⟨not_throws_closePendingEntry state.pending,
          by simp [Reading.Throws], ih _⟩
      · rw [List.forall_mem_append]
        exact ⟨not_throws_closePendingEntry state.pending, ih _⟩
      · exact ih state
      · exact ih _

end Run

/-! ## The packages section -/

/-- A packages section of a file: its key, the lines ahead of its first entry,
and its entries up to the next document-level key. -/
structure PackagesSection (lines : List LineResult) where
  before : List LineResult
  head : Node
  lead : List LineResult
  entries : List LockEntry
  after : List LineResult
  lines_eq : lines = before ++ (.node head :: (lead ++
    entries.flatMap LockEntry.lines) ++ after)
  indentation : head.indentation = packagesKeyIndentation
  isPackages : head.key = packagesKey
  isLead : ∀ line ∈ lead, isBoundary line = false
  isSpelled : ∀ entry ∈ entries, entry.IsSpelled
  isEnd : ∀ line ∈ after.head?, isDocumentKey line = true

section Files

variable {label : String}

theorem isBoundary_of_isDocumentKey {line : LineResult}
    (h : isDocumentKey line = true) : isBoundary line = true := by
  cases line with
  | nothing => cases h
  | unsupported => cases h
  | node node =>
    have hindentation := of_decide_eq_true h
    exact decide_eq_true (hindentation.le.trans (Nat.zero_le _))

/-- At a document-level key the gate does not matter. -/
theorem lockEntries_document {lines : List LineResult}
    (hlines : ∀ line ∈ lines.head?, isDocumentKey line = true)
    (insidePackages : Bool) :
    lockEntries label { insidePackages := insidePackages } lines =
      lockEntries label {} lines := by
  cases lines with
  | nil => rfl
  | cons line lines =>
    cases line with
    | nothing => cases hlines _ rfl
    | unsupported => cases hlines _ rfl
    | node node =>
      have hindentation := of_decide_eq_true (hlines _ rfl)
      have hentry : node.indentation ≤ entryKeyIndentation :=
        hindentation.le.trans (Nat.zero_le _)
      rw [lockEntries, lockEntries, if_pos hentry, if_pos hentry,
        if_pos hindentation, if_pos hindentation]

/-- The lines of a packages section yield one outcome for each entry. -/
theorem yields_section {lines : List LineResult}
    (packages : PackagesSection lines) :
    Yields (lockEntries label {} (.node packages.head ::
      (packages.lead ++ packages.entries.flatMap LockEntry.lines)))
      (packages.entries.map (·.outcome label))
      (packages.lead ++ packages.entries.flatMap LockEntry.lines) := by
  have hentry : packages.head.indentation ≤ entryKeyIndentation := by
    rw [packages.indentation]
    decide
  have hinside : insideBehind true packages.lead = true :=
    insideBehind_of_forall (fun line hline =>
      isDocumentKey_of_not_isBoundary (packages.isLead line hline)) true
  have hlead := @yields_lockEntries_inside label _ packages.isLead none
  have hentries := @yields_entries label _ packages.isSpelled
  rw [lockEntries, if_pos hentry, if_pos packages.indentation,
    packages.isPackages, decide_eq_true rfl,
    lockEntries_append (head?_flatMap_lines packages.isSpelled), hinside]
  exact hlead.append hentries

/-- Before and behind a packages section the lines are read on their own. -/
theorem lockEntries_section {lines : List LineResult}
    (packages : PackagesSection lines) :
    lockEntries label {} lines = lockEntries label {} packages.before ++
        (lockEntries label {} (.node packages.head ::
          (packages.lead ++ packages.entries.flatMap LockEntry.lines)) ++
          lockEntries label {} packages.after) := by
  have hhead : ∀ line ∈ (LineResult.node packages.head :: (packages.lead ++
      packages.entries.flatMap LockEntry.lines) ++ packages.after).head?,
      isDocumentKey line = true := by
    rintro line ⟨⟩
    exact decide_eq_true packages.indentation
  have hafter : ∀ line ∈ packages.after.head?, isBoundary line = true :=
    fun line hline => isBoundary_of_isDocumentKey (packages.isEnd line hline)
  calc
    lockEntries label {} lines = lockEntries label {} (packages.before ++
          (.node packages.head :: (packages.lead ++
            packages.entries.flatMap LockEntry.lines) ++ packages.after)) :=
      congrArg (lockEntries label {}) packages.lines_eq
    _ = _ := by
      rw [lockEntries_append fun line hline =>
          isBoundary_of_isDocumentKey (hhead line hline),
        lockEntries_document hhead, lockEntries_append hafter,
        lockEntries_document packages.isEnd]

variable {bytes : List UInt8}

/-- Within the budget the section adds one component for each entry that is
one, and one count for each entry that is counted, between what the lines
before and behind it add. -/
structure ReportsEntries (label : String) (bytes : List UInt8)
    (packages : PackagesSection (lineResults (byteText bytes))) : Prop where
  accounted : ∀ entry ∈ packages.entries, entry.IsAccountedFor label
  adds : ∀ (limit : Nat) (state : ParseState),
    let before := lockEntries label {} packages.before
    let after := lockEntries label {} packages.after
    let outcomes := packages.entries.map (·.outcome label)
    let inside := packages.lead ++ packages.entries.flatMap LockEntry.lines
    (before.filterMap Reading.emission?).length +
        (outcomes.filterMap outcomeEmission?).length +
        (after.filterMap Reading.emission?).length ≤ state.packageBudget →
      ∃ behind earlier, parsePubspecLock limit label bytes state = some behind ∧
          behind.emitted = state.emitted ++
            (before.filterMap Reading.emission? ++
              (outcomes.filterMap outcomeEmission? ++
                after.filterMap Reading.emission?)) ∧
          behind.warnings = earlier ++ summaryOf label
            (before.filterMap Reading.skip? ++
              ((outcomes.filterMap outcomeSkip? ++ unsupportedSkips inside) ++
                after.filterMap Reading.skip?))

theorem summaryOf_perm {left right : List SkipReason} (h : left.Perm right) :
    summaryOf label left = summaryOf label right := by
  simp only [summaryOf, skipWarning, h.count_eq]

theorem reportsEntries (label : String) (bytes : List UInt8)
    (packages : PackagesSection (lineResults (byteText bytes))) :
    ReportsEntries label bytes packages := by
  constructor
  · intro entry _
    exact entry.isAccountedFor label
  · intro limit state before after outcomes inside hroom
    have hyields := @yields_section label _ packages
    have hentries : (lockManifest label (byteText bytes)).entries =
        before ++ (lockEntries label {} (.node packages.head ::
          (packages.lead ++ packages.entries.flatMap LockEntry.lines)) ++
            after) :=
      lockEntries_section packages
    have hemissions :
        (lockManifest label (byteText bytes)).entries.filterMap
          Reading.emission? =
            before.filterMap Reading.emission? ++
              (outcomes.filterMap outcomeEmission? ++
                after.filterMap Reading.emission?) := by
      rw [hentries, List.filterMap_append, List.filterMap_append,
        hyields.emissions]
    have hskips : ((lockManifest label (byteText bytes)).entries.filterMap
        Reading.skip?).Perm
          (before.filterMap Reading.skip? ++
            ((outcomes.filterMap outcomeSkip? ++ unsupportedSkips inside) ++
              after.filterMap Reading.skip?)) := by
      rw [hentries, List.filterMap_append, List.filterMap_append]
      exact (hyields.skips.append_right _).append_left _
    obtain ⟨behind, earlier, hparse, hemitted, hwarnings⟩ :=
      @parseManifest_of_room "pub" limit (lockManifest label (byteText bytes))
        rfl (not_throws_lockEntries {} _) state (by
          rw [hemissions, List.length_append, List.length_append]
          omega)
    refine ⟨behind, earlier, hparse, by rw [hemitted, hemissions], ?_⟩
    rw [hwarnings]
    exact congrArg (earlier ++ ·) (summaryOf_perm hskips)

end Files

def gitAndPath : List UInt8 :=
  ("packages:\n  a:\n    description:\n      url: u\n" ++
    "      resolved-ref: r\n    source: git\n    version: \"1.0\"\n" ++
    "  b:\n    version: \"2.0\"\n    source: path\nsdks:\n  dart: x").toList.map
      Char.toUInt8

def gitEntry : LockEntry where
  key := nodeOf 2 "a".toList []
  lead := []
  fields :=
    [⟨nodeOf 4 descriptionKey [],
        [.node (nodeOf 6 descriptionUrlField "u".toList),
          .node (nodeOf 6 descriptionResolvedRefField "r".toList)]⟩,
      ⟨nodeOf 4 sourceKey "git".toList, []⟩,
      ⟨nodeOf 4 versionKey "\"1.0\"".toList, []⟩]

def pathEntry : LockEntry where
  key := nodeOf 2 "b".toList []
  lead := []
  fields :=
    [⟨nodeOf 4 versionKey "\"2.0\"".toList, []⟩,
      ⟨nodeOf 4 sourceKey "path".toList, []⟩]

theorem isSpelled_fields {fields : List EntryField}
    (h : fields.all (fun field =>
      decide (field.head.indentation = entryFieldIndentation) &&
        field.block.all isInner) = true) :
    ∀ field ∈ fields, field.IsSpelled := by
  intro field hfield
  have hspelled := List.all_eq_true.mp h field hfield
  rw [Bool.and_eq_true, decide_eq_true_eq, List.all_eq_true] at hspelled
  exact ⟨hspelled.1, hspelled.2⟩

theorem isSpelled_gitEntry : gitEntry.IsSpelled where
  key := rfl
  lead := by simp [gitEntry]
  fields := isSpelled_fields (by decide)

theorem isSpelled_pathEntry : pathEntry.IsSpelled where
  key := rfl
  lead := by simp [pathEntry]
  fields := isSpelled_fields (by decide)

def gitAndPathSection :
    PackagesSection (lineResults (byteText gitAndPath)) where
  before := []
  head := nodeOf 0 packagesKey []
  lead := []
  entries := [gitEntry, pathEntry]
  after := [.node (nodeOf 0 "sdks".toList []),
    .node (nodeOf 2 "dart".toList "x".toList)]
  lines_eq := by decide +kernel
  indentation := rfl
  isPackages := rfl
  isLead := by simp
  isSpelled := by
    rw [List.forall_mem_cons, List.forall_mem_singleton]
    exact ⟨isSpelled_gitEntry, isSpelled_pathEntry⟩
  isEnd := by
    rintro line ⟨⟩
    rfl

theorem reportsEntries_gitAndPath :
    ReportsEntries "pubspec.lock" gitAndPath gitAndPathSection :=
  reportsEntries "pubspec.lock" gitAndPath gitAndPathSection

end Bomwerk.Lockfiles.Pub
