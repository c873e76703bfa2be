import Bomwerk.Lockfiles.Pnpm
import Bomwerk.Lockfiles.YarnAccounts

/-!
# Accounts of the entries of a pnpm-lock.yaml

The loop closes a pending entry at every boundary, so each entry of the
packages section that it sees is accounted for once.  It sees none before the
lockfile version is known: an entry ahead of that line vanishes.
-/

namespace Bomwerk.Lockfiles.Pnpm

open Bomwerk.Core Bomwerk.Core.YamlSubset

def isDocumentKey : LineResult → Bool
  | .node node => node.indentation = documentIndentation
  | _ => false

/-- A node that closes the pending entry. -/
def isBoundary : LineResult → Bool
  | .node node => node.indentation ≤ entryKeyIndentation
  | _ => false

def isVersionLine : LineResult → Bool
  | .node node =>
    node.indentation = documentIndentation ∧ node.key = lockfileVersionKey
  | _ => false

/-- No version line, or one of a version that the parser reads. -/
def isSupportedLine : LineResult → Bool
  | .node node =>
    !isVersionLine (.node node) || isSupportedLockfileVersion node.value
  | _ => true

/-- The gates of the loop behind some lines, with no entry pending. -/
def gatesBehind (insidePackages versionSupported : Bool) :
    List LineResult → LoopState
  | [] =>
    { insidePackages := insidePackages, versionSupported := versionSupported }
  | .node node :: lines =>
    if node.indentation = documentIndentation then
      gatesBehind (node.key = packagesKey)
        (versionSupported || node.key = lockfileVersionKey) lines
    else gatesBehind insidePackages versionSupported lines
  | _ :: lines => gatesBehind insidePackages versionSupported lines

theorem closePendingEntry_none : closePendingEntry none = [] := rfl

/-- A boundary closes the pending entry as the end of the text does. -/
theorem lockEntries_boundary {line : LineResult}
    (hline : isBoundary line = true) (label : String) (state : LoopState)
    (lines : List LineResult) :
    (lockEntries label state (line :: lines)).readings =
      closePendingEntry state.pending ++
        (lockEntries label { state with pending := none }
          (line :: lines)).readings := by
  cases line with
  | nothing => cases hline
  | unsupported => cases hline
  | node node =>
    have hindentation : node.indentation ≤ entryKeyIndentation :=
      of_decide_eq_true hline
    rw [lockEntries, lockEntries]
    dsimp only
    split_ifs
    · simp [LockEntries.prepend, closePendingEntry_none]
    · simp [closePendingEntry_none]
    · simp [LockEntries.prepend, closePendingEntry_none]
    · simp [LockEntries.prepend, closePendingEntry_none]
    · split <;> simp [LockEntries.prepend, closePendingEntry_none]

/-- A run over lines of supported versions goes on from their gates at a
boundary, and is not abandoned. -/
theorem lockEntries_append {before after : List LineResult}
    (hsupported : ∀ line ∈ before, isSupportedLine line = true)
    (hafter : ∀ line ∈ after.head?, isBoundary line = true) (label : String)
    (state : LoopState) :
    (lockEntries label state (before ++ after)).readings =
        (lockEntries label state before).readings ++ (lockEntries label
            (gatesBehind state.insidePackages state.versionSupported before)
            after).readings := by
  induction before generalizing state with
  | nil =>
    cases after with
    | nil => simp [lockEntries, gatesBehind, closePendingEntry_none]
    | cons line after =>
      rw [List.nil_append, lockEntries_boundary (hafter line rfl)]
      rfl
  | cons line before ih =>
    rw [List.forall_mem_cons] at hsupported
    obtain ⟨hline, hlines⟩ := hsupported
    cases line with
    | nothing => exact ih hlines state
    | unsupported =>
      have hmore := ih hlines state
      simp only [List.cons_append, lockEntries, LockEntries.prepend, hmore,
        gatesBehind]
      rfl
    | node node =>
      rw [List.cons_append, lockEntries, lockEntries, gatesBehind]
      dsimp only
      split_ifs with hdocument hversion hvalue hentry hskip hfield
      · simp [LockEntries.prepend, ih hlines, hversion]
      · have hvalue' := hline
        simp [isSupportedLine, isVersionLine, hdocument, hversion, hvalue]
          at hvalue'
      · simp [LockEntries.prepend, ih hlines, hversion]
      · simp [LockEntries.prepend, ih hlines]
      · split <;> simp [LockEntries.prepend, ih hlines]
      · exact ih hlines state
      · split
        · exact ih hlines state
        · simp [LockEntries.prepend, ih hlines]

/-! ## Fields -/

/-- The reasons that `warn_skip_counts` counts entries under. -/
def entryReasons : List SkipReason :=
  [.unsupportedResolution, .missingResolution, .malformed]

/-- The counts of entries among those of a run. -/
def entrySkips (readings : List Reading) : List SkipReason :=
  (readings.filterMap Reading.skip?).filter (entryReasons.contains ·)

/-- The readings are one component, or one count of an entry. -/
def IsAccountedFor (readings : List Reading) : Prop :=
  ((readings.filterMap Reading.emission?).length = 1 ∧
      entrySkips readings = []) ∨
    (readings.filterMap Reading.emission? = [] ∧
      ∃ reason ∈ entryReasons, entrySkips readings = [reason])

/-- The readings are neither. -/
def IsSilent (readings : List Reading) : Prop :=
  readings.filterMap Reading.emission? = [] ∧ entrySkips readings = []

theorem entrySkips_append (front back : List Reading) :
    entrySkips (front ++ back) = entrySkips front ++ entrySkips back := by
  rw [entrySkips, List.filterMap_append, List.filter_append]
  rfl

theorem isAccountedFor_append_iff {front back : List Reading}
    (hback : IsSilent back) :
    IsAccountedFor (front ++ back) ↔ IsAccountedFor front := by
  rw [IsAccountedFor, IsAccountedFor, entrySkips_append,
    List.filterMap_append, hback.1, hback.2, List.append_nil, List.append_nil]

theorem isSilent_nil : IsSilent [] := ⟨rfl, rfl⟩

/-- Outside the packages section, or before the version is known, nothing is
read. -/
theorem isSilent_lockEntries_closed {lines : List LineResult}
    (hlines : ∀ line ∈ lines, isDocumentKey line = false) (label : String)
    {state : LoopState} (hpending : state.pending = none)
    (hclosed : state.insidePackages = false ∨ state.versionSupported = false) :
    IsSilent (lockEntries label state lines).readings := by
  obtain ⟨pending, insidePackages, versionSupported⟩ := state
  obtain rfl : pending = none := hpending
  have hgate : !insidePackages ∨ !versionSupported := by
    simpa using hclosed
  induction lines with
  | nil => exact isSilent_nil
  | cons line lines ih =>
    rw [List.forall_mem_cons] at hlines
    have hsilent := ih hlines.2
    cases line with
    | nothing => exact hsilent
    | unsupported => exact hsilent
    | node node =>
      have hdocument : ¬node.indentation = documentIndentation :=
        of_decide_eq_false hlines.1
      rw [lockEntries]
      dsimp only
      rw [if_neg hdocument]
      split_ifs with hentry hskip hfield
      · exact hsilent
      · exact absurd (hgate.imp_right .inl) hskip
      · exact hsilent
      · exact absurd (hgate.imp_right .inl) hfield

theorem isSilent_lockEntries_fields {fields : List LineResult}
    (hfields : ∀ line ∈ fields, isBoundary line = false) (label : String)
    {state : LoopState} (hpending : state.pending = none) :
    IsSilent (lockEntries label state fields).readings := by
  induction fields with
  | nil =>
    rw [lockEntries, hpending]
    exact isSilent_nil
  | cons line fields ih =>
    rw [List.forall_mem_cons] at hfields
    have hsilent := ih hfields.2
    cases line with
    | nothing => exact hsilent
    | unsupported => exact hsilent
    | node node =>
      have hentry : ¬node.indentation ≤ entryKeyIndentation :=
        of_decide_eq_false hfields.1
      have hdocument : ¬node.indentation = documentIndentation :=
        fun h => hentry (h.le.trans (Nat.zero_le _))
      rw [lockEntries]
      dsimp only
      rw [if_neg hdocument, if_neg hentry]
      split
      · exact hsilent
      · rw [hpending]
        exact hsilent

theorem resolutionOutcome_cases (label : String) (node : Node)
    (pending : List Char × List Char) :
    resolutionOutcome label node pending = .skipped .unsupportedResolution ∨
      ∃ component,
        resolutionOutcome label node pending = .valid (some component) := by
  by_cases hintegrity :
      (if node.isFlowMapping then flowMappingField node.value integrityField
        else []) = []
  · exact .inl (if_pos hintegrity)
  · exact .inr ⟨_, if_neg hintegrity⟩

theorem isAccountedFor_lockEntries_fields {fields : List LineResult}
    (hfields : ∀ line ∈ fields, isBoundary line = false) (label : String)
    (pending : List Char × List Char) :
    IsAccountedFor (lockEntries label
      { pending := some pending, insidePackages := true,
        versionSupported := true } fields).readings := by
  induction fields with
  | nil => exact .inr ⟨rfl, .missingResolution, by decide, rfl⟩
  | cons line fields ih =>
    rw [List.forall_mem_cons] at hfields
    have haccounted := ih hfields.2
    cases line with
    | nothing => exact haccounted
    | unsupported => exact haccounted
    | node node =>
      have hentry : ¬node.indentation ≤ entryKeyIndentation :=
        of_decide_eq_false hfields.1
      have hdocument : ¬node.indentation = documentIndentation :=
        fun h => hentry (h.le.trans (Nat.zero_le _))
      rw [lockEntries]
      dsimp only
      rw [if_neg hdocument, if_neg hentry]
      split
      · exact haccounted
      · -- The resolution ends the entry.
        have hsilent := @isSilent_lockEntries_fields fields hfields.2 label
          { insidePackages := true, versionSupported := true } rfl
        rw [LockEntries.prepend, isAccountedFor_append_iff hsilent]
        rcases resolutionOutcome_cases label node pending with
          h | ⟨component, h⟩
        · rw [h]
          exact .inr ⟨rfl, .unsupportedResolution, by decide, rfl⟩
        · rw [h]
          exact .inl ⟨rfl, rfl⟩

/-- An entry key with its fields, behind the version. -/
theorem isAccountedFor_lockEntries_entry {key : Node}
    (hkey : key.indentation = entryKeyIndentation) {fields : List LineResult}
    (hfields : ∀ line ∈ fields, isBoundary line = false) (label : String) :
    IsAccountedFor (lockEntries label
      { insidePackages := true, versionSupported := true }
      (.node key :: fields)).readings := by
  have hdocument : ¬key.indentation = documentIndentation := by
    rw [hkey]
    decide
  rw [lockEntries]
  dsimp only
  rw [if_neg hdocument, if_pos hkey.le]
  simp only [hkey, Bool.not_true, Bool.false_eq_true, ne_eq, not_true_eq_false,
    or_self, if_false, closePendingEntry_none, List.nil_append]
  split
  · have hsilent := @isSilent_lockEntries_fields fields hfields label
      { insidePackages := true, versionSupported := true } rfl
    rw [LockEntries.prepend, isAccountedFor_append_iff hsilent]
    exact .inr ⟨rfl, .malformed, by decide, rfl⟩
  · exact isAccountedFor_lockEntries_fields hfields label _

/-! ## Entries and sections of a file -/

/-- Some lines between a boundary and the next. -/
structure Segment (lines : List LineResult) where
  before : List LineResult
  head : Node
  body : List LineResult
  after : List LineResult
  lines_eq : lines = before ++ (.node head :: body ++ after)
  isBoundary_head : head.indentation ≤ entryKeyIndentation
  isEnd : ∀ line ∈ after.head?, isBoundary line = true

/-- The document-level key that the lines end under. -/
def sectionBehind : Option (List Char) → List LineResult → Option (List Char)
  | key?, [] => key?
  | key?, .node node :: lines =>
    sectionBehind
      (if node.indentation = documentIndentation then some node.key else key?)
      lines
  | key?, _ :: lines => sectionBehind key? lines

structure PackagesEntry (lines : List LineResult) extends Segment lines where
  inPackages : sectionBehind none before = some packagesKey
  indentation : head.indentation = entryKeyIndentation
  isField : ∀ line ∈ body, isBoundary line = false

structure OtherSection (lines : List LineResult) extends Segment lines where
  indentation : head.indentation = documentIndentation
  notPackages : head.key ≠ packagesKey
  isInside : ∀ line ∈ body, isDocumentKey line = false

/-- A text with a lockfile version, all of them supported. -/
structure IsOfSupportedVersion (lines : List LineResult) : Prop where
  versioned : ∃ line ∈ lines, isVersionLine line = true
  supported : ∀ line ∈ lines, isSupportedLine line = true

namespace Segment

variable {lines : List LineResult} (segment : Segment lines) (label : String)

/-- What the loop makes of the lines before. -/
def beforeReadings : List Reading :=
  (lockEntries label {} segment.before).readings

/-- What the loop makes of the lines themselves. -/
def ownReadings : List Reading :=
  (lockEntries label (gatesBehind false false segment.before)
    (.node segment.head :: segment.body)).readings

/-- What the loop makes of the lines behind. -/
def afterReadings : List Reading :=
  (lockEntries label
    (gatesBehind false false
      (segment.before ++ .node segment.head :: segment.body))
    segment.after).readings

end Segment

theorem gatesBehind_append (insidePackages versionSupported : Bool)
    (front back : List LineResult) :
    gatesBehind insidePackages versionSupported (front ++ back) = gatesBehind
        (gatesBehind insidePackages versionSupported front).insidePackages
        (gatesBehind insidePackages versionSupported front).versionSupported
        back := by
  induction front generalizing insidePackages versionSupported with
  | nil => rfl
  | cons line front ih =>
    cases line with
    | nothing => exact ih _ _
    | unsupported => exact ih _ _
    | node node =>
      rw [List.cons_append, gatesBehind, gatesBehind]
      split_ifs
      · exact ih _ _
      · exact ih _ _

/-- The gate of the packages section is the key that the lines end under. -/
theorem insidePackages_gatesBehind {insidePackages : Bool}
    {key? : Option (List Char)}
    (hkey : insidePackages = true ↔ key? = some packagesKey)
    (versionSupported : Bool) (lines : List LineResult) :
    (gatesBehind insidePackages versionSupported lines).insidePackages =
        true ↔ sectionBehind key? lines = some packagesKey := by
  induction lines generalizing insidePackages key? versionSupported with
  | nil => exact hkey
  | cons line lines ih =>
    cases line with
    | nothing => exact ih hkey versionSupported
    | unsupported => exact ih hkey versionSupported
    | node node =>
      rw [gatesBehind, sectionBehind]
      split_ifs
      · exact ih (by simp) _
      · exact ih hkey versionSupported

theorem versionSupported_gatesBehind (insidePackages versionSupported : Bool)
    (lines : List LineResult) :
    (gatesBehind insidePackages versionSupported lines).versionSupported =
        true ↔
      versionSupported = true ∨ ∃ line ∈ lines, isVersionLine line = true := by
  induction lines generalizing insidePackages versionSupported with
  | nil => simp [gatesBehind]
  | cons line lines ih =>
    cases line with
    | nothing =>
      rw [gatesBehind, ih]
      · simp [isVersionLine]
      · simp
    | unsupported =>
      rw [gatesBehind, ih]
      · simp [isVersionLine]
      · simp
    | node node =>
      rw [gatesBehind]
      split_ifs with hdocument
      · rw [ih]
        simp [isVersionLine, hdocument, or_assoc]
      · rw [ih]
        simp [isVersionLine, hdocument]

theorem not_throws_closePendingEntry (pending : Option (List Char × List Char)) :
    ∀ reading ∈ closePendingEntry pending, ¬reading.Throws := by
  rw [closePendingEntry]
  split_ifs <;> simp [Reading.Throws]

theorem not_throws_resolutionOutcome (label : String) (node : Node)
    (pending : List Char × List Char) :
    ¬(Reading.Throws
      { outcome := resolutionOutcome label node pending }) := by
  rcases resolutionOutcome_cases label node pending with h | ⟨component, h⟩ <;>
    simp [Reading.Throws, h]

theorem not_throws_lockEntries (label : String) (state : LoopState)
    (lines : List LineResult) :
    ∀ reading ∈ (lockEntries label state lines).readings, ¬reading.Throws := by
  induction lines generalizing state with
  | nil => exact not_throws_closePendingEntry state.pending
  | cons line lines ih =>
    -- Every branch puts harmless readings in front of the rest of the run.
    have hprepend : ∀ {readings : List Reading},
        (∀ reading ∈ readings, ¬reading.Throws) → ∀ state : LoopState,
          ∀ reading ∈
            ((lockEntries label state lines).prepend readings).readings,
            ¬reading.Throws := by
      intro readings hreadings state
      rw [LockEntries.prepend, List.forall_mem_append]
      exact ⟨hreadings, ih state⟩
    have hclose := not_throws_closePendingEntry state.pending
    cases line with
    | nothing => exact ih state
    | unsupported =>
      exact hprepend (by simp [Reading.Throws]) state
    | node node =>
      rw [lockEntries]
      dsimp only
      split_ifs
      · exact hprepend hclose _
      · rw [List.forall_mem_append]
        exact ⟨hclose, by simp [Reading.Throws, unsupportedVersion]⟩
      · exact hprepend hclose _
      · exact hprepend hclose _
      · split
        · apply hprepend
          rw [List.forall_mem_append]
          exact ⟨hclose, by simp [Reading.Throws]⟩
        · exact hprepend hclose _
      · exact ih state
      · split
        · exact ih state
        · apply hprepend
          rw [List.forall_mem_singleton]
          exact not_throws_resolutionOutcome label node _

/-- A text of supported versions is not abandoned. -/
theorem abandoned_lockEntries {lines : List LineResult}
    (hsupported : ∀ line ∈ lines, isSupportedLine line = true) (label : String)
    (state : LoopState) : (lockEntries label state lines).abandoned = false := by
  induction lines generalizing state with
  | nil => rfl
  | cons line lines ih =>
    rw [List.forall_mem_cons] at hsupported
    obtain ⟨hline, hlines⟩ := hsupported
    cases line with
    | nothing => exact ih hlines state
    | unsupported => exact ih hlines state
    | node node =>
      rw [lockEntries]
      dsimp only
      split_ifs with hdocument hversion hvalue
      · exact ih hlines _
      · have hvalue' := hline
        simp [isSupportedLine, isVersionLine, hdocument, hversion, hvalue]
          at hvalue'
      · exact ih hlines _
      · exact ih hlines _
      · split
        · exact ih hlines _
        · exact ih hlines _
      · exact ih hlines _
      · split
        · exact ih hlines _
        · exact ih hlines _

theorem pending_gatesBehind (insidePackages versionSupported : Bool)
    (lines : List LineResult) :
    (gatesBehind insidePackages versionSupported lines).pending = none := by
  induction lines generalizing insidePackages versionSupported with
  | nil => rfl
  | cons line lines ih =>
    cases line with
    | nothing => exact ih _ _
    | unsupported => exact ih _ _
    | node node =>
      rw [gatesBehind]
      split_ifs
      · exact ih _ _
      · exact ih _ _

theorem IsSilent.not_isAccountedFor {readings : List Reading}
    (h : IsSilent readings) : ¬IsAccountedFor readings := by
  rw [IsAccountedFor, h.1, h.2]
  simp

section Files

variable {path : FsPath} {bytes : List UInt8}

/-- Within the budget the lines add what they do alone, between what the lines
before and behind them add to the components and to the counts. -/
def AddsOnly (path : FsPath) (bytes : List UInt8)
    (segment : Segment (lineResults (byteText bytes))) : Prop :=
  let manifest := producer.manifest path bytes
  let label := path.genericString
  ∀ (limit : Nat) (state : ParseState),
    manifest.entries.length ≤ state.packageBudget →
    ∃ behind earlier,
      parseManifest producer.ecosystem limit manifest state = some behind ∧
        behind.emitted = state.emitted ++
          ((segment.beforeReadings label).filterMap Reading.emission? ++
            (segment.ownReadings label).filterMap Reading.emission? ++
            (segment.afterReadings label).filterMap Reading.emission?) ∧
        behind.warnings = earlier ++
          summaryOf label (lineResults (byteText bytes))
            ((segment.beforeReadings label).filterMap Reading.skip? ++
              (segment.ownReadings label).filterMap Reading.skip? ++
              (segment.afterReadings label).filterMap Reading.skip?)

/-- Every entry of the packages section is accounted for once, and no other
section yields a component. -/
def ReportsPackages (path : FsPath) (bytes : List UInt8) : Prop :=
  (∀ entry : PackagesEntry (lineResults (byteText bytes)),
    AddsOnly path bytes entry.toSegment ∧
      IsAccountedFor (entry.ownReadings path.genericString)) ∧
  ∀ other : OtherSection (lineResults (byteText bytes)),
    AddsOnly path bytes other.toSegment ∧
      (other.ownReadings path.genericString).filterMap Reading.emission? = []

theorem Segment.readings_eq {lines : List LineResult}
    (hsupported : ∀ line ∈ lines, isSupportedLine line = true)
    (segment : Segment lines) (label : String) :
    (lockEntries label {} lines).readings =
      segment.beforeReadings label ++ segment.ownReadings label ++
        segment.afterReadings label := by
  have hlines := segment.lines_eq
  have hbefore : ∀ line ∈ segment.before, isSupportedLine line = true :=
    fun line hline => hsupported line (by rw [hlines]; simp [hline])
  have hown : ∀ line ∈ .node segment.head :: segment.body,
      isSupportedLine line = true := by
    intro line hline
    apply hsupported
    rw [hlines]
    exact List.mem_append_right _ (List.mem_append_left _ hline)
  have hhead : ∀ line ∈
      (.node segment.head :: segment.body ++ segment.after).head?,
      isBoundary line = true := by
    rintro line ⟨⟩
    exact decide_eq_true segment.isBoundary_head
  calc
    (lockEntries label {} lines).readings =
        (lockEntries label {} (segment.before ++
          (.node segment.head :: segment.body ++ segment.after))).readings :=
      congrArg (fun lines => (lockEntries label {} lines).readings) hlines
    _ = segment.beforeReadings label ++ segment.ownReadings label ++
        segment.afterReadings label := by
      rw [lockEntries_append hbefore hhead,
        lockEntries_append hown segment.isEnd, ← gatesBehind_append,
        ← List.append_assoc]
      rfl

theorem addsOnly (h : IsOfSupportedVersion (lineResults (byteText bytes)))
    (segment : Segment (lineResults (byteText bytes))) :
    AddsOnly path bytes segment := by
  intro limit state hbudget
  obtain ⟨behind, earlier, hparse, hemitted, hwarnings⟩ :=
    @parseManifest_of_budget producer.ecosystem limit
      (producer.manifest path bytes) rfl
      (not_throws_lockEntries path.genericString {} _) state hbudget
  have hentries : (producer.manifest path bytes).entries =
      segment.beforeReadings path.genericString ++
        segment.ownReadings path.genericString ++
        segment.afterReadings path.genericString :=
    segment.readings_eq h.supported path.genericString
  have hsummary : ∀ skipped,
      (producer.manifest path bytes).summary false skipped =
        summaryOf path.genericString (lineResults (byteText bytes))
          skipped := by
    intro skipped
    have habandoned := abandoned_lockEntries h.supported path.genericString {}
    simp [producer, lockManifest, habandoned]
  rw [hsummary] at hwarnings
  rw [hentries, List.filterMap_append, List.filterMap_append]
    at hemitted hwarnings
  exact ⟨behind, earlier, hparse, hemitted, hwarnings⟩

/-- An entry behind a version line. -/
def IsVersioned {lines : List LineResult} (entry : PackagesEntry lines) :
    Prop :=
  ∃ line ∈ entry.before, isVersionLine line = true

/-- At an entry the gate of the packages section is open, and that of the
version behind a version line. -/
theorem gatesBehind_before {lines : List LineResult}
    (entry : PackagesEntry lines) :
    ∃ versionSupported, gatesBehind false false entry.before =
        { insidePackages := true, versionSupported := versionSupported } ∧
      (versionSupported = true ↔ IsVersioned entry) := by
  have hinside := (@insidePackages_gatesBehind false none (by simp) false
    entry.before).mpr entry.inPackages
  have hversion := versionSupported_gatesBehind false false entry.before
  simp only [Bool.false_eq_true, false_or] at hversion
  have hpending := pending_gatesBehind false false entry.before
  generalize gatesBehind false false entry.before = gates
    at hinside hpending hversion ⊢
  obtain ⟨pending, insidePackages, versionSupported⟩ := gates
  obtain rfl : insidePackages = true := hinside
  obtain rfl : pending = none := hpending
  exact ⟨versionSupported, rfl, hversion⟩

theorem gatesBehind_of_isVersioned {lines : List LineResult}
    (entry : PackagesEntry lines) (hversioned : IsVersioned entry) :
    gatesBehind false false entry.before =
      { insidePackages := true, versionSupported := true } := by
  obtain ⟨versionSupported, hgates, hversion⟩ := gatesBehind_before entry
  rw [hgates, hversion.mpr hversioned]

/-- An entry is accounted for exactly when the version is known at it. -/
theorem isAccountedFor_ownReadings_iff {lines : List LineResult}
    (entry : PackagesEntry lines) (label : String) :
    IsAccountedFor (entry.ownReadings label) ↔ IsVersioned entry := by
  obtain ⟨versionSupported, hgates, hversion⟩ := gatesBehind_before entry
  rw [← hversion, Segment.ownReadings, hgates]
  cases versionSupported with
  | true =>
    exact iff_of_true (isAccountedFor_lockEntries_entry entry.indentation
      entry.isField label) rfl
  | false =>
    have hlines : ∀ line ∈ .node entry.head :: entry.body,
        isDocumentKey line = false := by
      rw [List.forall_mem_cons]
      constructor
      · simp [isDocumentKey, entry.indentation, entryKeyIndentation,
          documentIndentation]
      · intro line hline
        have hfield := entry.isField line hline
        cases line with
        | nothing => rfl
        | unsupported => rfl
        | node node =>
          have hdeep := of_decide_eq_false hfield
          exact decide_eq_false fun h => hdeep (h.le.trans (Nat.zero_le _))
    exact iff_of_false (isSilent_lockEntries_closed hlines label rfl
      (.inr rfl)).not_isAccountedFor Bool.false_ne_true

theorem isSilent_ownReadings {lines : List LineResult}
    (other : OtherSection lines) (label : String) :
    (other.ownReadings label).filterMap Reading.emission? = [] := by
  have hpending := pending_gatesBehind false false other.before
  rw [Segment.ownReadings]
  generalize gatesBehind false false other.before = gates at hpending ⊢
  have hkey : decide (other.head.key = packagesKey) = false :=
    decide_eq_false other.notPackages
  have hsilent : ∀ versionSupported : Bool, IsSilent (lockEntries label
      { insidePackages := false, versionSupported := versionSupported }
      other.body).readings :=
    fun versionSupported =>
      isSilent_lockEntries_closed other.isInside label rfl (.inl rfl)
  rw [lockEntries]
  dsimp only
  rw [if_pos other.indentation, hpending, hkey]
  split_ifs
  · exact (hsilent true).1
  · rfl
  · exact (hsilent gates.versionSupported).1

theorem isVersioned_of_reportsPackages (h : ReportsPackages path bytes)
    (entry : PackagesEntry (lineResults (byteText bytes))) :
    IsVersioned entry :=
  (isAccountedFor_ownReadings_iff entry path.genericString).mp (h.1 entry).2

/-- The packages are reported exactly when the version is known before each of
their entries. -/
theorem reportsPackages_iff (path : FsPath) (bytes : List UInt8)
    (h : IsOfSupportedVersion (lineResults (byteText bytes))) :
    ReportsPackages path bytes ↔
      ∀ entry : PackagesEntry (lineResults (byteText bytes)),
        IsVersioned entry := by
  constructor
  · exact isVersioned_of_reportsPackages
  · intro hversioned
    constructor
    · intro entry
      exact ⟨addsOnly h entry.toSegment,
        (isAccountedFor_ownReadings_iff entry _).mpr (hversioned entry)⟩
    · intro other
      exact ⟨addsOnly h other.toSegment, isSilent_ownReadings other _⟩

/-- A pnpm-lock.yaml of one package, the version ahead of it. -/
def versionFirst : List UInt8 :=
  ("lockfileVersion: '9.0'\npackages:\n  a@1.0.0:\n    resolution: " ++
    "\x7bintegrity: x\x7d").toList.map Char.toUInt8

theorem reportsPackages_versionFirst :
    ReportsPackages (.ofString "pnpm-lock.yaml") versionFirst ↔
      ∀ entry : PackagesEntry (lineResults (byteText versionFirst)),
        IsVersioned entry :=
  reportsPackages_iff (.ofString "pnpm-lock.yaml") versionFirst
    { versioned := List.any_eq_true.mp (by decide +kernel)
      supported := List.all_eq_true.mp (by decide +kernel) }

/-- The same package, the version behind it. -/
def versionLast : List UInt8 :=
  ("packages:\n  a@1.0.0:\n    resolution: \x7bintegrity: x\x7d\n" ++
    "lockfileVersion: '9.0'").toList.map Char.toUInt8

def versionLastEntry :
    PackagesEntry (lineResults (byteText versionLast)) where
  before := [.node (nodeOf 0 packagesKey [])]
  head := nodeOf 2 "a@1.0.0".toList []
  body := [.node (nodeOf 4 resolutionKey "\x7bintegrity: x\x7d".toList)]
  after := [.node (nodeOf 0 lockfileVersionKey "'9.0'".toList)]
  lines_eq := by decide +kernel
  isBoundary_head := by decide
  isEnd := by
    rintro line ⟨⟩
    rfl
  inPackages := by decide
  indentation := rfl
  isField := by
    intro line hline
    obtain rfl := List.mem_singleton.mp hline
    rfl

/-- The package ahead of the version vanishes. -/
theorem not_reportsPackages_versionLast :
    ¬ReportsPackages (.ofString "pnpm-lock.yaml") versionLast := by
  intro h
  obtain ⟨line, hline, hversion⟩ :=
    isVersioned_of_reportsPackages h versionLastEntry
  obtain rfl := List.mem_singleton.mp hline
  exact absurd hversion (by decide)

end Files
end Bomwerk.Lockfiles.Pnpm
