import Bomwerk.Lockfiles.BerryLocators

/-!
# Accounts of the entries of a yarn.lock

An entry is opened by a line at the document level and holds the lines up to
the next one.  Yarn Classic's loop closes the entry before each key and at the
end, so it accounts for every entry.  Yarn Berry's notices an entry only by its
resolution, so one without a resolution vanishes and one with several is
accounted for several times.
-/

namespace Bomwerk.Lockfiles.Yarn

open Bomwerk.Core Bomwerk.Core.YamlSubset

/-! ## Classic entries -/

/-- A line at the document level that is neither blank nor a comment. -/
def isClassicKey (rawLine : List Char) : Bool :=
  trimmed rawLine ≠ [] ∧ (trimmed rawLine).head? ≠ some '#' ∧
    leadingSpaceCount rawLine = entryKeyIndentation

/-- The end of an entry that is still without a version. -/
def pendingEnd (pendingName : List Char) : List Reading :=
  if pendingName = [] then [] else [{ outcome := .skipped .versionless }]

theorem classicEntries_key {line : List Char} (hline : isClassicKey line = true)
    (label : String) (pendingName : List Char) (lines : List (List Char)) :
    classicEntries label pendingName (line :: lines) =
      pendingEnd pendingName ++ classicEntries label [] (line :: lines) := by
  simp only [isClassicKey, decide_eq_true_eq] at hline
  obtain ⟨hblank, hcomment, hindentation⟩ := hline
  simp [classicEntries, hblank, hcomment, hindentation, pendingEnd]

theorem classicEntries_append {after : List (List Char)}
    (hafter : ∀ line ∈ after.head?, isClassicKey line = true) (label : String)
    (pendingName : List Char) (before : List (List Char)) :
    classicEntries label pendingName (before ++ after) =
      classicEntries label pendingName before ++
        classicEntries label [] after := by
  induction before generalizing pendingName with
  | nil =>
    cases after with
    | nil => simp [classicEntries]
    | cons line lines =>
      rw [List.nil_append, classicEntries_key (hafter line rfl)]
      rfl
  | cons line before ih =>
    rw [List.cons_append, classicEntries, classicEntries]
    split_ifs <;> simp [ih]

/-- A field changes nothing, or ends its entry with a component or without a
version. -/
theorem classicEntries_field {line : List Char}
    (hline : isClassicKey line = false) (label : String)
    (pendingName : List Char) (lines : List (List Char)) :
    classicEntries label pendingName (line :: lines) =
        classicEntries label pendingName lines ∨
      (pendingName ≠ [] ∧ ∃ outcome, (outcome = .skipped .versionless ∨
            ∃ component, outcome = .valid (some component)) ∧
          classicEntries label pendingName (line :: lines) =
            { outcome := outcome } :: classicEntries label [] lines) := by
  rw [classicEntries]
  dsimp only
  split
  · exact .inl rfl
  rename_i hcontent
  rw [not_or] at hcontent
  have hindentation : ¬leadingSpaceCount line = entryKeyIndentation := by
    simpa [isClassicKey, hcontent] using hline
  rw [if_neg hindentation]
  split
  · exact .inl rfl
  rename_i hfield
  rw [not_or, not_or] at hfield
  split
  · exact .inr ⟨hfield.2.1, _, .inl rfl, rfl⟩
  · exact .inr ⟨hfield.2.1, _, .inr ⟨_, rfl⟩, rfl⟩

/-- The fields of an entry yield one reading when its name is known, and none
when it is not. -/
theorem classicEntries_fields {fields : List (List Char)}
    (hfields : ∀ line ∈ fields, isClassicKey line = false) (label : String) :
    classicEntries label [] fields = [] ∧ ∀ pendingName, pendingName ≠ [] →
        ∃ outcome, (outcome = .skipped .versionless ∨
            ∃ component, outcome = .valid (some component)) ∧
          classicEntries label pendingName fields =
            [{ outcome := outcome }] := by
  induction fields with
  | nil =>
    refine ⟨rfl, fun pendingName hpending => ?_⟩
    exact ⟨_, .inl rfl, by rw [classicEntries, if_neg hpending]⟩
  | cons line fields ih =>
    rw [List.forall_mem_cons] at hfields
    obtain ⟨hnone, hone⟩ := ih hfields.2
    constructor
    · rcases classicEntries_field hfields.1 label [] fields with h | ⟨h, -⟩
      · rw [h, hnone]
      · exact absurd rfl h
    · intro pendingName hpending
      rcases classicEntries_field hfields.1 label pendingName fields with
        h | ⟨-, outcome, houtcome, h⟩
      · rw [h]
        exact hone pendingName hpending
      · exact ⟨outcome, houtcome, by rw [h, hnone]⟩

/-- The reading of an entry: its key line yields it, or its fields do. -/
theorem exists_classicEntries_entry {key : List Char}
    (hkey : isClassicKey key = true) {fields : List (List Char)}
    (hfields : ∀ line ∈ fields, isClassicKey line = false) (label : String) :
    ∃ outcome, (outcome = .skipped .malformed ∨
        outcome = .skipped .versionless ∨
          ∃ component, outcome = .valid (some component)) ∧
      classicEntries label [] (key :: fields) = [{ outcome := outcome }] := by
  obtain ⟨hnone, hone⟩ := classicEntries_fields hfields label
  simp only [isClassicKey, decide_eq_true_eq] at hkey
  obtain ⟨hblank, hcomment, hindentation⟩ := hkey
  have hcontent : ¬(trimmed key = [] ∨ (trimmed key).head? = some '#') :=
    not_or.mpr ⟨hblank, hcomment⟩
  rw [classicEntries]
  dsimp only
  rw [if_neg hcontent, if_pos hindentation, if_pos rfl, List.nil_append]
  split
  · exact ⟨_, .inl rfl, by rw [hnone]⟩
  · by_cases hname : entryName (trimmed key) = []
    · exact ⟨_, .inl rfl, by rw [if_pos hname, hname, hnone]; rfl⟩
    · obtain ⟨outcome, houtcome, h⟩ := hone _ hname
      exact ⟨outcome, .inr houtcome, by rw [if_neg hname, h]; rfl⟩

theorem not_throws_pendingEnd (pendingName : List Char) :
    ∀ reading ∈ pendingEnd pendingName, ¬reading.Throws := by
  rw [pendingEnd]
  split_ifs
  · simp
  · simp [not_throws_skipped]

/-- A key line yields malformed entries at most. -/
theorem exists_classicEntries_key {line : List Char}
    (hline : isClassicKey line = true) (label : String)
    (lines : List (List Char)) :
    ∃ readings pendingName, (∀ reading ∈ readings, ¬reading.Throws) ∧
      classicEntries label [] (line :: lines) =
        readings ++ classicEntries label pendingName lines := by
  simp only [isClassicKey, decide_eq_true_eq] at hline
  obtain ⟨hblank, hcomment, hindentation⟩ := hline
  have hcontent : ¬(trimmed line = [] ∨ (trimmed line).head? = some '#') :=
    not_or.mpr ⟨hblank, hcomment⟩
  rw [classicEntries]
  dsimp only
  rw [if_neg hcontent, if_pos hindentation, if_pos rfl, List.nil_append]
  split
  · exact ⟨[_], [], by simp [not_throws_skipped], rfl⟩
  · refine ⟨_, _, ?_, rfl⟩
    split_ifs
    · simp [not_throws_skipped]
    · simp

theorem not_throws_classicEntries (label : String) (pendingName : List Char)
    (lines : List (List Char)) :
    ∀ reading ∈ classicEntries label pendingName lines, ¬reading.Throws := by
  induction lines generalizing pendingName with
  | nil => exact not_throws_pendingEnd pendingName
  | cons line lines ih =>
    by_cases hkey : isClassicKey line = true
    · obtain ⟨readings, name, hreadings, h⟩ :=
        exists_classicEntries_key hkey label lines
      rw [classicEntries_key hkey, h, List.forall_mem_append,
        List.forall_mem_append]
      exact ⟨not_throws_pendingEnd pendingName, hreadings, ih name⟩
    · rw [Bool.not_eq_true] at hkey
      rcases classicEntries_field hkey label pendingName lines with
        h | ⟨-, outcome, houtcome, h⟩
      · rw [h]
        exact ih pendingName
      · rw [h, List.forall_mem_cons]
        refine ⟨?_, ih []⟩
        rcases houtcome with rfl | ⟨component, rfl⟩ <;> simp [Reading.Throws]

/-! ## Berry entries -/

def isBerryKey : LineResult → Bool
  | .node node => node.indentation = entryKeyIndentation
  | _ => false

/-- The resolution that a line holds as a field of an entry. -/
def resolutionOf? : LineResult → Option (List Char)
  | .node node =>
    if node.indentation = entryFieldIndentation ∧ node.key = resolutionKey then
      some node.value
    else none
  | _ => none

/-- The locator has the workspace protocol, under a patch or not. -/
def IsWorkspaceLocator (value : List Char) : Prop :=
  ∃ locator, splitLocator value = some locator ∧
    if locator.protocol = patchProtocol then
      ∃ underlying, (underlyingLocator locator.selector).1 = some underlying ∧
        underlying.protocol = workspaceProtocol
    else locator.protocol = workspaceProtocol

/-- The reasons that `warn_skip_counts` counts entries under. -/
def entryReasons : List SkipReason :=
  [.localPath, .unsupportedProtocol, .versionless, .malformed]

theorem berryEntries_of_key {lines : List LineResult}
    (hlines : ∀ line ∈ lines.head?, isBerryKey line = true) (label : String)
    (insideMetadata : Bool) :
    berryEntries label insideMetadata lines =
      berryEntries label false lines := by
  cases lines with
  | nil => cases insideMetadata <;> rfl
  | cons line lines =>
    have hkey := hlines line rfl
    cases line with
    | nothing => cases hkey
    | unsupported => cases hkey
    | node node =>
      have hindentation : node.indentation = entryKeyIndentation :=
        of_decide_eq_true hkey
      simp [berryEntries, hindentation]

theorem locatorOutcome_cases (label : String) (locator : Locator)
    (patchNote : List Char) :
    (locator.protocol = workspaceProtocol ∧
        locatorOutcome label locator patchNote = .ignored) ∨
      (locator.protocol ≠ workspaceProtocol ∧
        ((∃ component, locatorOutcome label locator patchNote =
            .valid (some component)) ∨
          ∃ reason ∈ entryReasons, locatorOutcome label locator patchNote =
            .skipped reason)) := by
  rw [locatorOutcome]
  split_ifs with hworkspace hlocal hprotocol
  · exact .inl ⟨hworkspace, rfl⟩
  · exact .inr ⟨hworkspace, .inr ⟨_, by decide, rfl⟩⟩
  · exact .inr ⟨hworkspace, .inr ⟨_, by decide, rfl⟩⟩
  · exact .inr ⟨hworkspace, .inl ⟨_, rfl⟩⟩
  · exact .inr ⟨hworkspace, .inl ⟨_, rfl⟩⟩

/-- A resolution is passed over as a workspace member, or it is a component or
one counted skip. -/
theorem readResolution_cases (label : String) (value : List Char) :
    (IsWorkspaceLocator value ∧ readResolution label value = .ignored) ∨
      (¬IsWorkspaceLocator value ∧ ((∃ component, readResolution label value =
            .valid (some component)) ∨
          ∃ reason ∈ entryReasons, readResolution label value =
            .skipped reason)) := by
  rw [readResolution, IsWorkspaceLocator]
  rcases splitLocator value with _ | locator
  · exact .inr ⟨by simp, .inr ⟨_, by decide, rfl⟩⟩
  by_cases hpatch : locator.protocol = patchProtocol
  · simp only [hpatch, if_true]
    rcases hunder : underlyingLocator locator.selector with
      ⟨_ | underlying, patchNote⟩
    · exact .inr ⟨by simp [hpatch, hunder], .inr ⟨_, by decide, rfl⟩⟩
    · simpa [hpatch, hunder] using
        locatorOutcome_cases label underlying patchNote
  · simpa [hpatch] using locatorOutcome_cases label locator []

/-- What one resolution adds to the components. -/
def resolutionEmission? (label : String) (value : List Char) :
    Option Emission :=
  Reading.emission? { outcome := readResolution label value }

/-- What one resolution adds to the counts. -/
def resolutionSkip? (label : String) (value : List Char) :
    Option SkipReason :=
  Reading.skip? { outcome := readResolution label value }

/-- The counts of entries among those of a run. -/
def entrySkips (readings : List Reading) : List SkipReason :=
  (readings.filterMap Reading.skip?).filter (entryReasons.contains ·)

theorem resolution_cases (label : String) (value : List Char) :
    (IsWorkspaceLocator value ∧ resolutionEmission? label value = none ∧
        resolutionSkip? label value = none) ∨
      (¬IsWorkspaceLocator value ∧
        ((∃ emission, resolutionEmission? label value = some emission ∧
            resolutionSkip? label value = none) ∨
          ∃ reason ∈ entryReasons, resolutionEmission? label value = none ∧
            resolutionSkip? label value = some reason)) := by
  rw [resolutionEmission?, resolutionSkip?, Reading.emission?, Reading.skip?]
  rcases readResolution_cases label value with
    ⟨hworkspace, h⟩ | ⟨hworkspace, ⟨component, h⟩ | ⟨reason, hreason, h⟩⟩
  · exact .inl ⟨hworkspace, by simp [h]⟩
  · exact .inr ⟨hworkspace, .inl ⟨_, by simp [h]; rfl⟩⟩
  · exact .inr ⟨hworkspace, .inr ⟨reason, hreason, by simp [h]⟩⟩

theorem berryEntries_fields {fields : List LineResult}
    (hfields : ∀ line ∈ fields, isBerryKey line = false) (label : String) :
    (berryEntries label false fields).filterMap Reading.emission? =
        (fields.filterMap resolutionOf?).filterMap
          (resolutionEmission? label) ∧
      entrySkips (berryEntries label false fields) =
        (fields.filterMap resolutionOf?).filterMap
          (resolutionSkip? label) := by
  rw [entrySkips]
  induction fields with
  | nil => exact ⟨rfl, rfl⟩
  | cons line fields ih =>
    rw [List.forall_mem_cons] at hfields
    obtain ⟨hemissions, hskips⟩ := ih hfields.2
    cases line with
    | nothing => exact ⟨hemissions, hskips⟩
    | unsupported => exact ⟨hemissions, hskips⟩
    | node node =>
      have hindentation : ¬node.indentation = entryKeyIndentation :=
        of_decide_eq_false hfields.1
      by_cases hresolution : node.indentation = entryFieldIndentation ∧
          node.key = resolutionKey
      · have hentries : berryEntries label false (.node node :: fields) =
            { outcome := readResolution label node.value } ::
              berryEntries label false fields := by
          rw [berryEntries, if_neg hindentation]
          simp [hresolution]
        have hvalue : resolutionOf? (.node node) = some node.value := by
          rw [resolutionOf?, if_pos hresolution]
        rw [hentries, List.filterMap_cons_some hvalue]
        constructor
        · rw [List.filterMap_cons, List.filterMap_cons, hemissions]
          rfl
        have hread : Reading.skip?
            { outcome := readResolution label node.value } =
              resolutionSkip? label node.value := rfl
        rcases resolution_cases label node.value with
          ⟨-, -, hskip⟩ | ⟨-, ⟨emission, -, hskip⟩ |
            ⟨reason, hreason, -, hskip⟩⟩
        · rw [List.filterMap_cons_none (hread.trans hskip),
            List.filterMap_cons_none hskip]
          exact hskips
        · rw [List.filterMap_cons_none (hread.trans hskip),
            List.filterMap_cons_none hskip]
          exact hskips
        · have hcounted : entryReasons.contains reason = true :=
            List.elem_eq_true_of_mem hreason
          rw [List.filterMap_cons_some (hread.trans hskip),
            List.filterMap_cons_some hskip,
            List.filter_cons_of_pos hcounted, hskips]
      · have hentries : berryEntries label false (.node node :: fields) =
            berryEntries label false fields := by
          rw [not_and_or] at hresolution
          simp [berryEntries, hindentation, hresolution]
        have hvalue : resolutionOf? (.node node) = none := by
          rw [resolutionOf?, if_neg hresolution]
        rw [hentries, List.filterMap_cons_none hvalue]
        exact ⟨hemissions, hskips⟩

/-- The entry yields one component, or is a workspace member, or is counted
once, and is no two of these. -/
def IsAccountedFor (emissions : List Emission) (skips : List SkipReason)
    (isMember : Prop) : Prop :=
  (emissions.length = 1 ∧ skips = [] ∧ ¬isMember) ∨
    (emissions = [] ∧ (∃ reason ∈ entryReasons, skips = [reason]) ∧ ¬isMember) ∨
    (emissions = [] ∧ skips = [] ∧ isMember)

theorem length_of_not_workspace (label : String) {values : List (List Char)}
    (hvalues : ∀ value ∈ values, ¬IsWorkspaceLocator value) :
    (values.filterMap (resolutionEmission? label)).length +
      (values.filterMap (resolutionSkip? label)).length = values.length := by
  induction values with
  | nil => rfl
  | cons value values ih =>
    rw [List.forall_mem_cons] at hvalues
    have hlength := ih hvalues.2
    rcases resolution_cases label value with
      ⟨hworkspace, -⟩ | ⟨-, ⟨emission, hemit, hskip⟩ |
        ⟨reason, -, hemit, hskip⟩⟩
    · exact absurd hworkspace hvalues.1
    · rw [List.filterMap_cons_some hemit, List.filterMap_cons_none hskip,
        List.length_cons, List.length_cons]
      omega
    · rw [List.filterMap_cons_none hemit, List.filterMap_cons_some hskip,
        List.length_cons, List.length_cons]
      omega

/-- The resolutions of an entry account for it exactly when there is one, or
all of several are workspace members. -/
theorem isAccountedFor_resolutions_iff (label : String)
    (values : List (List Char)) :
    IsAccountedFor (values.filterMap (resolutionEmission? label))
        (values.filterMap (resolutionSkip? label))
        (∃ value ∈ values, IsWorkspaceLocator value) ↔
      values ≠ [] ∧ ((∀ value ∈ values, IsWorkspaceLocator value) ∨
        values.length = 1) := by
  constructor
  · rintro (⟨hemissions, hskips, hmember⟩ | ⟨hemissions, ⟨reason, -, hskips⟩,
      hmember⟩ | ⟨hemissions, hskips, hmember⟩)
    · have hlength := length_of_not_workspace label fun value hvalue h =>
        hmember ⟨value, hvalue, h⟩
      rw [hemissions, hskips] at hlength
      exact ⟨List.ne_nil_of_length_pos (by omega), .inr hlength.symm⟩
    · have hlength := length_of_not_workspace label fun value hvalue h =>
        hmember ⟨value, hvalue, h⟩
      rw [hemissions, hskips] at hlength
      exact ⟨List.ne_nil_of_length_pos (by rw [← hlength]; simp),
        .inr hlength.symm⟩
    · obtain ⟨value, hvalue, -⟩ := hmember
      refine ⟨List.ne_nil_of_mem hvalue, .inl fun other hother => ?_⟩
      have hemit := List.filterMap_eq_nil_iff.mp hemissions other hother
      have hskip := List.filterMap_eq_nil_iff.mp hskips other hother
      rcases resolution_cases label other with
        ⟨hworkspace, -⟩ | ⟨-, ⟨emission, hsome, -⟩ | ⟨reason, -, -, hsome⟩⟩
      · exact hworkspace
      · rw [hemit] at hsome
        cases hsome
      · rw [hskip] at hsome
        cases hsome
  · rintro ⟨hne, hall | hone⟩
    · obtain ⟨value, hvalue⟩ := List.exists_mem_of_ne_nil values hne
      refine .inr (.inr ⟨?_, ?_, value, hvalue, hall value hvalue⟩)
      · rw [List.filterMap_eq_nil_iff]
        intro other hother
        rcases resolution_cases label other with ⟨-, hemit, -⟩ | ⟨h, -⟩
        · exact hemit
        · exact absurd (hall other hother) h
      · rw [List.filterMap_eq_nil_iff]
        intro other hother
        rcases resolution_cases label other with ⟨-, -, hskip⟩ | ⟨h, -⟩
        · exact hskip
        · exact absurd (hall other hother) h
    · obtain ⟨value, rfl⟩ := List.length_eq_one_iff.mp hone
      rcases resolution_cases label value with
        ⟨hworkspace, hemit, hskip⟩ | ⟨hworkspace, ⟨emission, hemit, hskip⟩ |
          ⟨reason, hreason, hemit, hskip⟩⟩
      · exact .inr (.inr (by simp [hemit, hskip, hworkspace]))
      · exact .inl (by simp [hemit, hskip, hworkspace])
      · exact .inr (.inl (by simp [hemit, hskip, hworkspace, hreason]))

/-! ## Entries of a file -/

/-- An entry of a yarn.lock of Yarn Classic. -/
structure ClassicEntry (text : List Char) where
  isClassic : isClassicFormat text = true
  before : List (List Char)
  key : List Char
  fields : List (List Char)
  after : List (List Char)
  lines : text.splitOn '\n' = before ++ (key :: fields ++ after)
  isKey : isClassicKey key = true
  isField : ∀ line ∈ fields, isClassicKey line = false
  isEnd : ∀ line ∈ after.head?, isClassicKey line = true

/-- An entry of a yarn.lock of Yarn Berry; the metadata is none. -/
structure BerryEntry (text : List Char) where
  isBerry : isClassicFormat text = false
  before : List LineResult
  key : Node
  fields : List LineResult
  after : List LineResult
  lines : lineResults text = before ++ (.node key :: fields ++ after)
  indentation : key.indentation = entryKeyIndentation
  notMetadata : key.key ≠ metadataKey
  isField : ∀ line ∈ fields, isBerryKey line = false
  isEnd : ∀ line ∈ after.head?, isBerryKey line = true

inductive LockEntry (text : List Char)
  | classic (entry : ClassicEntry text)
  | berry (entry : BerryEntry text)

namespace LockEntry

variable {text : List Char} (label : String)

/-- What the loop makes of the lines before the entry. -/
def before : LockEntry text → List Reading
  | classic entry => classicEntries label [] entry.before
  | berry entry => berryEntries label false entry.before

/-- What the loop makes of the lines of the entry. -/
def own : LockEntry text → List Reading
  | classic entry => classicEntries label [] (entry.key :: entry.fields)
  | berry entry => berryEntries label false entry.fields

/-- What the loop makes of the lines behind the entry. -/
def after : LockEntry text → List Reading
  | classic entry => classicEntries label [] entry.after
  | berry entry => berryEntries label false entry.after

/-- The values of the resolution fields of an entry. -/
def resolutions : LockEntry text → List (List Char)
  | classic _ => []
  | berry entry => entry.fields.filterMap resolutionOf?

def IsWorkspaceMember (entry : LockEntry text) : Prop :=
  ∃ value ∈ entry.resolutions, IsWorkspaceLocator value

/-- Yarn Berry's loop comes to the entry once, by a single resolution field or
by several of a workspace member. -/
def IsCovered : LockEntry text → Prop
  | classic _ => True
  | berry entry =>
    (berry entry).resolutions ≠ [] ∧
      ((∀ value ∈ (berry entry).resolutions, IsWorkspaceLocator value) ∨
        (berry entry).resolutions.length = 1)

end LockEntry

/-- Within the budget the entry is accounted for by its own lines, between what
the lines before and behind it add to the components and to the counts. -/
def IsAccounted (path : FsPath) (bytes : List UInt8)
    (entry : LockEntry (byteText bytes)) : Prop :=
  let manifest := producer.manifest path bytes
  let label := path.genericString
  ∀ (limit : Nat) (state : ParseState),
    manifest.entries.length ≤ state.packageBudget →
    ∃ behind earlier,
      parseManifest producer.ecosystem limit manifest state = some behind ∧
        behind.emitted = state.emitted ++
          ((entry.before label).filterMap Reading.emission? ++
            (entry.own label).filterMap Reading.emission? ++
            (entry.after label).filterMap Reading.emission?) ∧
        behind.warnings = earlier ++ manifest.summary false
          ((entry.before label).filterMap Reading.skip? ++
            (entry.own label).filterMap Reading.skip? ++
            (entry.after label).filterMap Reading.skip?) ∧
        IsAccountedFor ((entry.own label).filterMap Reading.emission?)
          (entrySkips (entry.own label)) entry.IsWorkspaceMember

section Files

variable {path : FsPath} {bytes : List UInt8}

/-- The loop goes from the lines before an entry to its own and on to the lines
behind it. -/
theorem entries_manifest (entry : LockEntry (byteText bytes)) :
    (producer.manifest path bytes).entries =
      entry.before path.genericString ++ entry.own path.genericString ++
        entry.after path.genericString := by
  cases entry with
  | classic entry =>
    have hkey : ∀ line ∈ (entry.key :: entry.fields ++ entry.after).head?,
        isClassicKey line = true := by
      rintro line ⟨⟩
      exact entry.isKey
    simp only [producer, entry.isClassic, if_true, classicManifest]
    rw [entry.lines, classicEntries_append hkey,
      classicEntries_append entry.isEnd, ← List.append_assoc]
    rfl
  | berry entry =>
    simp only [producer, entry.isBerry, Bool.false_eq_true, if_false,
      berryManifest]
    rw [entry.lines, berryEntries_append, List.cons_append, berryEntries,
      if_pos entry.indentation, decide_eq_false entry.notMetadata,
      berryEntries_append, berryEntries_of_key entry.isEnd,
      ← List.append_assoc]
    rfl

theorem not_throws_manifest :
    ∀ reading ∈ (producer.manifest path bytes).entries, ¬reading.Throws := by
  simp only [producer]
  split_ifs
  · exact not_throws_classicEntries _ _ _
  · exact not_throws_berryEntries _ _ _

theorem isAccountedFor_own_iff (label : String)
    (entry : LockEntry (byteText bytes)) :
    IsAccountedFor ((entry.own label).filterMap Reading.emission?)
        (entrySkips (entry.own label)) entry.IsWorkspaceMember ↔
      entry.IsCovered := by
  cases entry with
  | classic entry =>
    have hmember : ¬(LockEntry.classic entry).IsWorkspaceMember := by
      rintro ⟨value, hvalue, -⟩
      cases hvalue
    obtain ⟨outcome, houtcome, h⟩ :=
      exists_classicEntries_entry entry.isKey entry.isField label
    apply iff_of_true _ trivial
    rw [LockEntry.own, h]
    rcases houtcome with rfl | rfl | ⟨component, rfl⟩
    · exact .inr (.inl ⟨rfl, ⟨.malformed, by decide, rfl⟩, hmember⟩)
    · exact .inr (.inl ⟨rfl, ⟨.versionless, by decide, rfl⟩, hmember⟩)
    · exact .inl ⟨rfl, rfl, hmember⟩
  | berry entry =>
    obtain ⟨hemissions, hskips⟩ := berryEntries_fields entry.isField label
    rw [LockEntry.own, hemissions, hskips]
    exact isAccountedFor_resolutions_iff label _

theorem isCovered_of_isAccounted {entry : LockEntry (byteText bytes)}
    (haccounted : IsAccounted path bytes entry) : entry.IsCovered := by
  obtain ⟨-, -, -, -, -, h⟩ := haccounted 0
    { packageBudget := (producer.manifest path bytes).entries.length }
    (le_refl _)
  exact (isAccountedFor_own_iff path.genericString entry).mp h

/-- An entry is accounted for exactly when it is one of Yarn Classic, or Yarn
Berry's loop comes to it once. -/
theorem isAccounted_iff (path : FsPath) (bytes : List UInt8)
    (entry : LockEntry (byteText bytes)) :
    IsAccounted path bytes entry ↔ entry.IsCovered := by
  constructor
  · exact isCovered_of_isAccounted
  · intro hcovered limit state hbudget
    have h := (isAccountedFor_own_iff path.genericString entry).mpr hcovered
    have hown : (producer.manifest path bytes).ownIdentity = none := by
      simp only [producer]
      split_ifs <;> rfl
    obtain ⟨behind, earlier, hparse, hemitted, hwarnings⟩ :=
      @parseManifest_of_budget producer.ecosystem limit _ hown
        not_throws_manifest state hbudget
    rw [entries_manifest entry, List.filterMap_append, List.filterMap_append]
      at hemitted hwarnings
    exact ⟨behind, earlier, hparse, hemitted, hwarnings, h⟩

/-- A yarn.lock whose entry has a version and no resolution. -/
def versionLock : List UInt8 :=
  "__metadata:\n  version: 8\n\"a@npm:^1\":\n  version: 1.0".toList.map
    Char.toUInt8

def versionEntry : BerryEntry (byteText versionLock) where
  isBerry := by decide +kernel
  before := [.node (nodeOf 0 metadataKey []),
    .node (nodeOf 2 "version".toList ['8'])]
  key := nodeOf 0 "a@npm:^1".toList []
  fields := [.node (nodeOf 2 "version".toList "1.0".toList)]
  after := []
  lines := by decide +kernel
  indentation := rfl
  notMetadata := by decide
  isField := by simp [isBerryKey, nodeOf, entryKeyIndentation]
  isEnd := by simp

/-- The entry without a resolution vanishes. -/
theorem not_isAccounted_versionEntry :
    ¬IsAccounted (.ofString "yarn.lock") versionLock
      (.berry versionEntry) := by
  intro haccounted
  obtain ⟨hne, -⟩ := isCovered_of_isAccounted haccounted
  have hnone : (LockEntry.berry versionEntry).resolutions = [] := by
    decide +kernel
  exact hne hnone

end Files

end Bomwerk.Lockfiles.Yarn
