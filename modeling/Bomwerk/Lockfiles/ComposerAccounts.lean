import Bomwerk.Core.UnparsedManifests
import Bomwerk.Lockfiles.ComposerShadowing
import Bomwerk.Lockfiles.OneFile
import Bomwerk.Lockfiles.UnexhaustedRuns

/-!
# Accounts of composer entries

Each entry of a member of the expected type is a component or a counted skip.
A member of another type is warned about in composer.json; in composer.lock it
is passed over without a word.
-/

namespace Bomwerk.Lockfiles.Composer

open Bomwerk.Core

/-- The two files. -/
inductive ComposerFile
  | lock
  | json
  deriving DecidableEq, Repr

namespace ComposerFile

/-- The members that the parser reads, with their scopes. -/
def members : ComposerFile → List (String × Scope)
  | lock => [("packages", .required), ("packages-dev", .excluded)]
  | json => [("require", .required), ("require-dev", .excluded)]

/-- The member has the type that the parser expects. -/
def isExpected : ComposerFile → Json → Bool
  | lock => Json.isArray
  | json => Json.isObject

def manifest : ComposerFile → String → Json → Manifest
  | lock => lockManifest
  | json => jsonManifest

/-- What the parser makes of the entries of a member. -/
def entryOutcomes (label : String) (scope : Scope) :
    ComposerFile → Json → List Outcome
  | lock, .array packages => packages.map (readEntry label scope)
  | json, .object requirements => requirements.map fun (name, constraint) =>
    readRequirement label scope name constraint
  | _, _ => []

end ComposerFile

/-- One component, or one count. -/
def IsAccountedFor (outcome : Outcome) : Prop :=
  (∃ component, outcome = .valid (some component)) ∨
    outcome = .skipped .unresolved ∨ outcome = .skipped .malformed

/-- An entry of a lock is never unresolved. -/
theorem readEntry_spec (label : String) (scope : Scope)
    (entry : Json) :
    (∃ component, readEntry label scope entry = .valid (some component)) ∨
      readEntry label scope entry = .skipped .malformed := by
  rw [readEntry]
  split
  · exact .inr rfl
  split
  swap
  · exact .inr rfl
  split
  · exact .inr rfl
  dsimp only
  split_ifs
  · exact .inr rfl
  · exact .inl ⟨_, rfl⟩

theorem skip?_readEntry {label : String} {scope : Scope} {entry : Json}
    {reason : SkipReason}
    (hskip : Reading.skip? { outcome := readEntry label scope entry } =
      some reason) : reason = .malformed := by
  rcases readEntry_spec label scope entry with
    ⟨component, h⟩ | h
  · rw [h] at hskip
    cases hskip
  · rw [h] at hskip
    exact (Option.some.inj hskip).symm

theorem isAccountedFor_readRequirement (label : String) (scope : Scope)
    (name : String) (constraint : Json) :
    IsAccountedFor (readRequirement label scope name constraint) := by
  rw [readRequirement]
  dsimp only
  split
  · exact .inr (.inl rfl)
  split
  · exact .inr (.inr rfl)
  · exact .inl ⟨_, rfl⟩

theorem isAccountedFor_of_mem_entryOutcomes {file : ComposerFile}
    {label : String} {scope : Scope} {member : Json} :
    ∀ outcome ∈ file.entryOutcomes label scope member,
      IsAccountedFor outcome := by
  intro outcome hmem
  cases file with
  | lock =>
    cases member with
    | array packages =>
      obtain ⟨entry, -, rfl⟩ := List.mem_map.mp hmem
      exact (readEntry_spec label scope entry).imp_right .inr
    | _ => cases hmem
  | json =>
    cases member with
    | object requirements =>
      obtain ⟨⟨name, constraint⟩, -, rfl⟩ := List.mem_map.mp hmem
      exact isAccountedFor_readRequirement label scope name constraint
    | _ => cases hmem

/-! ## Documents -/

section Documents

variable (file : ComposerFile) (label : String) (document : Json)

def memberOutcomes : List Outcome :=
  file.members.flatMap fun (key, scope) =>
    match document.find? key with
    | some member => file.entryOutcomes label scope member
    | none => []

def memberSkips : List SkipReason :=
  (memberOutcomes file label document).filterMap
    fun outcome => Reading.skip? { outcome := outcome }

/-- A member is there and has another type than the parser expects. -/
def HasIllTypedMember : Prop :=
  ∃ member ∈ file.members, ∃ value,
    document.find? member.1 = some value ∧ file.isExpected value = false

def HasNoMember : Prop :=
  ∀ member ∈ file.members, document.find? member.1 = none

/-- The warning says how many entries are skipped. -/
def IsCountOf (count : Nat) (warning : Warning) : Prop :=
  warning.code = .entriesSkippedUnresolved ∧
    ∃ rest, warning.message = "composer: " ++ (toString count ++ rest)

/-- Within the budget each entry yields a component or is counted, the counts
are warned about by their reasons, and so is a member of another type or a lock
without members. -/
def DropsNothing : Prop :=
  ∀ (limit : Nat) (state : ParseState),
    (file.manifest label document).entries.length ≤ state.packageBudget →
    ∃ behind raised,
      parseManifest "composer" limit (file.manifest label document) state =
          some behind ∧
        behind.emitted = state.emitted ++
          (memberOutcomes file label document).filterMap
            (fun outcome => Reading.emission? { outcome := outcome }) ∧
        behind.warnings = state.warnings ++ raised ∧
        (∀ outcome ∈ memberOutcomes file label document,
          IsAccountedFor outcome) ∧
        (∀ reason ∈ memberSkips file label document, ∃ warning ∈ raised,
            IsCountOf ((memberSkips file label document).count reason)
              warning) ∧
        (HasIllTypedMember file document →
          ∃ warning ∈ raised, warning.code = .malformedEntrySkipped) ∧
        (file = .lock → HasNoMember file document →
          ∃ warning ∈ raised, warning.code = .malformedEntrySkipped)

end Documents

section Accounts

variable {file : ComposerFile} {label : String} {document : Json}

theorem hasNoMember_lock_iff : HasNoMember .lock document ↔
    (document.find? "packages").isNone ∧
      (document.find? "packages-dev").isNone := by
  rw [HasNoMember, ComposerFile.members, List.forall_mem_cons,
    List.forall_mem_singleton, Option.isNone_iff_eq_none,
    Option.isNone_iff_eq_none]

theorem memberOutcomes_of_hasNoMember (hnone : HasNoMember file document) :
    memberOutcomes file label document = [] := by
  rw [memberOutcomes, List.flatMap_eq_nil_iff]
  rintro ⟨key, scope⟩ hmem
  have hfind := hnone _ hmem
  dsimp only at hfind ⊢
  rw [hfind]

theorem HasIllTypedMember.not_hasNoMember
    (hmember : HasIllTypedMember file document) :
    ¬HasNoMember file document := by
  intro hnone
  obtain ⟨member, hmem, value, hfind, -⟩ := hmember
  rw [hnone member hmem] at hfind
  cases hfind

theorem isAccountedFor_of_mem_memberOutcomes :
    ∀ outcome ∈ memberOutcomes file label document, IsAccountedFor outcome := by
  intro outcome hmem
  obtain ⟨⟨key, scope⟩, -, houtcome⟩ := List.mem_flatMap.mp hmem
  dsimp only at houtcome
  split at houtcome
  · exact isAccountedFor_of_mem_entryOutcomes outcome houtcome
  · cases houtcome

/-- A reading of a file: an entry of its members, or a warning about one. -/
def IsMemberReading (file : ComposerFile) (label : String) (document : Json)
    (reading : Reading) : Prop :=
  (reading.warnings = [] ∧
      reading.outcome ∈ memberOutcomes file label document) ∨
    reading.outcome = .ignored

theorem not_throws_of_isMemberReading {reading : Reading}
    (h : IsMemberReading file label document reading) : ¬reading.Throws := by
  rw [Reading.Throws]
  rcases h with ⟨-, hmem⟩ | hignored
  · rcases isAccountedFor_of_mem_memberOutcomes _ hmem with
      ⟨component, h⟩ | h | h <;> simp [h]
  · simp [hignored]

theorem entries_lockManifest (label : String) (document : Json) :
    (lockManifest label document).entries =
      (memberOutcomes .lock label document).map
        fun outcome => { outcome := outcome } := by
  have hreadings : ∀ scope key, packageReadings label scope document key =
        (match document.find? key with
          | some member => ComposerFile.lock.entryOutcomes label scope member
          | none => []).map fun outcome => { outcome := outcome } := by
    intro scope key
    rw [packageReadings]
    rcases document.find? key with _ | member
    · rfl
    · cases member <;> simp [ComposerFile.entryOutcomes]
  rw [lockManifest]
  split_ifs with hmissing
  · rw [memberOutcomes_of_hasNoMember (hasNoMember_lock_iff.mpr hmissing)]
    rfl
  · rw [memberOutcomes, ComposerFile.members, List.flatMap_cons,
      List.flatMap_cons, List.flatMap_nil, List.append_nil, List.map_append,
      ← hreadings, ← hreadings]

/-- The readings of a manifest are its entries, and a warning for a member of
another type. -/
theorem requirementReadings_spec (label : String) (scope : Scope)
    (document : Json) (key : String) :
    (requirementReadings label scope document key).filterMap
          Reading.emission? =
        (match document.find? key with
          | some member => ComposerFile.json.entryOutcomes label scope member
          | none => []).filterMap
            (fun outcome => Reading.emission? { outcome := outcome }) ∧
      (requirementReadings label scope document key).filterMap Reading.skip? =
        (match document.find? key with
          | some member => ComposerFile.json.entryOutcomes label scope member
          | none => []).filterMap
            (fun outcome => Reading.skip? { outcome := outcome }) := by
  rw [requirementReadings]
  rcases document.find? key with _ | member
  · exact ⟨rfl, rfl⟩
  · cases member <;>
      simp [ComposerFile.entryOutcomes, Reading.emission?, Reading.skip?,
        List.filterMap_map, Function.comp_def]

theorem filterMap_entries (file : ComposerFile) (label : String)
    (document : Json) :
    (file.manifest label document).entries.filterMap Reading.emission? =
        (memberOutcomes file label document).filterMap
          (fun outcome => Reading.emission? { outcome := outcome }) ∧
      (file.manifest label document).entries.filterMap Reading.skip? =
        memberSkips file label document := by
  rw [memberSkips]
  cases file with
  | lock =>
    rw [ComposerFile.manifest, entries_lockManifest, List.filterMap_map,
      List.filterMap_map]
    exact ⟨rfl, rfl⟩
  | json =>
    obtain ⟨hemit, hskip⟩ :=
      requirementReadings_spec label .required document "require"
    obtain ⟨hemitDev, hskipDev⟩ :=
      requirementReadings_spec label .excluded document "require-dev"
    rw [memberOutcomes, ComposerFile.members, List.flatMap_cons,
      List.flatMap_cons, List.flatMap_nil, List.append_nil,
      List.filterMap_append, List.filterMap_append, ← hemit, ← hskip,
      ← hemitDev, ← hskipDev]
    exact ⟨List.filterMap_append, List.filterMap_append⟩

theorem isMemberReading_of_mem : ∀ reading ∈
    (file.manifest label document).entries,
      IsMemberReading file label document reading := by
  intro reading hmem
  cases file with
  | lock =>
    rw [ComposerFile.manifest, entries_lockManifest] at hmem
    obtain ⟨outcome, houtcome, rfl⟩ := List.mem_map.mp hmem
    exact .inl ⟨rfl, houtcome⟩
  | json =>
    obtain ⟨key, scope, hkey, hreading⟩ : ∃ key scope,
        (key, scope) ∈ ComposerFile.json.members ∧
          reading ∈ requirementReadings label scope document key := by
      rcases List.mem_append.mp hmem with h | h
      · exact ⟨_, _, .head _, h⟩
      · exact ⟨_, _, .tail _ (.head _), h⟩
    rw [requirementReadings] at hreading
    rcases hfind : document.find? key with _ | member
    · rw [hfind] at hreading
      cases hreading
    rw [hfind] at hreading
    cases member with
    | object requirements =>
      obtain ⟨⟨name, constraint⟩, hrequirement, rfl⟩ :=
        List.mem_map.mp hreading
      refine .inl ⟨rfl, List.mem_flatMap.mpr ⟨_, hkey, ?_⟩⟩
      dsimp only
      rw [hfind]
      exact List.mem_map.mpr ⟨(name, constraint), hrequirement, rfl⟩
    | _ => exact .inr (by rw [List.mem_singleton.mp hreading])

theorem ownIdentity_manifest (file : ComposerFile) (label : String)
    (document : Json) :
    (file.manifest label document).ownIdentity = none := by
  cases file with
  | lock =>
    rw [ComposerFile.manifest, lockManifest]
    split_ifs <;> rfl
  | json => rfl

/-! ## Warnings of a run -/

theorem count_memberSkips_lock {reason : SkipReason}
    (hmem : reason ∈ memberSkips .lock label document) :
    (memberSkips .lock label document).count reason =
      (memberSkips .lock label document).length := by
  have hmalformed : ∀ reason ∈ memberSkips .lock label document,
      reason = .malformed := by
    intro reason hmem
    obtain ⟨outcome, houtcome, hreason⟩ := List.mem_filterMap.mp hmem
    obtain ⟨⟨key, scope⟩, -, hentries⟩ := List.mem_flatMap.mp houtcome
    dsimp only at hentries
    rcases hfind : document.find? key with _ | member <;>
      rw [hfind] at hentries
    · cases hentries
    cases member with
    | array packages =>
      obtain ⟨entry, -, rfl⟩ := List.mem_map.mp hentries
      exact skip?_readEntry hreason
    | _ => cases hentries
  rw [List.count_eq_length]
  intro other hother
  rw [hmalformed _ hmem, hmalformed _ hother]

/-- The skipped entries are counted in a warning behind the entries. -/
theorem exists_isCountOf {reason : SkipReason}
    (hmem : reason ∈ memberSkips file label document) :
    ∃ warning ∈ (file.manifest label document).summary false
        ((file.manifest label document).entries.filterMap Reading.skip?),
      IsCountOf ((memberSkips file label document).count reason) warning := by
  rw [(filterMap_entries file label document).2]
  cases file with
  | lock =>
    rw [count_memberSkips_lock hmem]
    have hpresent : ¬HasNoMember .lock document := by
      intro hnone
      rw [memberSkips, memberOutcomes_of_hasNoMember hnone] at hmem
      cases hmem
    rw [hasNoMember_lock_iff] at hpresent
    generalize memberSkips .lock label document = skips at hmem ⊢
    rw [ComposerFile.manifest, lockManifest, if_neg hpresent]
    dsimp only
    rw [if_neg (List.ne_nil_of_mem hmem)]
    exact ⟨_, .head _, rfl, _, by rw [warning, String.append_assoc]⟩
  | json =>
    have haccounted : reason = .unresolved ∨ reason = .malformed := by
      obtain ⟨outcome, houtcome, hreason⟩ := List.mem_filterMap.mp hmem
      rcases isAccountedFor_of_mem_memberOutcomes _ houtcome with
        ⟨component, rfl⟩ | rfl | rfl
      · cases hreason
      · exact .inl (Option.some.inj hreason).symm
      · exact .inr (Option.some.inj hreason).symm
    generalize memberSkips .json label document = skips at hmem ⊢
    have hcounted : ∀ message : String, ∃ warning ∈
        skipWarning skips reason message label,
          IsCountOf (skips.count reason) warning := by
      intro message
      rw [skipWarning, if_neg (List.count_pos_iff.mpr hmem).ne']
      exact ⟨_, .head _, rfl, _, by rw [warning, String.append_assoc]⟩
    rcases haccounted with rfl | rfl
    · obtain ⟨warning, hin, hcount⟩ := hcounted _
      exact ⟨warning, List.mem_append_left _ hin, hcount⟩
    · obtain ⟨warning, hin, hcount⟩ := hcounted _
      exact ⟨warning, List.mem_append_right _ hin, hcount⟩

/-- A manifest warns about a member of another type. -/
theorem exists_malformedEntrySkipped
    (hmember : HasIllTypedMember .json document) :
    ∃ reading ∈ (jsonManifest label document).entries,
      ∃ warning ∈ reading.warnings, warning.code = .malformedEntrySkipped := by
  obtain ⟨⟨key, scope⟩, hkey, value, hfind, htype⟩ := hmember
  obtain ⟨reading, hreading, hwarning⟩ : ∃ reading ∈
      requirementReadings label scope document key,
        ∃ warning ∈ reading.warnings,
          warning.code = .malformedEntrySkipped := by
    rw [requirementReadings, hfind]
    cases value with
    | object requirements => cases htype
    | _ => exact ⟨_, .head _, _, .head _, rfl⟩
  refine ⟨reading, ?_, hwarning⟩
  rcases hkey with _ | ⟨_, _ | ⟨_, ⟨⟩⟩⟩
  · exact List.mem_append_left _ hreading
  · exact List.mem_append_right _ hreading

theorem warnings_lockManifest_of_hasNoMember
    (hmember : HasNoMember .lock document) :
    ∃ warning ∈ (lockManifest label document).warnings,
      warning.code = .malformedEntrySkipped := by
  rw [lockManifest, if_pos (hasNoMember_lock_iff.mp hmember)]
  exact ⟨_, .head _, rfl⟩

/-- No entry of a lock, and no count of its entries, is warned about as
malformed. -/
theorem code_ne_malformedEntrySkipped
    (hmember : HasIllTypedMember .lock document) (ecosystem : String)
    (skipped : List SkipReason) :
    ∀ warning ∈ (lockManifest label document).warnings ++
        ((lockManifest label document).entries.flatMap fun reading =>
          reading.warnings ++ reading.purlWarnings ecosystem) ++
        (lockManifest label document).summary false skipped,
      warning.code ≠ .malformedEntrySkipped := by
  have hpresent := hmember.not_hasNoMember
  rw [hasNoMember_lock_iff] at hpresent
  intro warning hmem
  rw [List.mem_append, List.mem_append] at hmem
  rcases hmem with (hown | hentry) | hsummary
  · rw [lockManifest, if_neg hpresent] at hown
    cases hown
  · obtain ⟨reading, hreading, hwarning⟩ := List.mem_flatMap.mp hentry
    rw [entries_lockManifest] at hreading
    obtain ⟨outcome, -, rfl⟩ := List.mem_map.mp hreading
    rw [List.nil_append, Reading.purlWarnings] at hwarning
    split at hwarning
    · split_ifs at hwarning
      · cases hwarning
      · rw [List.mem_singleton.mp hwarning]
        exact WarningCode.noConfusion
    · cases hwarning
  · rw [lockManifest, if_neg hpresent] at hsummary
    dsimp only at hsummary
    split_ifs at hsummary
    · cases hsummary
    · rw [List.mem_singleton.mp hsummary]
      exact WarningCode.noConfusion

theorem dropsNothing_of_expected
    (hexpected : file = .lock → ¬HasIllTypedMember file document) :
    DropsNothing file label document := by
  intro limit state hbudget
  have hown := ownIdentity_manifest file label document
  have hthrows := fun reading hmem => not_throws_of_isMemberReading
    (@isMemberReading_of_mem file label document reading hmem)
  obtain ⟨behind, -, hparse, hemitted, -⟩ :=
    @parseManifest_of_budget "composer" limit _ hown hthrows _ hbudget
  have hwarnings := parseManifest_warnings hown hthrows hbudget hparse
  rw [List.append_assoc, List.append_assoc] at hwarnings
  rw [(filterMap_entries file label document).1] at hemitted
  refine ⟨behind, _, hparse, hemitted, hwarnings,
    isAccountedFor_of_mem_memberOutcomes, ?_, ?_, ?_⟩
  · intro reason hreason
    obtain ⟨warning, hmem, hcount⟩ := exists_isCountOf hreason
    exact ⟨warning,
      List.mem_append_right _ (List.mem_append_right _ hmem), hcount⟩
  · intro hmember
    cases file with
    | lock => exact absurd hmember (hexpected rfl)
    | json =>
      obtain ⟨reading, hreading, warning, hmem, hcode⟩ :=
        @exists_malformedEntrySkipped label _ hmember
      exact ⟨warning, List.mem_append_right _ (List.mem_append_left _
        (List.mem_flatMap.mpr
          ⟨reading, hreading, List.mem_append_left _ hmem⟩)), hcode⟩
  · rintro rfl hnone
    obtain ⟨warning, hmem, hcode⟩ :=
      @warnings_lockManifest_of_hasNoMember label _ hnone
    exact ⟨warning, List.mem_append_left _ hmem, hcode⟩

theorem not_hasIllTypedMember_of_dropsNothing
    (hdrops : DropsNothing file label document) (hlock : file = .lock) :
    ¬HasIllTypedMember file document := by
  subst hlock
  intro hmember
  obtain ⟨behind, raised, hparse, -, hraised, -, -, hwarned, -⟩ :=
    hdrops 0
      { packageBudget := (lockManifest label document).entries.length } le_rfl
  obtain ⟨warning, hmem, hcode⟩ := hwarned hmember
  have hown := ownIdentity_manifest .lock label document
  have hthrows := fun reading hmem => not_throws_of_isMemberReading
    (@isMemberReading_of_mem .lock label document reading hmem)
  have hwarnings := parseManifest_warnings hown hthrows le_rfl hparse
  rw [hraised, List.append_assoc, List.append_assoc,
    List.append_cancel_left_eq, ← List.append_assoc] at hwarnings
  rw [hwarnings] at hmem
  exact code_ne_malformedEntrySkipped hmember _ _ warning hmem hcode

/-- Nothing is dropped silently, except a member of a lock that is there and
is no array. -/
theorem dropsNothing_iff (file : ComposerFile) (label : String)
    (document : Json) :
    DropsNothing file label document ↔
      (file = .lock → ¬HasIllTypedMember file document) :=
  ⟨not_hasIllTypedMember_of_dropsNothing, dropsNothing_of_expected⟩

/-- A lock whose packages are an object. -/
theorem not_dropsNothing_packages_object :
    ¬DropsNothing .lock "composer.lock"
      (.object [("packages", .object [])]) := by
  intro hdrops
  exact not_hasIllTypedMember_of_dropsNothing hdrops rfl
    ⟨_, .head _, .object [], rfl, rfl⟩

end Accounts

/-! ## The run -/

/-- The files that are opened: every lock, and outside of installed packages
every manifest that has no lock beside it. -/
def isComposerFile (files : List FsPath) (path : FsPath) : Bool :=
  path.filename = composerLockName ||
    path.filename = composerJsonName &&
      !(files.any fun other => other.filename = composerLockName ∧
        other.parentPath = path.parentPath) &&
      !isInsideInstalledDependencies path

def ComposerFile.ofPath (path : FsPath) : ComposerFile :=
  if path.filename = composerLockName then .lock else .json

section Run

variable (parseJson : List UInt8 → Option Json) (options : ParseOptions)
  (contents : FsPath → Option (List UInt8)) (files : List FsPath)

def composerProducer : Producer where
  ecosystem := "composer"
  fileKind := "composer"
  accepts := isComposerFile files
  keepsFirstPart _ := false
  manifest path := documentManifest parseJson
    (ComposerFile.ofPath path).manifest path.genericString

/-- `parse`, over the files of an index. -/
def parseIndexed : Option (Result (List Component)) :=
  (parseUnmerged (composerProducer parseJson files) options contents files).map
    fun state =>
      { value := mergedResult (state.emitted.map Emission.component)
        warnings := state.warnings
        complete := state.complete }

end Run

/-- A valid entry has a component of the producer. -/
def IsReadEntry (outcome : Outcome) : Prop :=
  IsAccountedFor outcome ∧ ∀ component, outcome = .valid (some component) →
    IsEmitted (canonicalized component)

theorem isReadEntry_of_mem_entryOutcomes {file : ComposerFile} {label : String}
    {scope : Scope} {member : Json} {outcome : Outcome}
    (hmem : outcome ∈ file.entryOutcomes label scope member) :
    IsReadEntry outcome := by
  refine ⟨isAccountedFor_of_mem_entryOutcomes outcome hmem, ?_⟩
  rintro component rfl
  cases file with
  | lock =>
    cases member with
    | array packages =>
      obtain ⟨entry, -, hread⟩ := List.mem_map.mp hmem
      exact isEmitted_readEntry hread
    | _ => cases hmem
  | json =>
    cases member with
    | object requirements =>
      obtain ⟨⟨name, constraint⟩, -, hread⟩ := List.mem_map.mp hmem
      exact isEmitted_readRequirement hread
    | _ => cases hmem

theorem isReadEntry_of_mem (file : ComposerFile) (label : String)
    (document : Json) :
    ∀ reading ∈ (file.manifest label document).entries,
      Unlimited reading.warnings ∧
        (IsReadEntry reading.outcome ∨ reading.outcome = .ignored) := by
  intro reading hmem
  cases file with
  | lock =>
    rw [ComposerFile.manifest, entries_lockManifest] at hmem
    obtain ⟨outcome, houtcome, rfl⟩ := List.mem_map.mp hmem
    obtain ⟨⟨key, scope⟩, -, hentries⟩ := List.mem_flatMap.mp houtcome
    refine ⟨unlimited_nil, .inl ?_⟩
    dsimp only at hentries
    split at hentries
    · exact isReadEntry_of_mem_entryOutcomes hentries
    · cases hentries
  | json =>
    obtain ⟨key, scope, hreading⟩ : ∃ key scope,
        reading ∈ requirementReadings label scope document key := by
      rcases List.mem_append.mp hmem with h | h
      · exact ⟨_, _, h⟩
      · exact ⟨_, _, h⟩
    rw [requirementReadings] at hreading
    split at hreading
    · cases hreading
    · obtain ⟨⟨name, constraint⟩, hrequirement, rfl⟩ :=
        List.mem_map.mp hreading
      exact ⟨unlimited_nil, .inl (@isReadEntry_of_mem_entryOutcomes .json _ _
        (.object _) _ (List.mem_map.mpr ⟨_, hrequirement, rfl⟩))⟩
    · rw [List.mem_singleton.mp hreading]
      exact ⟨unlimited_singleton rfl, .inr rfl⟩

/-- What the loops rely on. -/
structure IsComposerManifest (manifest : Manifest) : Prop where
  unlimited : manifest.IsUnlimited
  ownIdentity : manifest.ownIdentity = none
  entries : ∀ reading ∈ manifest.entries,
    IsReadEntry reading.outcome ∨ reading.outcome = .ignored

theorem isComposerManifest_warning {code : WarningCode}
    (hcode : isLimitCode code = false) (message : String) :
    IsComposerManifest { warnings := [warning code message] } :=
  ⟨⟨unlimited_singleton hcode, by simp, fun _ _ => unlimited_nil⟩, rfl, by simp⟩

theorem unlimited_composerSkips (skipped : List SkipReason) (reason : SkipReason)
    (message label : String) :
    Unlimited (skipWarning skipped reason message label) := by
  rw [skipWarning]
  split_ifs
  · exact unlimited_nil
  · exact unlimited_singleton rfl

theorem isComposerManifest_manifest (file : ComposerFile) (label : String)
    (document : Json) : IsComposerManifest (file.manifest label document) := by
  have hentries := isReadEntry_of_mem file label document
  refine ⟨⟨?_, fun reading hmem => (hentries reading hmem).1, ?_⟩,
    ownIdentity_manifest file label document,
    fun reading hmem => (hentries reading hmem).2⟩
  · cases file with
    | lock =>
      rw [ComposerFile.manifest, lockManifest]
      split_ifs
      · exact unlimited_singleton rfl
      · exact unlimited_nil
    | json => exact unlimited_nil
  · intro _ skipped
    cases file with
    | lock =>
      rw [ComposerFile.manifest, lockManifest]
      split_ifs
      · exact unlimited_nil
      · dsimp only
        split_ifs
        · exact unlimited_nil
        · exact unlimited_singleton rfl
    | json =>
      exact unlimited_append (unlimited_composerSkips _ _ _ _)
        (unlimited_composerSkips _ _ _ _)

theorem isComposerManifest_documentManifest
    (parseJson : List UInt8 → Option Json) (file : ComposerFile)
    (label : String) (bytes : List UInt8) :
    IsComposerManifest
      (documentManifest parseJson file.manifest label bytes) := by
  unfold documentManifest
  dsimp only
  split_ifs
  · exact isComposerManifest_warning rfl _
  · split
    · exact isComposerManifest_warning rfl _
    · exact isComposerManifest_manifest ..

end Bomwerk.Lockfiles.Composer
