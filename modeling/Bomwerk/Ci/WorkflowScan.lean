import Bomwerk.Ci.GithubActions
import Bomwerk.Core.GitPurl
import Bomwerk.Lockfiles.Producer

/-!
# The workflow files of a scan

`parse` of `parsers/ci/github_actions.cpp`: the loop over the files of the index
and its limits.
-/

namespace Bomwerk.Ci.GithubActions

open Bomwerk.Core
open Bomwerk.Lockfiles (readFileBounded)

structure ParseOptions where
  maxFileBytes : Nat := 1024 * 1024
  maxScannedFiles : Nat := 10000
  maxTotalUsesReferences : Nat := 20000

def isWorkflowFile (relativePath : FsPath) : Bool :=
  relativePath.parentPath = .ofString ".github/workflows" ∧
    (relativePath.extension = ".yml" ∨ relativePath.extension = ".yaml")

def ScanState.warn (state : ScanState) (code : WarningCode)
    (message : List Char) : ScanState :=
  { state with warnings := state.warnings ++ [actionsWarning code message] }

section Run

variable (options : ParseOptions) (contents : FsPath → Option (List UInt8))

def scanFile (path : FsPath) (state : ScanState) : ScanState :=
  let label := utf8Text path.genericString
  let fileRead := readFileBounded (contents path) options.maxFileBytes
  if fileRead.readable then
    scanWorkflowFile (byteText fileRead.bytes) label
      (if fileRead.truncated then
        state.warn .fileSizeLimitExceeded
          ('\'' :: label ++ "' exceeds the ".toList ++
            (toString options.maxFileBytes).toList ++
            "-byte cap; only the first part scanned".toList)
      else state)
  else state.warn .unreadableFile ("unreadable file: ".toList ++ label)

def scanFiles : List FsPath → (scannedFileCount : Nat) → ScanState → ScanState
  | [], _, state => state
  | path :: paths, scannedFileCount, state =>
    if !isWorkflowFile path then scanFiles paths scannedFileCount state
    else if options.maxScannedFiles ≤ scannedFileCount then
      state.warn .fileLimitReached
        "file limit reached; remaining workflow files skipped".toList
    else
      scanFiles paths (scannedFileCount + 1) (scanFile options contents path state)

def parse (files : List FsPath) : Result (List Component) :=
  let state := scanFiles options contents files 0
    { usesBudget := options.maxTotalUsesReferences }
  { value := mergeAll state.components, warnings := state.warnings }

end Run

/-! ## What the limits leave out -/

/-- The codes of what is left out by a limit, or cannot be read. -/
def IsLimit (code : WarningCode) : Prop :=
  code = .entryLimitReached ∨ code = .fileLimitReached ∨
    code = .fileSizeLimitExceeded ∨ code = .unreadableFile

def ScanState.IsLimited (state : ScanState) : Prop :=
  ∃ warning ∈ state.warnings, IsLimit warning.code

/-- The component of the value of a `uses` line, if it has one. -/
def valueComponents (label value : List Char) : List Component :=
  if value = [] then [] else (componentFromUsesReference value label).1.toList

def fileComponents (path : FsPath) (bytes : List UInt8) : List Component :=
  ((readings none ((withoutUtf8Bom (byteText bytes)).splitOn '\n')).filterMap
    LineReading.usesValue?).flatMap
      (valueComponents (utf8Text path.genericString))

/-- The reference budget ran out with a warning. -/
def ScanState.IsExcused (state : ScanState) : Prop :=
  state.budgetWarned = true → state.IsLimited

/-- What a part of the run adds: some of the components at hand, and all that
there are unless a limit is reported. -/
structure Scans (before after : ScanState) (atHand whole : List Component) :
    Prop where
  limited : before.IsLimited → after.IsLimited
  excused : before.IsExcused → after.IsExcused
  budget : after.components.length + after.usesBudget ≤
    before.components.length + before.usesBudget
  added : before.IsExcused → ∃ kept, kept.Sublist atHand ∧
    after.components = before.components ++ kept ∧
      (after.IsLimited ∨ kept = whole)

theorem Scans.refl (state : ScanState) : Scans state state [] [] :=
  ⟨id, id, le_refl _, fun _ => ⟨[], .slnil, by simp, .inr rfl⟩⟩

theorem Scans.trans {first second third : ScanState}
    {atHand atHand' whole whole' : List Component}
    (h : Scans first second atHand whole)
    (h' : Scans second third atHand' whole') :
    Scans first third (atHand ++ atHand') (whole ++ whole') := by
  refine ⟨h'.limited ∘ h.limited, h'.excused ∘ h.excused,
    h'.budget.trans h.budget, fun hfirst => ?_⟩
  obtain ⟨kept, hkept, hsecond, hall⟩ := h.added hfirst
  obtain ⟨kept', hkept', hthird, hall'⟩ := h'.added (h.excused hfirst)
  refine ⟨kept ++ kept', hkept.append hkept', ?_, ?_⟩
  · rw [hthird, hsecond, List.append_assoc]
  · rcases hall, hall' with ⟨hlimited | rfl, hlimited' | rfl⟩
    · exact .inl hlimited'
    · exact .inl (h'.limited hlimited)
    · exact .inl hlimited'
    · exact .inr rfl

theorem isLimited_append {before after : ScanState} {more : List Warning}
    (hafter : after.warnings = before.warnings ++ more)
    (hbefore : before.IsLimited) : after.IsLimited := by
  obtain ⟨warning, hmem, hlimit⟩ := hbefore
  exact ⟨warning, hafter ▸ List.mem_append_left _ hmem, hlimit⟩

/-- A reported limit excuses whatever is missing. -/
theorem Scans.of_limited {before cut after : ScanState}
    {found whole atHand other : List Component}
    (h : Scans cut after found whole) (hfound : found.Sublist atHand)
    (hlimited : cut.IsLimited) (hbudget : cut.usesBudget = before.usesBudget)
    (hcomponents : cut.components = before.components) :
    Scans before after atHand other := by
  have hafter := h.limited hlimited
  obtain ⟨kept, hkept, hadded, -⟩ := h.added fun _ => hlimited
  refine ⟨fun _ => hafter, fun _ _ => hafter, ?_, fun _ =>
    ⟨kept, hkept.trans hfound, hcomponents ▸ hadded, .inl hafter⟩⟩
  rw [← hbudget, ← hcomponents]
  exact h.budget

theorem isLimited_warn {code : WarningCode} (hcode : IsLimit code)
    (state : ScanState) (message : List Char) :
    (state.warn code message).IsLimited :=
  ⟨_, List.mem_append_right _ (List.mem_singleton_self _), hcode⟩

theorem scans_recordUses (label value : List Char) (state : ScanState) :
    Scans state (recordUses label state value) (valueComponents label value)
      (valueComponents label value) := by
  unfold recordUses valueComponents
  split_ifs with hvalue hbudget hwarned
  · exact ⟨isLimited_append rfl, fun h hwarned =>
      isLimited_append rfl (h hwarned), le_refl _, fun _ =>
        ⟨[], .slnil, by simp, .inr rfl⟩⟩
  · exact ⟨id, id, le_refl _, fun h =>
      ⟨[], List.nil_sublist _, by simp, .inl (h hwarned)⟩⟩
  · refine (Scans.refl _).of_limited (List.nil_sublist _) ?_ rfl rfl
    exact ⟨_, List.mem_append_right _ (List.mem_singleton_self _), .inl rfl⟩
  · refine ⟨isLimited_append rfl, fun h hwarned =>
      isLimited_append rfl (h hwarned), ?_, fun _ =>
        ⟨_, .refl _, rfl, .inr rfl⟩⟩
    have hlength :
        (componentFromUsesReference value label).1.toList.length ≤ 1 := by
      cases (componentFromUsesReference value label).1 <;> simp
    simp only [List.length_append]
    omega

theorem scans_foldl_recordUses (label : List Char) (values : List (List Char))
    (state : ScanState) :
    Scans state (values.foldl (recordUses label) state)
      (values.flatMap (valueComponents label))
      (values.flatMap (valueComponents label)) := by
  induction values generalizing state with
  | nil => exact .refl state
  | cons value values ih =>
    exact (scans_recordUses label value state).trans (ih _)

theorem scans_scanFile (options : ParseOptions)
    (contents : FsPath → Option (List UInt8)) (path : FsPath)
    (state : ScanState) :
    Scans state (scanFile options contents path state)
      (fileComponents path (((contents path).getD []).take
        options.maxFileBytes))
      (fileComponents path ((contents path).getD [])) := by
  unfold scanFile readFileBounded
  cases contents path with
  | none =>
    exact (Scans.refl _).of_limited (List.nil_sublist _)
      (isLimited_warn (.inr (.inr (.inr rfl))) ..) rfl rfl
  | some bytes =>
    have hpart : ∀ bytes state, Scans state
        (scanWorkflowFile (byteText bytes) (utf8Text path.genericString) state)
        (fileComponents path bytes) (fileComponents path bytes) := by
      intro bytes state
      rw [scanWorkflowFile, scanLines_eq_foldl]
      exact scans_foldl_recordUses ..
    simp only [if_true, Option.getD_some]
    by_cases hlong : options.maxFileBytes < bytes.length
    · rw [if_pos (decide_eq_true hlong)]
      exact (hpart _ _).of_limited (.refl _)
        (isLimited_warn (.inr (.inr (.inl rfl))) ..) rfl rfl
    · rw [if_neg (by simpa using hlong),
        List.take_of_length_le (not_lt.mp hlong)]
      exact hpart bytes state

theorem scans_scanFiles (options : ParseOptions)
    (contents : FsPath → Option (List UInt8)) (paths : List FsPath)
    (scannedFileCount : Nat) (state : ScanState) :
    Scans state (scanFiles options contents paths scannedFileCount state)
      ((paths.filter isWorkflowFile).flatMap fun path =>
        fileComponents path (((contents path).getD []).take
          options.maxFileBytes))
      ((paths.filter isWorkflowFile).flatMap fun path =>
        fileComponents path ((contents path).getD [])) := by
  induction paths generalizing scannedFileCount state with
  | nil => exact .refl state
  | cons path paths ih =>
    rw [scanFiles]
    by_cases haccepted : isWorkflowFile path = true
    · rw [List.filter_cons_of_pos haccepted]
      simp only [haccepted, Bool.not_true, Bool.false_eq_true, if_false]
      split_ifs
      · exact (Scans.refl _).of_limited (List.nil_sublist _)
          (isLimited_warn (.inr (.inl rfl)) ..) rfl rfl
      · exact (scans_scanFile options contents path state).trans (ih _ _)
    · rw [List.filter_cons_of_neg haccepted]
      simpa [haccepted] using ih scannedFileCount state

theorem settleRef_purlRef (parsed : ActionReference) :
    containsUnresolvedExpression (settleRef parsed).purlRef = false ∧
      ((settleRef parsed).purlRef = [] ∨
        (settleRef parsed).purlRef = (settleRef parsed).version) := by
  unfold settleRef
  split_ifs with hunpinned hid
  · exact ⟨by simp [containsUnresolvedExpression], .inl rfl⟩
  · refine ⟨decide_eq_false fun hpart => ?_, .inr rfl⟩
    exact notMem_normalizedObjectId (by decide) (by decide) hid
      (hpart.subset List.mem_cons_self)
  · simp only [not_or] at hunpinned
    exact ⟨by simpa using hunpinned.2.2, .inr rfl⟩

/-- The purl of an action parses to itself, and its version is the ref. -/
theorem buildGithubActionPurl_spec (owner repo refForPurl : List Char) :
    let purl := String.ofList (buildGithubActionPurl owner repo refForPurl)
    parsePurl purl = { value := purl } ∧
      (purlVersionOf purl).toList = percentEncodeText refForPurl := by
  set path := percentEncodePurlNamespace (owner.map toLowerAsciiChar) ++
    '/' :: percentEncodeText (repo.map toLowerAsciiChar) with hpath
  set version? := if refForPurl = [] then none else some refForPurl with hversion
  have hmark : versionSuffix refForPurl = versionMark version? := by
    rw [versionSuffix, hversion]
    split_ifs <;> rfl
  have hencoded : ∀ c ∈ path, IsEncodedCharacter c ∨ c = '/' := by
    intro c hc
    rw [hpath, List.mem_append, List.mem_cons] at hc
    rcases hc with hc | rfl | hc
    · exact of_mem_percentEncodePurlNamespace hc
    · exact .inr rfl
    · exact .inl (isEncodedCharacter_of_mem_percentEncodeText hc)
  have htext : buildGithubActionPurl owner repo refForPurl =
      purlText "github".toList (path ++ versionMark version?) := by
    have hscheme : "pkg:github/".toList =
        "pkg:".toList ++ "github".toList ++ ['/'] := by decide
    unfold buildGithubActionPurl purlText
    rw [hscheme, hmark, hpath]
    generalize "pkg:".toList = scheme
    generalize "github".toList = type
    simp only [List.append_assoc, List.cons_append, List.nil_append]
  have htype : IsPurlType "github".toList :=
    isPurlType_of_all (by decide) (by decide)
  have hblank : (path ++ versionMark version?).any isAsciiWhitespace =
      false := by
    refine not_any_isAsciiWhitespace ['/', '@'] (by decide) fun c hc => ?_
    rcases List.mem_append.mp hc with hc | hc
    · exact (hencoded c hc).imp_right (by simp +contextual)
    · exact (of_mem_versionMark hc).imp_right (by simp +contextual)
  have hat : '@' ∉ path := fun hmem => absurd (hencoded _ hmem) (by decide)
  intro purl
  simp only [purl, htext]
  rw [parsePurl_purlText htype hblank, if_neg (by simp [hpath]),
    purlVersionOf_purlText htype hat]
  refine ⟨rfl, ?_⟩
  rw [hversion]
  split_ifs with hempty
  · rw [hempty]
    rfl
  · rfl

/-- Whatever a `uses` line says, the purl that is made of it parses to itself, so
the warning about an unparsable one is never raised, and no unresolved
expression gets into its version. -/
theorem componentFromUsesReference_purl (rawValue sourceLabel : List Char) :
    (∀ component ∈ (componentFromUsesReference rawValue sourceLabel).1,
      parsePurl component.purl = { value := component.purl } ∧
        ∃ ref, containsUnresolvedExpression ref = false ∧
          (ref = [] ∨ String.ofList ref = component.version) ∧
          (purlVersionOf component.purl).toList = percentEncodeText ref) ∧
    ∀ warning ∈ (componentFromUsesReference rawValue sourceLabel).2,
      warning.code ≠ .purlValidationFailed := by
  unfold componentFromUsesReference
  dsimp only
  set parsed := splitActionReference rawValue
  obtain ⟨hparses, hversion⟩ := buildGithubActionPurl_spec parsed.owner
    parsed.repo (settleRef parsed).purlRef
  obtain ⟨hresolved, hshown⟩ := settleRef_purlRef parsed
  cases classifyUsesTarget rawValue parsed.owner with
  | localAction => simp
  | dockerAction => simp
  | unresolvableOwner => simp [skippedReference, actionsWarning]
  | githubAction =>
    dsimp only
    rw [hparses, if_pos rfl, List.append_nil]
    split_ifs
    · simp [skippedReference, actionsWarning]
    · constructor
      · intro component hcomponent
        obtain rfl := Option.some.inj hcomponent
        exact ⟨hparses, _, hresolved, hshown.imp_right (congrArg _), hversion⟩
      · simp only [refWarnings]
        split_ifs <;> simp [actionsWarning]

end Bomwerk.Ci.GithubActions
