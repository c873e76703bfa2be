import Bomwerk.Lockfiles.Maven
import Bomwerk.Lockfiles.Npm
import Mathlib.Data.List.Basic

/-!
# Limits

The limits of the lockfile producers against the files they are given: which
entries get through, and what a run says about those it leaves out.
-/

namespace Bomwerk.Lockfiles

open Bomwerk.Core

/-! ## Entries that get through -/

/-- The component of a valid entry, as it is emitted; nothing for any other
entry. -/
def Reading.validEntry? (reading : Reading) : Option (Option Component) :=
  match reading.outcome with
  | .valid component => some (component.map canonicalized)
  | _ => none

def validEntries (readings : List Reading) : List (Option Component) :=
  readings.filterMap Reading.validEntry?

/-- The JSON library throws on an entry that is read while `budget` more may
be emitted. -/
def throwsWithin : (budget : Nat) → List Reading → Bool
  | _, [] => false
  | budget, reading :: readings =>
    match reading.outcome with
    | .thrown => true
    | .valid none => budget ≠ 0
    | .valid (some _) => budget ≠ 0 && throwsWithin (budget - 1) readings
    | _ => throwsWithin budget readings

/-- The emitted components, without what the files are themselves. -/
def ParseState.dependencies (state : ParseState) : List Component :=
  (state.emitted.filter fun emission => !emission.ownIdentity).map
    Emission.component

def isLimitCode (code : WarningCode) : Bool :=
  code = .entryLimitReached ∨ code = .fileLimitReached ∨
    code = .fileSizeLimitExceeded

/-- Warnings about something else than a limit. -/
def Unlimited (warnings : List Warning) : Prop :=
  ∀ warning ∈ warnings, isLimitCode warning.code = false

def countLimitWarnings (warnings : List Warning) : Nat :=
  warnings.countP fun warning => warning.code = .entryLimitReached

/-- The state after some valid entries have been come across. -/
structure Accounted (limit : Nat) (seen : List (Option Component))
    (state : ParseState) : Prop where
  dependencies : state.dependencies.map some = seen.take limit
  packageBudget : state.packageBudget = limit - seen.length
  complete : state.complete = decide (seen.length ≤ limit)
  limitWarnings : countLimitWarnings state.warnings =
    if seen.length ≤ limit then 0 else 1

section Accounting

variable {limit : Nat} {seen : List (Option Component)} {state : ParseState}
  {ecosystem : String}

theorem countLimitWarnings_append_of_ne {warnings more : List Warning}
    (hmore : ∀ warning ∈ more, warning.code ≠ .entryLimitReached) :
    countLimitWarnings (warnings ++ more) = countLimitWarnings warnings := by
  have hnone : more.countP (fun warning =>
      warning.code = .entryLimitReached) = 0 := by
    rw [List.countP_eq_zero]
    intro warning hwarning
    simpa using hmore warning hwarning
  rw [countLimitWarnings, List.countP_append, hnone, Nat.add_zero,
    countLimitWarnings]

theorem ne_entryLimitReached_of_unlimited {warnings : List Warning}
    (hwarnings : Unlimited warnings) :
    ∀ warning ∈ warnings, warning.code ≠ .entryLimitReached := by
  intro warning hwarning hcode
  have h := hwarnings warning hwarning
  rw [hcode] at h
  exact absurd h (by decide)

theorem Accounted.absorb (hstate : Accounted limit seen state)
    {warnings : List Warning}
    (hwarnings : ∀ warning ∈ warnings, warning.code ≠ .entryLimitReached) :
    Accounted limit seen (state.absorb warnings) where
  dependencies := hstate.dependencies
  packageBudget := hstate.packageBudget
  complete := hstate.complete
  limitWarnings := by
    rw [ParseState.absorb, countLimitWarnings_append_of_ne hwarnings,
      hstate.limitWarnings]

theorem Accounted.exhausted (hstate : Accounted limit seen state)
    (hlimit : limit < seen.length) (more : List (Option Component)) :
    Accounted limit (seen ++ more) state := by
  have hmore : ¬ (seen ++ more).length ≤ limit := by
    rw [List.length_append]
    omega
  have hseen : ¬ seen.length ≤ limit := by omega
  constructor
  · rw [hstate.dependencies, List.take_append_of_le_length (by omega)]
  · rw [hstate.packageBudget, List.length_append]
    omega
  · rw [hstate.complete, decide_eq_false hseen, decide_eq_false hmore]
  · rw [hstate.limitWarnings, if_neg hseen, if_neg hmore]

theorem emit_warnings (state : ParseState) (component : Component)
    (ownIdentity : Bool) :
    (state.emit ecosystem component ownIdentity).warnings = state.warnings ++
      if (parsePurl component.purl).complete then []
      else [{ code := .purlValidationFailed
              message := ecosystem ++ ": " ++
                ("produced purl failed validation: " ++ component.purl)
              ecosystem := ecosystem }] := by
  unfold ParseState.emit
  split_ifs <;> simp [ParseState.warn]

theorem emit_emitted (state : ParseState) (component : Component)
    (ownIdentity : Bool) :
    (state.emit ecosystem component ownIdentity).emitted = state.emitted ++
      [{ component := canonicalized component
         ownIdentity := ownIdentity }] := by
  unfold ParseState.emit
  split_ifs <;> rfl

@[simp] theorem emit_packageBudget (state : ParseState)
    (component : Component) (ownIdentity : Bool) :
    (state.emit ecosystem component ownIdentity).packageBudget =
      state.packageBudget := by
  unfold ParseState.emit
  split_ifs <;> rfl

@[simp] theorem emit_complete (state : ParseState)
    (component : Component) (ownIdentity : Bool) :
    (state.emit ecosystem component ownIdentity).complete = state.complete := by
  unfold ParseState.emit
  split_ifs <;> rfl

theorem countLimitWarnings_emit (state : ParseState) (component : Component)
    (ownIdentity : Bool) :
    countLimitWarnings (state.emit ecosystem component ownIdentity).warnings =
      countLimitWarnings state.warnings := by
  rw [emit_warnings, countLimitWarnings_append_of_ne]
  intro warning hwarning
  split_ifs at hwarning
  · simp at hwarning
  · obtain rfl : warning = _ := by simpa using hwarning
    simp

theorem Accounted.emitOwnIdentity (hstate : Accounted limit seen state)
    (component : Component) :
    Accounted limit seen (state.emit ecosystem component true) where
  dependencies := by
    simp [ParseState.dependencies, emit_emitted, ← hstate.dependencies]
  packageBudget := by rw [emit_packageBudget, hstate.packageBudget]
  complete := by rw [emit_complete, hstate.complete]
  limitWarnings := by
    rw [countLimitWarnings_emit, hstate.limitWarnings]

theorem Accounted.emitEntry (hstate : Accounted limit seen state)
    (hbudget : state.packageBudget ≠ 0) (component : Component) :
    Accounted limit (seen ++ [some (canonicalized component)])
      ({ state with
        packageBudget := state.packageBudget - 1 }.emit ecosystem component
          false) := by
  have hlength : seen.length < limit := by
    rw [hstate.packageBudget] at hbudget
    omega
  have hle : seen.length ≤ limit := by omega
  have hle' : (seen ++ [some (canonicalized component)]).length ≤ limit := by
    rw [List.length_append, List.length_singleton]
    omega
  constructor
  · rw [List.take_of_length_le hle', ← List.take_of_length_le hle,
      ← hstate.dependencies]
    simp [ParseState.dependencies, emit_emitted]
  · rw [emit_packageBudget]
    change state.packageBudget - 1 = _
    rw [hstate.packageBudget, List.length_append, List.length_singleton]
    omega
  · rw [emit_complete, hstate.complete, decide_eq_true hle, decide_eq_true hle']
  · rw [countLimitWarnings_emit, hstate.limitWarnings, if_pos hle, if_pos hle']

/-- The first entry that does not fit. -/
theorem Accounted.reachLimit (hstate : Accounted limit seen state)
    (hle : seen.length ≤ limit) (hbudget : state.packageBudget = 0)
    (entry : Option Component) (more : List (Option Component)) :
    Accounted limit (seen ++ entry :: more)
      (state.reachLimit ecosystem limit) := by
  have hlength : seen.length = limit := by
    rw [hstate.packageBudget] at hbudget
    omega
  have hmore : ¬ (seen ++ entry :: more).length ≤ limit := by
    rw [List.length_append, List.length_cons]
    omega
  constructor
  · rw [List.take_append_of_le_length (by omega), ← hstate.dependencies]
    rfl
  · rw [List.length_append]
    change state.packageBudget = _
    rw [hstate.packageBudget]
    omega
  · rw [decide_eq_false hmore]
    rfl
  · have hcount : countLimitWarnings (state.reachLimit ecosystem
        limit).warnings = countLimitWarnings state.warnings + 1 := by
      simp [ParseState.reachLimit, ParseState.warn, countLimitWarnings]
    rw [hcount, hstate.limitWarnings, if_pos hle, if_neg hmore]

/-- What one file owes to its entries. -/
theorem parseEntries_spec {readings : List Reading}
    (hreadings : ∀ reading ∈ readings, Unlimited reading.warnings)
    (hstate : Accounted limit seen state) (hle : seen.length ≤ limit)
    (skipped : List SkipReason) :
    (parseEntries ecosystem limit readings state skipped = none ↔
      throwsWithin (limit - seen.length) readings = true) ∧
    ∀ loop, parseEntries ecosystem limit readings state skipped = some loop →
      Accounted limit (seen ++ validEntries readings) loop.state := by
  induction readings generalizing seen state skipped with
  | nil =>
    constructor
    · simp [parseEntries, throwsWithin]
    · intro loop hsome
      obtain rfl := Option.some.inj hsome
      simpa [validEntries] using hstate
  | cons reading readings ih =>
    rw [List.forall_mem_cons] at hreadings
    have habsorbed : Accounted limit seen (state.absorb reading.warnings) :=
      hstate.absorb (ne_entryLimitReached_of_unlimited hreadings.1)
    cases houtcome : reading.outcome with
    | ignored =>
      have hvalid : validEntries (reading :: readings) =
          validEntries readings := by
        simp [validEntries, Reading.validEntry?, houtcome]
      simp only [parseEntries, throwsWithin, houtcome, hvalid]
      exact ih hreadings.2 habsorbed hle skipped
    | skipped reason =>
      have hvalid : validEntries (reading :: readings) =
          validEntries readings := by
        simp [validEntries, Reading.validEntry?, houtcome]
      simp only [parseEntries, throwsWithin, houtcome, hvalid]
      exact ih hreadings.2 habsorbed hle (skipped ++ [reason])
    | thrown => simp [parseEntries, throwsWithin, houtcome]
    | valid component? =>
      have hvalid : validEntries (reading :: readings) =
          component?.map canonicalized :: validEntries readings := by
        simp [validEntries, Reading.validEntry?, houtcome]
      have hbudget : (state.absorb reading.warnings).packageBudget =
          limit - seen.length := hstate.packageBudget
      simp only [parseEntries, houtcome, hvalid]
      by_cases hzero : limit - seen.length = 0
      · rw [hbudget, if_pos hzero]
        constructor
        · cases component? <;> simp [throwsWithin, houtcome, hzero]
        · intro loop hsome
          obtain rfl := Option.some.inj hsome
          exact habsorbed.reachLimit hle (hbudget.trans hzero) _ _
      · rw [hbudget, if_neg hzero]
        cases component? with
        | none => simp [throwsWithin, houtcome, hzero]
        | some component =>
          have hnext := @Accounted.emitEntry limit seen _ ecosystem
            habsorbed (by rwa [hbudget]) component
          have hlength : (seen ++ [some (canonicalized component)]).length =
                seen.length + 1 := by simp
          have hstep := ih hreadings.2 hnext (by omega) skipped
          rw [hlength, List.append_assoc, List.singleton_append]
            at hstep
          rw [hbudget] at hstep
          have hthrows : throwsWithin (limit - seen.length)
              (reading :: readings) =
                throwsWithin (limit - (seen.length + 1)) readings := by
            simp only [throwsWithin, houtcome]
            rw [Nat.sub_sub]
            simp [hzero]
          rw [hthrows]
          exact hstep

/-- No warning of a manifest is about a limit. -/
structure Manifest.IsUnlimited (manifest : Manifest) : Prop where
  warnings : Unlimited manifest.warnings
  entries : ∀ reading ∈ manifest.entries, Unlimited reading.warnings
  summary : ∀ limitReached skipped,
    Unlimited (manifest.summary limitReached skipped)

theorem parseManifest_spec {manifest : Manifest}
    (hmanifest : manifest.IsUnlimited) (hstate : Accounted limit seen state)
    (hle : seen.length ≤ limit) :
    (parseManifest ecosystem limit manifest state = none ↔
      throwsWithin (limit - seen.length) manifest.entries = true) ∧
    ∀ after, parseManifest ecosystem limit manifest state = some after →
      Accounted limit (seen ++ validEntries manifest.entries) after := by
  have habsorbed : Accounted limit seen (state.absorb manifest.warnings) :=
    hstate.absorb (ne_entryLimitReached_of_unlimited hmanifest.warnings)
  obtain ⟨start, hstart, hparse⟩ : ∃ start, Accounted limit seen start ∧
      parseManifest ecosystem limit manifest state =
        (parseEntries ecosystem limit manifest.entries start []).map
          fun loop => loop.state.absorb
            (manifest.summary loop.limitReached loop.skipped) := by
    cases hown : manifest.ownIdentity with
    | some component =>
      refine ⟨(state.absorb manifest.warnings).emit ecosystem component true,
        habsorbed.emitOwnIdentity component, ?_⟩
      simp only [parseManifest, hown]
    | none =>
      refine ⟨_, habsorbed, ?_⟩
      simp only [parseManifest, hown]
  obtain ⟨hnone, hsome⟩ := @parseEntries_spec _ _ _ ecosystem _
    hmanifest.entries hstart hle []
  rw [hparse]
  constructor
  · rw [← hnone]
    exact Option.map_eq_none_iff
  · intro after hafter
    obtain ⟨loop, hloop, rfl⟩ := Option.map_eq_some_iff.mp hafter
    exact (hsome loop hloop).absorb
      (ne_entryLimitReached_of_unlimited (hmanifest.summary _ _))

end Accounting

/-! ## Warnings about files -/

def isFileLimitCode (code : WarningCode) : Bool :=
  code = .fileLimitReached ∨ code = .fileSizeLimitExceeded

/-- No warning about a limit on files is new. -/
def NoNewFileLimit (before after : ParseState) : Prop :=
  ∀ warning ∈ after.warnings, isFileLimitCode warning.code = true →
    warning ∈ before.warnings

section FileLimits

variable {before state : ParseState} {ecosystem : String} {limit : Nat}

theorem NoNewFileLimit.append (hstate : NoNewFileLimit before state)
    {after : ParseState} {more : List Warning}
    (hafter : after.warnings = state.warnings ++ more)
    (hmore : ∀ warning ∈ more, isFileLimitCode warning.code = false) :
    NoNewFileLimit before after := by
  intro warning hwarning hcode
  rw [hafter, List.mem_append] at hwarning
  rcases hwarning with hold | hnew
  · exact hstate warning hold hcode
  · rw [hmore warning hnew] at hcode
    exact absurd hcode (by simp)

theorem isFileLimitCode_of_unlimited {warnings : List Warning}
    (hwarnings : Unlimited warnings) :
    ∀ warning ∈ warnings, isFileLimitCode warning.code = false := by
  intro warning hwarning
  have h := hwarnings warning hwarning
  simp only [isLimitCode, isFileLimitCode, decide_eq_false_iff_not, not_or]
    at h ⊢
  exact h.2

theorem NoNewFileLimit.emit (hstate : NoNewFileLimit before state)
    (component : Component) (ownIdentity : Bool) :
    NoNewFileLimit before (state.emit ecosystem component ownIdentity) := by
  apply hstate.append (emit_warnings state component ownIdentity)
  intro warning hwarning
  split_ifs at hwarning
  · simp at hwarning
  · obtain rfl : warning = _ := by simpa using hwarning
    rfl

theorem parseEntries_keeps {P : ParseState → Prop} {readings : List Reading}
    (habsorb : ∀ reading ∈ readings, ∀ state, P state →
      P (state.absorb reading.warnings))
    (hlimit : ∀ state, P state → P (state.reachLimit ecosystem limit))
    (hemit : ∀ state component, P state →
      P ({ state with packageBudget := state.packageBudget - 1 }.emit ecosystem
        component false))
    (hstate : P state) {skipped : List SkipReason} {loop : EntryLoop}
    (hafter : parseEntries ecosystem limit readings state skipped =
      some loop) : P loop.state := by
  induction readings generalizing state skipped with
  | nil =>
    obtain rfl := Option.some.inj hafter
    exact hstate
  | cons reading readings ih =>
    rw [List.forall_mem_cons] at habsorb
    have habsorbed := habsorb.1 state hstate
    cases houtcome : reading.outcome with
    | ignored =>
      simp only [parseEntries, houtcome] at hafter
      exact ih habsorb.2 habsorbed hafter
    | skipped reason =>
      simp only [parseEntries, houtcome] at hafter
      exact ih habsorb.2 habsorbed hafter
    | thrown => simp [parseEntries, houtcome] at hafter
    | valid component? =>
      simp only [parseEntries, houtcome] at hafter
      split_ifs at hafter with hbudget
      · obtain rfl := Option.some.inj hafter
        exact hlimit _ habsorbed
      · cases component? with
        | none => simp at hafter
        | some component => exact ih habsorb.2 (hemit _ _ habsorbed) hafter

theorem noNewFileLimit_parseEntries {readings : List Reading}
    (hreadings : ∀ reading ∈ readings, Unlimited reading.warnings)
    (hstate : NoNewFileLimit before state) {skipped : List SkipReason}
    {loop : EntryLoop}
    (hafter : parseEntries ecosystem limit readings state skipped =
      some loop) : NoNewFileLimit before loop.state := by
  refine parseEntries_keeps (fun reading hreading _ hkept => ?_)
    (fun _ hkept => ?_) (fun earlier component hkept => ?_) hstate hafter
  · exact hkept.append rfl (isFileLimitCode_of_unlimited
      (hreadings reading hreading))
  · apply hkept.append rfl
    simp [isFileLimitCode]
  · have hspent : NoNewFileLimit before
        { earlier with packageBudget := earlier.packageBudget - 1 } := hkept
    exact hspent.emit component false

theorem noNewFileLimit_parseManifest {manifest : Manifest}
    (hmanifest : manifest.IsUnlimited) {after : ParseState}
    (hafter : parseManifest ecosystem limit manifest state = some after) :
    NoNewFileLimit state after := by
  have habsorbed : NoNewFileLimit state (state.absorb manifest.warnings) :=
    NoNewFileLimit.append (fun _ hold _ => hold) rfl
      (isFileLimitCode_of_unlimited hmanifest.warnings)
  obtain ⟨loop, hloop, rfl⟩ := Option.map_eq_some_iff.mp hafter
  have hstart : NoNewFileLimit state loop.state := by
    refine noNewFileLimit_parseEntries hmanifest.entries ?_ hloop
    cases manifest.ownIdentity with
    | some component => exact habsorbed.emit component true
    | none => exact habsorbed
  exact hstart.append rfl
    (isFileLimitCode_of_unlimited (hmanifest.summary _ _))

end FileLimits

section Files

variable (producer : Producer) (options : ParseOptions)
  (contents : FsPath → Option (List UInt8))

/-- The entries of a file, as far as the file is parsed. -/
def readingsOf (path : FsPath) : List Reading :=
  match parsedBytes producer options contents path with
  | none => []
  | some bytes => (producer.manifest path bytes).entries

/-- The size limit lies within the file. -/
def IsOversized (path : FsPath) : Prop :=
  ∃ bytes, contents path = some bytes ∧ options.maxFileBytes < bytes.length

theorem truncated_iff (path : FsPath) :
    (readFileBounded (contents path) options.maxFileBytes).truncated = true ↔
      IsOversized options contents path := by
  unfold readFileBounded IsOversized
  cases contents path <;> simp

/-- The files that `parse` would open if there were no package limit, once
`count` files more may be opened. -/
def openedFiles (files : List FsPath) (count : Nat) : List FsPath :=
  (files.filter producer.accepts).take count

def Warns (warnings : List Warning) (code : WarningCode) : Prop :=
  ∃ warning ∈ warnings, warning.code = code

variable {producer options contents} {seen : List (Option Component)}
  {state : ParseState}

theorem code_of_mem_readWarnings {path : FsPath} {warning : Warning}
    (hwarning : warning ∈ readWarnings producer options contents path) :
    warning.code = .unreadableFile ∨ (warning.code = .fileSizeLimitExceeded ∧
        IsOversized options contents path) := by
  rw [← truncated_iff]
  simp only [readWarnings] at hwarning
  split_ifs at hwarning with hreadable htruncated hkeeps
  · obtain rfl : warning = _ := by simpa using hwarning
    exact .inl rfl
  · obtain rfl : warning = _ := by simpa using hwarning
    exact .inr ⟨rfl, htruncated⟩
  · obtain rfl : warning = _ := by simpa using hwarning
    exact .inr ⟨rfl, htruncated⟩
  · simp at hwarning

/-- A producer that leaves the limits to the loops. -/
def Producer.IsUnlimited (producer : Producer) : Prop :=
  ∀ path bytes, (producer.manifest path bytes).IsUnlimited

theorem parseFile_spec (hproducer : producer.IsUnlimited)
    (hstate : Accounted options.maxTotalPackages seen state)
    (hle : seen.length ≤ options.maxTotalPackages) (path : FsPath) :
    (parseFile producer options contents path state = none ↔
      throwsWithin (options.maxTotalPackages - seen.length)
        (readingsOf producer options contents path) = true) ∧
    ∀ after, parseFile producer options contents path state = some after →
      Accounted options.maxTotalPackages
        (seen ++ validEntries (readingsOf producer options contents path))
        after := by
  have hread : Accounted options.maxTotalPackages seen
      (state.absorb (readWarnings producer options contents path)) := by
    apply hstate.absorb
    intro warning hwarning hcode
    rcases code_of_mem_readWarnings hwarning with h | ⟨h, -⟩
    · exact absurd (h.symm.trans hcode) (by decide)
    · exact absurd (h.symm.trans hcode) (by decide)
  simp only [parseFile, readingsOf]
  cases parsedBytes producer options contents path with
  | none =>
    constructor
    · simp [throwsWithin]
    · intro after hafter
      obtain rfl := Option.some.inj hafter
      simpa [validEntries] using hread
  | some bytes => exact parseManifest_spec (hproducer path bytes) hread hle

/-- A warning about the size of a file is about one that is too large. -/
theorem sizeWarning_parseFile (hproducer : producer.IsUnlimited)
    {path : FsPath} {after : ParseState}
    (hafter : parseFile producer options contents path state = some after)
    {warning : Warning} (hwarning : warning ∈ after.warnings)
    (hcode : isFileLimitCode warning.code = true) :
    warning ∈ state.warnings ∨ (warning.code = .fileSizeLimitExceeded ∧
        IsOversized options contents path) := by
  have hread : warning ∈ (state.absorb
      (readWarnings producer options contents path)).warnings := by
    simp only [parseFile] at hafter
    cases hbytes : parsedBytes producer options contents path with
    | none =>
      rw [hbytes] at hafter
      obtain rfl := Option.some.inj hafter
      exact hwarning
    | some bytes =>
      rw [hbytes] at hafter
      exact noNewFileLimit_parseManifest (hproducer path bytes) hafter
        warning hwarning hcode
  rcases List.mem_append.mp hread with hold | hnew
  · exact .inl hold
  · rcases code_of_mem_readWarnings hnew with h | h
    · rw [h] at hcode
      exact absurd hcode (by decide)
    · exact .inr h

/-! ## The loop over the files -/

variable (producer options contents) in
/-- The entries of some files, as far as the files are parsed. -/
def readingsOfFiles (files : List FsPath) : List Reading :=
  files.flatMap (readingsOf producer options contents)

/-- What the loop over the files owes to the files before it. -/
structure FilesParsed (producer : Producer) (options : ParseOptions)
    (contents : FsPath → Option (List UInt8)) (files : List FsPath)
    (count : Nat) (seen : List (Option Component))
    (before after : ParseState) : Prop where
  accounted : Accounted options.maxTotalPackages
    (seen ++ validEntries (readingsOfFiles producer options contents
      (openedFiles producer files count))) after
  fileLimit : ∀ warning ∈ after.warnings, warning.code = .fileLimitReached →
    warning ∈ before.warnings ∨ count < (files.filter producer.accepts).length
  sizeLimit : ∀ warning ∈ after.warnings,
    warning.code = .fileSizeLimitExceeded → warning ∈ before.warnings ∨
      ∃ path ∈ openedFiles producer files count,
        IsOversized options contents path

theorem validEntries_append (left right : List Reading) :
    validEntries (left ++ right) = validEntries left ++ validEntries right :=
  List.filterMap_append

theorem throwsWithin_append (budget : Nat) (left right : List Reading) :
    throwsWithin budget (left ++ right) = (throwsWithin budget left ||
        (decide ((validEntries left).length ≤ budget) &&
          throwsWithin (budget - (validEntries left).length) right)) := by
  induction left generalizing budget with
  | nil => simp [throwsWithin, validEntries]
  | cons reading left ih =>
    cases houtcome : reading.outcome with
    | ignored =>
      have hvalid : validEntries (reading :: left) = validEntries left := by
        simp [validEntries, Reading.validEntry?, houtcome]
      simp only [List.cons_append, throwsWithin, houtcome, hvalid, ih]
    | skipped reason =>
      have hvalid : validEntries (reading :: left) = validEntries left := by
        simp [validEntries, Reading.validEntry?, houtcome]
      simp only [List.cons_append, throwsWithin, houtcome, hvalid, ih]
    | thrown => simp [throwsWithin, houtcome]
    | valid component? =>
      have hvalid : (validEntries (reading :: left)).length =
          (validEntries left).length + 1 := by
        simp [validEntries, Reading.validEntry?, houtcome]
      rw [hvalid]
      cases budget with
      | zero => cases component? <;> simp [throwsWithin, houtcome]
      | succ budget =>
        cases component? with
        | none => simp [throwsWithin, houtcome]
        | some component =>
          simp [throwsWithin, houtcome, ih, Nat.add_sub_add_right]

theorem filesParsed_of_fileLimit {path : FsPath} {files : List FsPath}
    (haccepts : producer.accepts path = true)
    (hstate : Accounted options.maxTotalPackages seen state) :
    FilesParsed producer options contents (path :: files) 0 seen state
      (state.warn producer.ecosystem .fileLimitReached
        ("file limit reached; remaining " ++ producer.fileKind ++
          " files skipped")) where
  accounted := by
    simp only [openedFiles, List.take_zero, readingsOfFiles, List.flatMap_nil,
      validEntries, List.filterMap_nil, List.append_nil]
    apply hstate.absorb
    simp
  fileLimit warning hwarning hcode := by
    simp [haccepts]
  sizeLimit warning hwarning hcode := by
    rcases List.mem_append.mp hwarning with hold | hnew
    · exact .inl hold
    · obtain rfl : warning = _ := by simpa using hnew
      exact absurd hcode (by simp)

theorem openedFiles_cons {path : FsPath} {files : List FsPath}
    (haccepts : producer.accepts path = true) (count : Nat) :
    openedFiles producer (path :: files) (count + 1) =
      path :: openedFiles producer files count := by
  simp [openedFiles, haccepts]

/-- One file more in front of a loop. -/
theorem FilesParsed.cons {path : FsPath} {files : List FsPath} {count : Nat}
    {mid after : ParseState} (hproducer : producer.IsUnlimited)
    (haccepts : producer.accepts path = true)
    (hmid : parseFile producer options contents path state = some mid)
    (hafter : FilesParsed producer options contents files count
      (seen ++ validEntries (readingsOf producer options contents path)) mid
      after) :
    FilesParsed producer options contents (path :: files) (count + 1) seen
      state after where
  accounted := by
    rw [openedFiles_cons haccepts]
    simp only [readingsOfFiles, List.flatMap_cons, validEntries_append]
    rw [← List.append_assoc]
    exact hafter.accounted
  fileLimit warning hwarning hcode := by
    rcases hafter.fileLimit warning hwarning hcode with hold | hcount
    · rcases sizeWarning_parseFile hproducer hmid hold
        (by simp [isFileLimitCode, hcode]) with h | ⟨h, -⟩
      · exact .inl h
      · exact absurd (hcode.symm.trans h) (by decide)
    · right
      rw [List.filter_cons_of_pos haccepts, List.length_cons]
      omega
  sizeLimit warning hwarning hcode := by
    rw [openedFiles_cons haccepts]
    rcases hafter.sizeLimit warning hwarning hcode with hold | ⟨other, hother, h⟩
    · rcases sizeWarning_parseFile hproducer hmid hold
        (by simp [isFileLimitCode, hcode]) with h | ⟨-, h⟩
      · exact .inl h
      · exact .inr ⟨path, by simp, h⟩
    · exact .inr ⟨other, by simp [hother], h⟩

theorem filesParsed_self {files : List FsPath} {count : Nat}
    (hstate : Accounted options.maxTotalPackages
      (seen ++ validEntries (readingsOfFiles producer options contents
        (openedFiles producer files count))) state) :
    FilesParsed producer options contents files count seen state state where
  accounted := hstate
  fileLimit _ hwarning _ := .inl hwarning
  sizeLimit _ hwarning _ := .inl hwarning

/-- A file that is passed over in front of a loop. -/
theorem FilesParsed.passOver {path : FsPath} {files : List FsPath}
    {count : Nat} {after : ParseState}
    (haccepts : producer.accepts path = false)
    (hafter : FilesParsed producer options contents files count seen state
      after) :
    FilesParsed producer options contents (path :: files) count seen state
      after := by
  have hfilter : (path :: files).filter producer.accepts =
      files.filter producer.accepts := by
    simp [haccepts]
  obtain ⟨haccounted, hfile, hsize⟩ := hafter
  constructor
  · rwa [openedFiles, hfilter]
  · rwa [hfilter]
  · rwa [openedFiles, hfilter]

theorem Accounted.length_le (hstate : Accounted options.maxTotalPackages seen
    state) (hleft : ¬ (state.packageBudget = 0 && !state.complete) = true) :
    seen.length ≤ options.maxTotalPackages := by
  by_contra hlength
  have hbudget : state.packageBudget = 0 := by
    rw [hstate.packageBudget]
    omega
  simp [hbudget, hstate.complete, hlength] at hleft

/-- The throw of a loop is that of its first file or of the loop behind it. -/
theorem throwsWithin_readingsOfFiles {path : FsPath} {files : List FsPath}
    {count : Nat} (haccepts : producer.accepts path = true)
    (hle : seen.length ≤ options.maxTotalPackages) :
    throwsWithin (options.maxTotalPackages - seen.length)
        (readingsOfFiles producer options contents
          (openedFiles producer (path :: files) (count + 1))) = true ↔
      throwsWithin (options.maxTotalPackages - seen.length)
          (readingsOf producer options contents path) = true ∨
        (seen ++ validEntries (readingsOf producer options contents
            path)).length ≤ options.maxTotalPackages ∧
          throwsWithin (options.maxTotalPackages - (seen ++ validEntries
              (readingsOf producer options contents path)).length)
            (readingsOfFiles producer options contents
              (openedFiles producer files count)) = true := by
  have hreadings : readingsOfFiles producer options contents
      (openedFiles producer (path :: files) (count + 1)) =
        readingsOf producer options contents path ++
          readingsOfFiles producer options contents
            (openedFiles producer files count) := by
    rw [openedFiles_cons haccepts]
    rfl
  rw [hreadings, throwsWithin_append, Bool.or_eq_true, Bool.and_eq_true,
    decide_eq_true_eq, List.length_append, Nat.sub_sub]
  refine or_congr_right (and_congr_left fun _ => ?_)
  omega

/-- The loop over the files, from any state on. -/
theorem parseFiles_spec (hproducer : producer.IsUnlimited)
    {files : List FsPath} {scanned : Nat}
    (hstate : Accounted options.maxTotalPackages seen state) :
    (parseFiles producer options contents files scanned state = none ↔
      seen.length ≤ options.maxTotalPackages ∧
        throwsWithin (options.maxTotalPackages - seen.length)
          (readingsOfFiles producer options contents (openedFiles producer
            files (options.maxScannedFiles - scanned))) = true) ∧
    ∀ after, parseFiles producer options contents files scanned state =
        some after →
      FilesParsed producer options contents files
        (options.maxScannedFiles - scanned) seen state after := by
  induction files generalizing scanned seen state with
  | nil =>
    constructor
    · simp [parseFiles, openedFiles, readingsOfFiles, throwsWithin]
    · intro after hafter
      obtain rfl := Option.some.inj hafter
      apply filesParsed_self
      simpa [openedFiles, readingsOfFiles, validEntries] using hstate
  | cons path files ih =>
    cases haccepts : producer.accepts path with
    | false =>
      have hopened : ∀ count, openedFiles producer (path :: files) count =
          openedFiles producer files count := by
        intro count
        simp [openedFiles, haccepts]
      obtain ⟨hnone, hsome⟩ := @ih seen state scanned hstate
      simp only [parseFiles, haccepts, Bool.not_false, if_true, hopened]
      exact ⟨hnone, fun after hafter =>
        (hsome after hafter).passOver haccepts⟩
    | true =>
      simp only [parseFiles, haccepts, Bool.not_true, Bool.false_eq_true,
        if_false]
      by_cases hfull : options.maxScannedFiles ≤ scanned
      · have hcount : options.maxScannedFiles - scanned = 0 := by omega
        rw [if_pos hfull, hcount]
        constructor
        · simp [openedFiles, readingsOfFiles, throwsWithin]
        · intro after hafter
          obtain rfl := Option.some.inj hafter
          exact filesParsed_of_fileLimit haccepts hstate
      rw [if_neg hfull]
      by_cases hexhausted : (state.packageBudget = 0 &&
          !state.complete) = true
      · have hlength : options.maxTotalPackages < seen.length := by
          simpa [hstate.complete] using (Bool.and_eq_true_iff.mp
            hexhausted).2
        rw [if_pos hexhausted]
        constructor
        · constructor
          · simp
          · rintro ⟨hle, -⟩
            omega
        · intro after hafter
          obtain rfl := Option.some.inj hafter
          exact filesParsed_self (hstate.exhausted hlength _)
      rw [if_neg hexhausted]
      have hle := hstate.length_le hexhausted
      have hcount : options.maxScannedFiles - scanned =
          options.maxScannedFiles - (scanned + 1) + 1 := by omega
      obtain ⟨hnone, hsome⟩ := @parseFile_spec _ _ contents _ _ hproducer
        hstate hle path
      have hlater : ∀ mid, parseFile producer options contents path state =
          some mid → _ := fun mid hmid =>
        @ih _ mid (scanned + 1) (hsome mid hmid)
      rw [hcount]
      constructor
      · rw [throwsWithin_readingsOfFiles haccepts hle, ← hnone]
        cases hmid : parseFile producer options contents path state with
        | none => simp [hle]
        | some mid =>
          rw [Option.bind_some, (hlater mid hmid).1]
          simp [hle]
      · intro after hafter
        obtain ⟨mid, hmid, hrest⟩ := Option.bind_eq_some_iff.mp hafter
        exact ((hlater mid hmid).2 after hrest).cons hproducer haccepts
          hmid

end Files
end Bomwerk.Lockfiles
