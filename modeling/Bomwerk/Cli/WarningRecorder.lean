import Mathlib.Data.List.DropRight
import Bomwerk.Output.WarningsReport

/-!
# The warning recorder

`cli/warning_recorder.hpp`: the sink every command records its warnings in.  A
run is a list of calls; what it recorded is told apart by the last
`take_collected`.  The recorder forgets there what it collected, and keeps
whether it is degraded.
-/

namespace Bomwerk.Cli

open Bomwerk.Core Bomwerk.Support Bomwerk.Output

structure WarningRecorder where
  suppressedCodes : OrderedSet String
  collected : List Warning := []
  degraded : Bool := false

namespace WarningRecorder

def record (recorder : WarningRecorder) (warning : Warning) :
    WarningRecorder :=
  { recorder with
    collected := recorder.collected ++ [warning]
    degraded := recorder.degraded ||
      !isWarningSuppressed warning recorder.suppressedCodes }

def recordAll (recorder : WarningRecorder) (warnings : List Warning) :
    WarningRecorder :=
  warnings.foldl record recorder

/-- `take_collected`: the vector is moved out, `degraded_` is left as it is. -/
def takeCollected (recorder : WarningRecorder) :
    List Warning × WarningRecorder :=
  (recorder.collected, { recorder with collected := [] })

end WarningRecorder

/-- A call on a recorder, with the overload of `record` it goes to. -/
inductive RecorderCall
  | record (warning : Warning)
  | recordCode (code : WarningCode)
      (message ecosystem affectedPath : String)
  | recordExternal (info : WarningCodeInfo)
      (message ecosystem affectedPath : String)
  | recordAll (warnings : List Warning)
  | takeCollected
  deriving DecidableEq

namespace RecorderCall

def warnings : RecorderCall → List Warning
  | record warning => [warning]
  | recordCode code message ecosystem affectedPath =>
    [{ code, message, ecosystem, affectedPath }]
  | recordExternal info message ecosystem affectedPath =>
    [{ code := .externallyDefined, message, ecosystem, affectedPath,
       externalCode := info }]
  | recordAll warnings => warnings
  | takeCollected => []

end RecorderCall

def step (recorder : WarningRecorder) : RecorderCall → WarningRecorder
  | .record warning => recorder.record warning
  | .recordCode code message ecosystem affectedPath =>
    recorder.record { code, message, ecosystem, affectedPath }
  | .recordExternal info message ecosystem affectedPath =>
    recorder.record
      { code := .externallyDefined, message, ecosystem, affectedPath,
        externalCode := info }
  | .recordAll warnings => recorder.recordAll warnings
  | .takeCollected => recorder.takeCollected.2

/-- The recorder after some calls, first to last. -/
def recorderAfter (suppressedCodes : OrderedSet String)
    (calls : List RecorderCall) : WarningRecorder :=
  calls.foldl step { suppressedCodes }

/-- The warnings recorded since the last `take_collected`. -/
def recordedSinceTake (calls : List RecorderCall) : List Warning :=
  (calls.rtakeWhile (· ≠ .takeCollected)).flatMap RecorderCall.warnings

/-- The warnings recorded before the last `take_collected`. -/
def recordedBeforeTake (calls : List RecorderCall) : List Warning :=
  (calls.rdropWhile (· ≠ .takeCollected)).flatMap RecorderCall.warnings

namespace WarningRecorder

@[simp] theorem suppressedCodes_recordAll (recorder : WarningRecorder)
    (warnings : List Warning) :
    (recorder.recordAll warnings).suppressedCodes =
      recorder.suppressedCodes := by
  induction warnings generalizing recorder with
  | nil => rfl
  | cons warning warnings ih => exact ih (recorder.record warning)

@[simp] theorem collected_recordAll (recorder : WarningRecorder)
    (warnings : List Warning) :
    (recorder.recordAll warnings).collected =
      recorder.collected ++ warnings := by
  induction warnings generalizing recorder with
  | nil => simp [recordAll]
  | cons warning warnings ih =>
    change ((recorder.record warning).recordAll warnings).collected = _
    rw [ih]
    simp [record]

@[simp] theorem degraded_recordAll (recorder : WarningRecorder)
    (warnings : List Warning) :
    (recorder.recordAll warnings).degraded =
      (recorder.degraded || warnings.any fun warning =>
        !isWarningSuppressed warning recorder.suppressedCodes) := by
  induction warnings generalizing recorder with
  | nil => simp [recordAll]
  | cons warning warnings ih =>
    change ((recorder.record warning).recordAll warnings).degraded = _
    rw [ih]
    simp [record, Bool.or_assoc]

end WarningRecorder

theorem step_eq_recordAll {call : RecorderCall}
    (hcall : call ≠ .takeCollected) (recorder : WarningRecorder) :
    step recorder call = recorder.recordAll call.warnings := by
  cases call with
  | takeCollected => exact absurd rfl hcall
  | _ => rfl

theorem recorderAfter_concat (suppressedCodes : OrderedSet String)
    (calls : List RecorderCall) (call : RecorderCall) :
    recorderAfter suppressedCodes (calls ++ [call]) =
      step (recorderAfter suppressedCodes calls) call := by
  rw [recorderAfter, List.foldl_concat, recorderAfter]

theorem recordedBeforeTake_append_recordedSinceTake
    (calls : List RecorderCall) :
    recordedBeforeTake calls ++ recordedSinceTake calls =
      calls.flatMap RecorderCall.warnings := by
  rw [recordedBeforeTake, recordedSinceTake, ← List.flatMap_append,
    List.rdropWhile_append_rtakeWhile]

theorem recordedSinceTake_concat {call : RecorderCall}
    (hcall : call ≠ .takeCollected) (calls : List RecorderCall) :
    recordedSinceTake (calls ++ [call]) =
      recordedSinceTake calls ++ call.warnings := by
  simp [recordedSinceTake, hcall]

theorem recordedSinceTake_concat_take (calls : List RecorderCall) :
    recordedSinceTake (calls ++ [.takeCollected]) = [] := by
  simp [recordedSinceTake]

theorem suppressedCodes_recorderAfter (suppressedCodes : OrderedSet String)
    (calls : List RecorderCall) :
    (recorderAfter suppressedCodes calls).suppressedCodes =
      suppressedCodes := by
  induction calls using List.reverseRecOn with
  | nil => rfl
  | append_singleton calls call ih =>
    rw [recorderAfter_concat]
    by_cases hcall : call = .takeCollected
    · subst hcall
      exact ih
    · rw [step_eq_recordAll hcall, WarningRecorder.suppressedCodes_recordAll,
        ih]

theorem collected_recorderAfter (suppressedCodes : OrderedSet String)
    (calls : List RecorderCall) :
    (recorderAfter suppressedCodes calls).collected =
      recordedSinceTake calls := by
  induction calls using List.reverseRecOn with
  | nil => rfl
  | append_singleton calls call ih =>
    rw [recorderAfter_concat]
    by_cases hcall : call = .takeCollected
    · subst hcall
      rw [recordedSinceTake_concat_take]
      rfl
    · rw [step_eq_recordAll hcall, WarningRecorder.collected_recordAll, ih,
        recordedSinceTake_concat hcall]

theorem degraded_recorderAfter (suppressedCodes : OrderedSet String)
    (calls : List RecorderCall) :
    (recorderAfter suppressedCodes calls).degraded =
      (calls.flatMap RecorderCall.warnings).any fun warning =>
        !isWarningSuppressed warning suppressedCodes := by
  induction calls using List.reverseRecOn with
  | nil => rfl
  | append_singleton calls call ih =>
    rw [recorderAfter_concat, List.flatMap_append, List.any_append, ← ih]
    by_cases hcall : call = .takeCollected
    · subst hcall
      simp [step, WarningRecorder.takeCollected, RecorderCall.warnings]
    · rw [step_eq_recordAll hcall, WarningRecorder.degraded_recordAll,
        suppressedCodes_recorderAfter]
      simp

/-- Some warning of a list is not suppressed. -/
def HasUnsuppressed (suppressedCodes : OrderedSet String)
    (warnings : List Warning) : Prop :=
  ∃ warning ∈ warnings, isWarningSuppressed warning suppressedCodes = false

/-- The recorder after some calls and the report of what it collected agree
with the warnings recorded since the last `take_collected`. -/
structure AgreesAfter (suppressedCodes : OrderedSet String)
    (calls : List RecorderCall) : Prop where
  collected : (recorderAfter suppressedCodes calls).collected =
    recordedSinceTake calls
  degraded : (recorderAfter suppressedCodes calls).degraded = true ↔
    HasUnsuppressed suppressedCodes (recordedSinceTake calls)
  report : ∀ timestamp tool releaseMeta, ∃ groups,
    (writeWarningsReport timestamp
      (recorderAfter suppressedCodes calls).collected suppressedCodes tool
      releaseMeta).findArray? "warnings" = some groups ∧
    ((∃ entry ∈ groups, entry.find? "suppressed" = some (.boolean false)) ↔
      HasUnsuppressed suppressedCodes (recordedSinceTake calls)) ∧
    (groups.map statedCount).sum = (recordedSinceTake calls).length
  reordered : ∀ timestamp tool releaseMeta (others : List Warning),
    others.Perm (recorderAfter suppressedCodes calls).collected →
      writeWarningsReport timestamp others suppressedCodes tool releaseMeta =
        writeWarningsReport timestamp
          (recorderAfter suppressedCodes calls).collected suppressedCodes tool
          releaseMeta

theorem degraded_recorderAfter_iff (suppressedCodes : OrderedSet String)
    (calls : List RecorderCall) :
    (recorderAfter suppressedCodes calls).degraded = true ↔
      HasUnsuppressed suppressedCodes (recordedBeforeTake calls) ∨
        HasUnsuppressed suppressedCodes (recordedSinceTake calls) := by
  rw [degraded_recorderAfter, ← recordedBeforeTake_append_recordedSinceTake,
    List.any_append, Bool.or_eq_true]
  simp [HasUnsuppressed]

/-- `take_collected` leaves `degraded_` as it is: the state is right when no
unsuppressed warning was handed over, or another one came after it. -/
theorem agreesAfter_iff (suppressedCodes : OrderedSet String)
    (calls : List RecorderCall) :
    AgreesAfter suppressedCodes calls ↔
      (¬ HasUnsuppressed suppressedCodes (recordedBeforeTake calls) ∨
        HasUnsuppressed suppressedCodes (recordedSinceTake calls)) := by
  constructor
  · intro hagrees
    by_contra hcondition
    push Not at hcondition
    have hdegraded := (degraded_recorderAfter_iff suppressedCodes calls).mpr
      (Or.inl hcondition.1)
    exact hcondition.2 (hagrees.degraded.mp hdegraded)
  · intro hcondition
    have hcollected := collected_recorderAfter suppressedCodes calls
    refine ⟨hcollected, ?_, ?_, ?_⟩
    · rw [degraded_recorderAfter_iff]
      tauto
    · intro timestamp tool releaseMeta
      refine ⟨_, findArray?_warnings .., ?_, ?_⟩
      · rw [hcollected]
        exact exists_unsuppressed_iff
      · rw [hcollected, sum_statedCount]
    · intro timestamp tool releaseMeta others hperm
      exact writeWarningsReport_perm hperm timestamp suppressedCodes tool
        releaseMeta

def handedOver : List RecorderCall :=
  [.recordCode .unreadableFile "cannot read package-lock.json" "npm" "",
    .takeCollected]

theorem not_agreesAfter_handedOver : ¬ AgreesAfter ∅ handedOver := by
  intro hagrees
  have hdegraded := hagrees.degraded.mp (by decide)
  obtain ⟨warning, hwarning, -⟩ := hdegraded
  have hempty : recordedSinceTake handedOver = [] := by decide
  rw [hempty] at hwarning
  exact absurd hwarning (List.not_mem_nil)

end Bomwerk.Cli
