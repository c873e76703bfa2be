import Bomwerk.Lockfiles.Producer

/-!
# Runs within the package limit

While the package budget lasts, the loop over the entries of a file emits the
component of every valid entry and counts every skipped one.
-/

namespace Bomwerk.Lockfiles

open Bomwerk.Core

namespace Reading

/-- The JSON library throws on the entry. -/
def Throws (reading : Reading) : Prop :=
  reading.outcome = .thrown ∨ reading.outcome = .valid none

/-- What the entry adds to the components. -/
def emission? (reading : Reading) : Option Emission :=
  match reading.outcome with
  | .valid (some component) => some { component := canonicalized component }
  | _ => none

def skip? (reading : Reading) : Option SkipReason :=
  match reading.outcome with
  | .skipped reason => some reason
  | _ => none

def purlWarnings (ecosystem : String) (reading : Reading) : List Warning :=
  match reading.outcome with
  | .valid (some component) =>
    if (parsePurl component.purl).complete then []
    else [{ code := .purlValidationFailed
            message := ecosystem ++ ": " ++
              ("produced purl failed validation: " ++ component.purl)
            ecosystem := ecosystem }]
  | _ => []

end Reading

section Loops

variable {ecosystem : String} {limit : Nat}

theorem emit_spec (state : ParseState) (component : Component)
    (ownIdentity : Bool) :
    (state.emit ecosystem component ownIdentity).emitted =
        state.emitted ++ [{ component := canonicalized component
                            ownIdentity := ownIdentity }] ∧
      (state.emit ecosystem component ownIdentity).packageBudget =
        state.packageBudget := by
  rw [ParseState.emit]
  split_ifs <;> exact ⟨rfl, rfl⟩

/-- A run whose components the budget has room for. -/
theorem parseEntries_of_room {readings : List Reading}
    (hthrows : ∀ reading ∈ readings, ¬reading.Throws) {state : ParseState}
    (hroom : (readings.filterMap Reading.emission?).length ≤
      state.packageBudget)
    (skipped : List SkipReason) :
    ∃ loop, parseEntries ecosystem limit readings state skipped = some loop ∧
      loop.state.emitted =
        state.emitted ++ readings.filterMap Reading.emission? ∧
      loop.skipped = skipped ++ readings.filterMap Reading.skip? ∧
      loop.limitReached = false := by
  induction readings generalizing state skipped with
  | nil => exact ⟨_, rfl, by simp, by simp, rfl⟩
  | cons reading readings ih =>
    rw [List.forall_mem_cons] at hthrows
    rw [parseEntries]
    rcases houtcome : reading.outcome with _ | reason | component? | _
    · have hrest : (readings.filterMap Reading.emission?).length ≤
          (state.absorb reading.warnings).packageBudget := by
        simpa [Reading.emission?, houtcome, ParseState.absorb] using hroom
      obtain ⟨loop, hloop, hemitted, hskipped, hlimit⟩ :=
        ih hthrows.2 hrest skipped
      exact ⟨loop, hloop, by
        simpa [Reading.emission?, houtcome, ParseState.absorb] using hemitted,
        by simpa [Reading.skip?, houtcome] using hskipped, hlimit⟩
    · have hrest : (readings.filterMap Reading.emission?).length ≤
          (state.absorb reading.warnings).packageBudget := by
        simpa [Reading.emission?, houtcome, ParseState.absorb] using hroom
      obtain ⟨loop, hloop, hemitted, hskipped, hlimit⟩ :=
        ih hthrows.2 hrest (skipped ++ [reason])
      exact ⟨loop, hloop, by
        simpa [Reading.emission?, houtcome, ParseState.absorb] using hemitted,
        by simpa [Reading.skip?, houtcome] using hskipped, hlimit⟩
    · obtain ⟨component, rfl⟩ : ∃ component, component? = some component := by
        apply Option.ne_none_iff_exists'.mp
        rintro rfl
        exact hthrows.1 (.inr houtcome)
      have hrest : (readings.filterMap Reading.emission?).length + 1 ≤
          state.packageBudget := by
        simpa [Reading.emission?, houtcome] using hroom
      have hne : (state.absorb reading.warnings).packageBudget ≠ 0 := by
        change state.packageBudget ≠ 0
        omega
      obtain ⟨hemit, hleft⟩ := @emit_spec ecosystem
        { state.absorb reading.warnings with
          packageBudget :=
            (state.absorb reading.warnings).packageBudget - 1 }
        component false
      obtain ⟨loop, hloop, hemitted, hskipped, hlimit⟩ :=
        @ih hthrows.2 _ (by
          rw [hleft]
          change _ ≤ state.packageBudget - 1
          omega) skipped
      refine ⟨loop, by simpa [hne] using hloop, ?_, ?_, hlimit⟩
      · rw [hemitted, hemit]
        simp [Reading.emission?, houtcome, ParseState.absorb]
      · simpa [Reading.skip?, houtcome] using hskipped
    · exact absurd (.inl houtcome) hthrows.1

theorem parseEntries_of_budget {readings : List Reading}
    (hthrows : ∀ reading ∈ readings, ¬reading.Throws) {state : ParseState}
    (hbudget : readings.length ≤ state.packageBudget)
    (skipped : List SkipReason) :
    ∃ loop, parseEntries ecosystem limit readings state skipped = some loop ∧
      loop.state.emitted =
        state.emitted ++ readings.filterMap Reading.emission? ∧
      loop.skipped = skipped ++ readings.filterMap Reading.skip? ∧
      loop.limitReached = false :=
  parseEntries_of_room hthrows
    ((List.length_filterMap_le _ _).trans hbudget) skipped

/-- A run without a thrown entry returns, whatever the budget. -/
theorem exists_parseEntries {readings : List Reading}
    (hthrows : ∀ reading ∈ readings, ¬reading.Throws) (state : ParseState)
    (skipped : List SkipReason) :
    ∃ loop, parseEntries ecosystem limit readings state skipped =
      some loop := by
  induction readings generalizing state skipped with
  | nil => exact ⟨_, rfl⟩
  | cons reading readings ih =>
    rw [List.forall_mem_cons] at hthrows
    rw [parseEntries]
    rcases houtcome : reading.outcome with _ | reason | component? | _
    · exact ih hthrows.2 _ skipped
    · exact ih hthrows.2 _ (skipped ++ [reason])
    · cases component? with
      | none => exact absurd (.inr houtcome) hthrows.1
      | some component =>
        by_cases hbudget : (state.absorb reading.warnings).packageBudget = 0
        · simp [hbudget]
        · simp only [hbudget, if_false]
          exact ih hthrows.2 _ skipped
    · exact absurd (.inl houtcome) hthrows.1

/-- A run over an entry that the library throws on does not return. -/
theorem parseEntries_eq_none {readings : List Reading} {reading : Reading}
    (hmem : reading ∈ readings) (hthrows : reading.Throws)
    {state : ParseState} (hbudget : readings.length ≤ state.packageBudget)
    (skipped : List SkipReason) :
    parseEntries ecosystem limit readings state skipped = none := by
  induction readings generalizing state skipped with
  | nil => cases hmem
  | cons first readings ih =>
    rw [List.length_cons] at hbudget
    have hne : (state.absorb first.warnings).packageBudget ≠ 0 := by
      change state.packageBudget ≠ 0
      omega
    have habsorbed : readings.length ≤
        (state.absorb first.warnings).packageBudget := by
      change readings.length ≤ state.packageBudget
      omega
    rw [parseEntries]
    rcases List.mem_cons.mp hmem with rfl | hmem
    · rcases hthrows with houtcome | houtcome
      · rw [houtcome]
      · rw [houtcome]
        simp [hne]
    · rcases first.outcome with _ | reason | component? | _
      · exact ih hmem habsorbed skipped
      · exact ih hmem habsorbed (skipped ++ [reason])
      · cases component? with
        | none => simp [hne]
        | some component =>
          simp only [hne, if_false]
          refine ih hmem ?_ skipped
          rw [(emit_spec _ component false).2]
          change readings.length ≤ state.packageBudget - 1
          omega
      · rfl

/-- A file whose components the budget has room for. -/
theorem parseManifest_of_room {manifest : Manifest}
    (hown : manifest.ownIdentity = none)
    (hthrows : ∀ reading ∈ manifest.entries, ¬reading.Throws)
    {state : ParseState}
    (hroom : (manifest.entries.filterMap Reading.emission?).length ≤
      state.packageBudget) :
    ∃ behind earlier, parseManifest ecosystem limit manifest state =
        some behind ∧
      behind.emitted =
        state.emitted ++ manifest.entries.filterMap Reading.emission? ∧
      behind.warnings = earlier ++
        manifest.summary false (manifest.entries.filterMap Reading.skip?) := by
  obtain ⟨loop, hloop, hemitted, hskipped, hlimit⟩ :=
    @parseEntries_of_room ecosystem limit _ hthrows
      (state.absorb manifest.warnings) hroom []
  refine ⟨loop.state.absorb (manifest.summary loop.limitReached loop.skipped),
    loop.state.warnings, by rw [parseManifest, hown, hloop]; rfl, hemitted, ?_⟩
  rw [ParseState.absorb, hlimit, hskipped, List.nil_append]

theorem parseManifest_of_budget {manifest : Manifest}
    (hown : manifest.ownIdentity = none)
    (hthrows : ∀ reading ∈ manifest.entries, ¬reading.Throws)
    {state : ParseState}
    (hbudget : manifest.entries.length ≤ state.packageBudget) :
    ∃ behind earlier, parseManifest ecosystem limit manifest state =
        some behind ∧
      behind.emitted =
        state.emitted ++ manifest.entries.filterMap Reading.emission? ∧
      behind.warnings = earlier ++
        manifest.summary false (manifest.entries.filterMap Reading.skip?) :=
  parseManifest_of_room hown hthrows
    ((List.length_filterMap_le _ _).trans hbudget)

theorem parseEntries_warnings {readings : List Reading} {state : ParseState}
    (hbudget : readings.length ≤ state.packageBudget)
    {skipped : List SkipReason} {loop : EntryLoop}
    (hloop : parseEntries ecosystem limit readings state skipped = some loop) :
    loop.state.warnings = state.warnings ++ readings.flatMap fun reading =>
      reading.warnings ++ reading.purlWarnings ecosystem := by
  induction readings generalizing state skipped with
  | nil =>
    obtain rfl := Option.some.inj hloop
    simp
  | cons reading readings ih =>
    rw [List.length_cons] at hbudget
    have habsorbed : readings.length ≤
        (state.absorb reading.warnings).packageBudget := by
      change readings.length ≤ state.packageBudget
      omega
    rw [parseEntries] at hloop
    rcases houtcome : reading.outcome with _ | reason | component? | _
    · rw [houtcome] at hloop
      rw [ih habsorbed hloop]
      simp [ParseState.absorb, Reading.purlWarnings, houtcome]
    · rw [houtcome] at hloop
      rw [ih habsorbed hloop]
      simp [ParseState.absorb, Reading.purlWarnings, houtcome]
    · have hne : (state.absorb reading.warnings).packageBudget ≠ 0 := by
        change state.packageBudget ≠ 0
        omega
      rw [houtcome] at hloop
      simp only [hne, if_false] at hloop
      rcases component? with _ | component
      · cases hloop
      have hleft := (@emit_spec ecosystem
        { state.absorb reading.warnings with
          packageBudget :=
            (state.absorb reading.warnings).packageBudget - 1 }
        component false).2
      rw [ih (by
        rw [hleft]
        change readings.length ≤ state.packageBudget - 1
        omega) hloop]
      rw [List.flatMap_cons, Reading.purlWarnings, houtcome]
      by_cases hcomplete : (parsePurl component.purl).complete = true
      · simp [ParseState.emit, ParseState.absorb, hcomplete]
      · simp [ParseState.emit, ParseState.absorb, ParseState.warn, hcomplete]
    · rw [houtcome] at hloop
      cases hloop

theorem parseManifest_warnings {manifest : Manifest}
    (hown : manifest.ownIdentity = none)
    (hthrows : ∀ reading ∈ manifest.entries, ¬reading.Throws)
    {state behind : ParseState}
    (hbudget : manifest.entries.length ≤ state.packageBudget)
    (hparse : parseManifest ecosystem limit manifest state = some behind) :
    behind.warnings = state.warnings ++ manifest.warnings ++
      (manifest.entries.flatMap fun reading =>
        reading.warnings ++ reading.purlWarnings ecosystem) ++
      manifest.summary false (manifest.entries.filterMap Reading.skip?) := by
  obtain ⟨loop, hloop, -, hskipped, hlimit⟩ :=
    @parseEntries_of_budget ecosystem limit _ hthrows
      (state.absorb manifest.warnings) hbudget []
  rw [parseManifest, hown, hloop] at hparse
  obtain rfl := Option.some.inj hparse
  have habsorbed : manifest.entries.length ≤
      (state.absorb manifest.warnings).packageBudget := hbudget
  have hwarnings := parseEntries_warnings habsorbed hloop
  change loop.state.warnings ++ _ = _
  rw [hwarnings, hlimit, hskipped]
  rfl

end Loops
end Bomwerk.Lockfiles
