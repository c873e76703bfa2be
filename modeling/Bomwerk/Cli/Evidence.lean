import Bomwerk.Cli.Rewrite
import Bomwerk.Cli.Soundness

/-!
# Evidence across rewriting commands

The writer records content-match evidence as properties and the reader restores
the first few of them.  Nothing a rewriting command does touches that evidence,
so once it is within the reader's bound it stays in every later document, as
long as the component does.
-/

namespace Bomwerk.Cli

open Bomwerk.Core Bomwerk.Support Bomwerk.Observe Bomwerk.Output Bomwerk.Sbom
open Bomwerk.Vuln
open Bomwerk.Binscan hiding evidenceDetails

/-! ## What a command leaves alone -/

/-- A processed component is still recognised as the one that was read, and
carries its content-match evidence. -/
structure SameOrigin (read processed : Component) : Prop where
  identity : componentIdentity processed = componentIdentity read
  fingerprints : evidenceDetails .fingerprint processed =
    evidenceDetails .fingerprint read

theorem SameOrigin.trans {first second third : Component}
    (hfirst : SameOrigin first second) (hsecond : SameOrigin second third) :
    SameOrigin first third where
  identity := hsecond.identity.trans hfirst.identity
  fingerprints := hsecond.fingerprints.trans hfirst.fingerprints

theorem sameOrigin_populateCpe (scope : CpePopulationScope)
    (component : Component) :
    SameOrigin component (populateCpe scope component) := by
  obtain ⟨cpe, provenance, hframe⟩ := populateCpe_frame scope component
  rw [hframe]
  exact ⟨rfl, rfl⟩

theorem evidenceDetails_append_of_ne {source : Source} (component : Component)
    {added : List Evidence}
    (hadded : ∀ evidence ∈ added, evidence.source ≠ source) :
    evidenceDetails source
        { component with evidence := component.evidence ++ added } =
      evidenceDetails source component := by
  have hnone : added.filter (·.source = source) = [] := by
    rw [List.filter_eq_nil_iff]
    intro evidence hmem
    simpa using hadded evidence hmem
  simp only [evidenceDetails, List.filter_append, hnone, List.append_nil]

theorem sameOrigin_markComponent (map : CompileMap) (component : Component) :
    SameOrigin component (markComponent map component) := by
  refine ⟨?_, ?_⟩
  · obtain ⟨used, evidence, hframe⟩ := markComponent_frame map component
    rw [hframe]
    rfl
  · simp only [markComponent]
    split
    · rfl
    split
    · rfl
    · rename_i evidence hevidence
      have hsource : evidence.source = .observedBuild := by
        unfold usageEvidence at hevidence
        split at hevidence
        · simp at hevidence
        all_goals
          obtain rfl := Option.some.inj hevidence
          rfl
      have hadded : ∀ added ∈ [evidence], added.source ≠ .fingerprint := by
        simp [hsource]
      exact evidenceDetails_append_of_ne component hadded

theorem sameOrigin_applyToComponent (map : BinaryMap) (component : Component) :
    SameOrigin component (applyToComponent map component) where
  identity := rfl
  fingerprints := by
    apply evidenceDetails_append_of_ne
    simp

namespace RewriteCommand

variable (command : RewriteCommand) (bytes : JsonText)

/-- A command processes the components it read one by one. -/
theorem exists_processed_eq :
    ∃ change : Component → Component,
      (∀ component, SameOrigin component (change component)) ∧
        command.processed bytes =
          (readCyclonedx bytes).value.components.map change := by
  have hpopulate := sameOrigin_populateCpe command.options.cpeScope
  rw [processed]
  cases command.tool with
  | trim =>
    by_cases hunusable :
        command.trace.complete = false ∨ command.trace.value = []
    · exact ⟨_, hpopulate, (judgedComponents_of_unusable command.fileSystem
        command.options _ hunusable).2⟩
    · obtain ⟨hcomplete, hrecords⟩ := not_or.mp hunusable
      have hjudged := (judgedComponents_of_usable command.fileSystem
        command.options (readCyclonedx bytes).value
        (by simpa using hcomplete) hrecords).2
      rw [populateCpeIdentifiers, List.map_map] at hjudged
      refine ⟨_, ?_, hjudged⟩
      intro component
      exact (hpopulate component).trans (sameOrigin_markComponent _ _)
  | binscan mapBinariesToRoots =>
    simp only [applyBinaryEvidence, populatedComponents,
      populateCpeIdentifiers, List.map_map]
    refine ⟨_, ?_, rfl⟩
    intro component
    exact (hpopulate component).trans (sameOrigin_applyToComponent _ _)

/-- Trim judged a component of this identity unused. -/
def Drops (identity : String) : Prop :=
  command.tool = .trim ∧ ∃ component ∈ command.processed bytes,
    componentIdentity component = identity ∧ component.usedInBuild = false

theorem writtenComponents_sublist :
    (command.writtenComponents bytes).Sublist (command.processed bytes) := by
  rw [writtenComponents]
  split
  · exact List.filter_sublist
  · exact List.Sublist.refl _

theorem mem_writtenComponents_or_drops {component : Component}
    (hmem : component ∈ command.processed bytes) :
    component ∈ command.writtenComponents bytes ∨
      command.Drops bytes (componentIdentity component) := by
  rw [writtenComponents]
  cases htool : command.tool with
  | trim =>
    by_cases hused : component.usedInBuild = true
    · exact Or.inl (List.mem_filter.mpr ⟨hmem, hused⟩)
    · exact Or.inr ⟨htool, component, hmem, rfl, by simpa using hused⟩
  | binscan mapBinariesToRoots => exact Or.inl hmem

end RewriteCommand

theorem pairwise_evidenceDetails {source : Source} {component : Component}
    (hsorted : component.evidence.Pairwise fun a b => a.key < b.key) :
    (evidenceDetails source component).Pairwise (· < ·) := by
  rw [evidenceDetails, List.pairwise_map, List.pairwise_filter]
  refine hsorted.imp ?_
  intro first second hlt hfirst hsecond
  simp only [decide_eq_true_eq] at hfirst hsecond
  simpa [Evidence.key, Prod.Lex.toLex_lt_toLex, hfirst, hsecond] using hlt

theorem restoredFingerprints_sublist (component : Component) :
    (restoredFingerprints component).Sublist
      (evidenceDetails .fingerprint component) :=
  (List.take_sublist _ _).trans List.filter_sublist

theorem pairwise_evidence_restored {component : Component}
    (hsorted : (evidenceDetails .fingerprint component).Pairwise (· < ·)) :
    (restored component).evidence.Pairwise fun a b => a.key < b.key := by
  have hdetails := hsorted.sublist (restoredFingerprints_sublist component)
  refine List.pairwise_cons.mpr ⟨?_, ?_⟩
  · intro evidence hmem
    obtain ⟨detail, -, rfl⟩ := List.mem_map.mp hmem
    refine Prod.Lex.toLex_lt_toLex.mpr (Or.inl ?_)
    simp [sbomInputEvidence, fingerprintEvidence, Source.rank]
  · refine List.pairwise_map.mpr (hdetails.imp ?_)
    intro first second hlt
    exact Prod.Lex.toLex_lt_toLex.mpr (Or.inr ⟨rfl, hlt⟩)

/-- The reader restores the first details that are not empty, up to its
bound. -/
theorem evidenceDetails_normalized_restored {component : Component}
    (hsorted : (evidenceDetails .fingerprint component).Pairwise (· < ·)) :
    evidenceDetails .fingerprint (restored component).normalized =
      restoredFingerprints component := by
  have hnormalized : (restored component).normalized = restored component := by
    simp only [Component.normalized,
      normalizeEvidence_eq_self (pairwise_evidence_restored hsorted)]
  have hfilter : ∀ details : List String,
      (details.map fingerprintEvidence).filter
        (·.source = Source.fingerprint) = details.map fingerprintEvidence := by
    intro details
    simp [List.filter_eq_self, fingerprintEvidence]
  have hmap : ∀ details : List String,
      (details.map fingerprintEvidence).map Evidence.detail = details := by
    intro details
    simp [fingerprintEvidence, Function.comp_def]
  rw [hnormalized, evidenceDetails, restored, List.filter_cons_of_neg
    (by decide), hfilter, hmap]

theorem restoredFingerprints_of_evidenceDetails_eq
    {component processed : Component}
    (hdetails : evidenceDetails .fingerprint processed =
      restoredFingerprints component) :
    restoredFingerprints processed = restoredFingerprints component := by
  rw [restoredFingerprints, hdetails, restoredFingerprints,
    List.filter_eq_self.mpr, List.take_take, Nat.min_self]
  intro detail hmem
  exact (List.mem_filter.mp (List.mem_of_mem_take hmem)).2

/-! ## Runs -/

/-- A sequence of rewriting commands, with the document each one read. -/
inductive RewriteRun (uuid : String → String) (start : JsonText) :
    List (RewriteCommand × JsonText) → JsonText → Prop
  | start : RewriteRun uuid start [] start
  | step {steps : List (RewriteCommand × JsonText)} {bytes : JsonText}
      {command : RewriteCommand} {rewritten : JsonText} :
      RewriteRun uuid start steps bytes →
      command.rewrite uuid bytes = some rewritten →
      RewriteRun uuid start (steps ++ [(command, bytes)]) rewritten

/-- The components of a document, seen from the list it goes back to: each
still carries the evidence the reader restores of its original, and every
original is still there unless its identity was dropped. -/
structure CarriesEvidence (origin : List Component) (dropped : String → Prop)
    (written : List Component) : Prop where
  nodup : (written.map componentIdentity).Nodup
  sorted : ∀ component ∈ written,
    (evidenceDetails .fingerprint component).Pairwise (· < ·)
  traced : ∀ component ∈ written, ∃ original ∈ origin,
    componentIdentity component = componentIdentity original ∧
      restoredFingerprints component = restoredFingerprints original
  present : ∀ original ∈ origin, (∃ component ∈ written,
      componentIdentity component = componentIdentity original) ∨
        dropped (componentIdentity original)

section Step

variable {origin written : List Component} {dropped : String → Prop}
  (hcarries : CarriesEvidence origin dropped written)
  (environment : WriterEnvironment) (tool : ToolInfo)
  (releaseMeta : ReleaseMeta) (craMetadata : CraMetadata)
include hcarries

theorem CarriesEvidence.mem_readBack_iff {read : Component} :
    read ∈ readBack environment written tool releaseMeta craMetadata ↔
      ∃ component ∈ written, (restored component).normalized = read := by
  rw [readBack_of_nodup environment tool releaseMeta craMetadata
    hcarries.nodup, List.mem_map]
  simp only [componentsByIdentity, List.mem_insertionSort]

theorem CarriesEvidence.nodup_readBack :
    ((readBack environment written tool releaseMeta craMetadata).map
      componentIdentity).Nodup := by
  have hidentities : (readBack environment written tool releaseMeta
      craMetadata).map componentIdentity =
        (componentsByIdentity written).map componentIdentity := by
    rw [readBack_of_nodup environment tool releaseMeta craMetadata
      hcarries.nodup, List.map_map]
    rfl
  rw [hidentities]
  exact (identityIncreasing_componentsByIdentity hcarries.nodup).imp
    fun h => h.ne

/-- One command hands on what the document carries. -/
theorem CarriesEvidence.step (command : RewriteCommand) {bytes : JsonText}
    (hbytes : bytes =
      writeCyclonedx environment written tool releaseMeta craMetadata) :
    CarriesEvidence origin
      (fun identity => dropped identity ∨ command.Drops bytes identity)
      (command.writtenComponents bytes) := by
  obtain ⟨change, hchange, hprocessed⟩ := command.exists_processed_eq bytes
  have hread : (readCyclonedx bytes).value.components =
      readBack environment written tool releaseMeta craMetadata := by
    rw [hbytes, readBack]
  rw [hread] at hprocessed
  have hsublist := command.writtenComponents_sublist bytes
  have hsource : ∀ component ∈ command.writtenComponents bytes,
      ∃ before ∈ written,
        componentIdentity component = componentIdentity before ∧
          evidenceDetails .fingerprint component =
            restoredFingerprints before := by
    intro component hmem
    have hmem := hsublist.subset hmem
    rw [hprocessed] at hmem
    obtain ⟨read, hreadMem, rfl⟩ := List.mem_map.mp hmem
    obtain ⟨before, hbefore, rfl⟩ := (hcarries.mem_readBack_iff environment
      tool releaseMeta craMetadata).mp hreadMem
    refine ⟨before, hbefore, (hchange _).identity, ?_⟩
    rw [(hchange _).fingerprints,
      evidenceDetails_normalized_restored (hcarries.sorted before hbefore)]
  refine ⟨?_, ?_, ?_, ?_⟩
  · have hidentities : (command.processed bytes).map componentIdentity =
        (readBack environment written tool releaseMeta craMetadata).map
          componentIdentity := by
      rw [hprocessed, List.map_map]
      exact List.map_congr_left fun component _ => (hchange component).identity
    refine (hsublist.map componentIdentity).nodup ?_
    rw [hidentities]
    exact hcarries.nodup_readBack environment tool releaseMeta craMetadata
  · intro component hmem
    obtain ⟨before, hbefore, -, hdetails⟩ := hsource component hmem
    rw [hdetails]
    exact (hcarries.sorted before hbefore).sublist
      (restoredFingerprints_sublist before)
  · intro component hmem
    obtain ⟨before, hbefore, hidentity, hdetails⟩ := hsource component hmem
    obtain ⟨original, horiginal, hsame, hrestored⟩ :=
      hcarries.traced before hbefore
    exact ⟨original, horiginal, hidentity.trans hsame,
      (restoredFingerprints_of_evidenceDetails_eq hdetails).trans hrestored⟩
  · intro original horiginal
    rcases hcarries.present original horiginal with
      ⟨component, hmem, hidentity⟩ | hdropped
    · have hprocessedMem : change (restored component).normalized ∈
          command.processed bytes := by
        rw [hprocessed]
        exact List.mem_map_of_mem ((hcarries.mem_readBack_iff environment
          tool releaseMeta craMetadata).mpr ⟨component, hmem, rfl⟩)
      have hsame : componentIdentity (change (restored component).normalized) =
          componentIdentity original :=
        (hchange _).identity.trans hidentity
      rcases command.mem_writtenComponents_or_drops bytes hprocessedMem with
        hwritten | hdrops
      · exact Or.inl ⟨_, hwritten, hsame⟩
      · exact Or.inr (Or.inr (hsame ▸ hdrops))
    · exact Or.inr (Or.inl hdropped)

end Step

/-- Trim judged a component of this identity unused somewhere in a run. -/
def DroppedIn (steps : List (RewriteCommand × JsonText)) (identity : String) :
    Prop :=
  ∃ step ∈ steps, step.1.Drops step.2 identity

theorem CarriesEvidence.refl {origin : List Component}
    (hnodup : (origin.map componentIdentity).Nodup)
    (hsorted : ∀ component ∈ origin,
      component.evidence.Pairwise fun a b => a.key < b.key)
    (dropped : String → Prop) : CarriesEvidence origin dropped origin where
  nodup := hnodup
  sorted component hmem := pairwise_evidenceDetails (hsorted component hmem)
  traced component hmem := ⟨component, hmem, rfl, rfl⟩
  present original hmem := Or.inl ⟨original, hmem, rfl⟩

theorem CarriesEvidence.mono {origin written : List Component}
    {dropped more : String → Prop}
    (hmore : ∀ identity, dropped identity → more identity)
    (hcarries : CarriesEvidence origin dropped written) :
    CarriesEvidence origin more written where
  nodup := hcarries.nodup
  sorted := hcarries.sorted
  traced := hcarries.traced
  present original hmem := (hcarries.present original hmem).imp_right (hmore _)

/-- Every document of a run is a written one that carries the evidence. -/
theorem carriesEvidence_of_run {uuid : String → String} {start : JsonText}
    {steps : List (RewriteCommand × JsonText)} {rewritten : JsonText}
    (hrun : RewriteRun uuid start steps rewritten) {origin : List Component}
    (hnodup : (origin.map componentIdentity).Nodup)
    (hsorted : ∀ component ∈ origin,
      component.evidence.Pairwise fun a b => a.key < b.key)
    (hstart : ∃ environment tool releaseMeta craMetadata,
      start = writeCyclonedx environment origin tool releaseMeta
        craMetadata) :
    ∃ environment written tool releaseMeta craMetadata,
      rewritten = writeCyclonedx environment written tool releaseMeta
          craMetadata ∧
        CarriesEvidence origin (DroppedIn steps) written := by
  induction hrun with
  | start =>
    obtain ⟨environment, tool, releaseMeta, craMetadata, hbytes⟩ := hstart
    exact ⟨environment, origin, tool, releaseMeta, craMetadata, hbytes,
      CarriesEvidence.refl hnodup hsorted _⟩
  | @step steps bytes command rewritten hrun hrewrite ih =>
    obtain ⟨environment, written, tool, releaseMeta, craMetadata, hbytes,
      hcarries⟩ := ih
    have hstep := hcarries.step environment tool releaseMeta craMetadata
      command hbytes
    refine ⟨_, _, _, _, _, command.eq_of_rewrite _ _ hrewrite, hstep.mono ?_⟩
    rintro identity (⟨step, hmem, hdrops⟩ | hdrops)
    · exact ⟨step, List.mem_append_left _ hmem, hdrops⟩
    · exact ⟨(command, bytes), by simp, hdrops⟩

/-- The sample component, matched against some vendor roots. -/
def matchedComponent (vendorRoots : Nat) : Component :=
  { sampleComponent with
    evidence := (List.range vendorRoots).map fun root =>
      { source := .fingerprint
        detail := "match " ++ toString root
        confidence := .high } }

/-- Every item written as an evidence property is restored. -/
def RestoresEvidence (environment : WriterEnvironment)
    (components : List Component) (tool : ToolInfo) (releaseMeta : ReleaseMeta)
    (craMetadata : CraMetadata) : Prop :=
  ∀ component ∈ components, ∀ source ∈ [Source.binary, Source.fingerprint],
    ∀ detail ∈ evidenceDetails source component,
      ∃ read ∈ readBack environment components tool releaseMeta craMetadata,
        componentIdentity read = componentIdentity component ∧
          detail ∈ evidenceDetails source read

instance (environment : WriterEnvironment) (components : List Component)
    (tool : ToolInfo) (releaseMeta : ReleaseMeta) (craMetadata : CraMetadata) :
    Decidable (RestoresEvidence environment components tool releaseMeta
      craMetadata) :=
  inferInstanceAs (Decidable (∀ component ∈ components, _))

end Bomwerk.Cli
