import Bomwerk.Core.PurlParts
import Bomwerk.Lockfiles.LimitHonesty

/-!
# Identities of emitted components

A producer puts the purl of a component together from the parts of a package
reference.  The component is well identified exactly where the name among
these parts is not empty, and the merge of equal identities keeps that.
-/

namespace Bomwerk.Lockfiles

open Bomwerk.Core Bomwerk.Support

/-! ## Components and parts -/

/-- A component that a scanner can look up: its purl is canonical and says its
name and its version. -/
structure IsWellIdentified (component : Component) : Prop where
  name : component.name ≠ ""
  accepted : (parsePurl component.purl).complete = true
  canonical : (parsePurl component.purl).value = component.purl
  purlName : purlNameOf (purlIdentityPart component.purl) ≠ ""
  purlVersion : percentDecodeText
    (purlVersionOf (purlIdentityPart component.purl)).toList =
      component.version.toList
  purlPath : percentDecodeText
    (purlPathOf (purlIdentityPart component.purl)) = component.name.toList

/-- A component whose purl is put together from the parts of its name and its
version. -/
structure Carries (component : Component) (parts : PurlParts) : Prop where
  purl : component.purl = String.ofList parts.text
  name : component.name.toList = parts.fullName
  version : component.version.toList = parts.version?.getD []

section Carries

variable {component other : Component} {parts otherParts : PurlParts}

theorem Carries.purl_ne_empty (hcarries : Carries component parts) :
    component.purl ≠ "" := by
  rw [hcarries.purl, ne_eq, ← String.toList_inj, String.toList_ofList]
  exact parts.text_ne_nil

theorem Carries.canonicalized_eq (hcarries : Carries component parts) :
    canonicalized component = component := by
  unfold canonicalized
  split_ifs with hcomplete
  · rw [hcarries.purl] at hcomplete
    have hvalue := parts.parsePurl_text_value hcomplete
    rw [← hcarries.purl] at hvalue
    rw [hvalue]
  · rfl

theorem Carries.componentIdentity_eq (hcarries : Carries component parts) :
    componentIdentity component = component.purl := by
  rw [componentIdentity, if_pos hcarries.purl_ne_empty]
  dsimp only
  split_ifs with hcomplete
  · rw [hcarries.purl] at hcomplete ⊢
    exact parts.parsePurl_text_value hcomplete
  · rfl

theorem Carries.isWellIdentified_iff (hcarries : Carries component parts) :
    IsWellIdentified component ↔ parts.name ≠ [] := by
  constructor
  · intro hidentified hname
    have hempty := hidentified.purlName
    rw [hcarries.purl, parts.purlIdentityPart_text] at hempty
    exact hempty (parts.purlNameOf_text_eq_empty_iff.mpr hname)
  · intro hname
    have hcomplete : (parsePurl (String.ofList parts.text)).complete =
        true := by
      rw [parts.complete_parsePurl_text_iff]
      intro hnil
      have hpath := (List.append_eq_nil_iff.mp hnil).1
      have hencoded := (List.append_eq_nil_iff.mp hpath).2
      exact hname (percentEncodeText_eq_nil_iff.mp hencoded)
    constructor
    · intro hempty
      have hfull := hcarries.name
      rw [hempty] at hfull
      exact hname (parts.fullName_eq_nil_iff.mp hfull.symm).2
    · rw [hcarries.purl]
      exact hcomplete
    · rw [hcarries.purl]
      exact parts.parsePurl_text_value hcomplete
    · rw [hcarries.purl, parts.purlIdentityPart_text]
      exact fun h => hname (parts.purlNameOf_text_eq_empty_iff.mp h)
    · rw [hcarries.purl, parts.purlIdentityPart_text,
        parts.percentDecodeText_purlVersionOf, hcarries.version]
    · rw [hcarries.purl, parts.purlIdentityPart_text, parts.purlPathOf_text,
        parts.percentDecodeText_path, hcarries.name]

/-- Two components of one purl have one name and one version. -/
theorem Carries.eq_of_purl_eq (hcarries : Carries component parts)
    (hother : Carries other otherParts)
    (hpurl : component.purl = other.purl) :
    component.name = other.name ∧ component.version = other.version := by
  have htext : String.ofList parts.text = String.ofList otherParts.text := by
    rw [← hcarries.purl, hpurl, hother.purl]
  have hpath : parts.path = otherParts.path := by
    rw [← parts.purlPathOf_text, htext, otherParts.purlPathOf_text]
  have hversion : parts.version?.getD [] = otherParts.version?.getD [] := by
    rw [← parts.percentDecodeText_purlVersionOf, htext,
      otherParts.percentDecodeText_purlVersionOf]
  constructor
  · rw [← String.toList_inj, hcarries.name, hother.name,
      ← parts.percentDecodeText_path, hpath,
      otherParts.percentDecodeText_path]
  · rw [← String.toList_inj, hcarries.version, hother.version, hversion]

theorem Carries.isWellIdentified_iff_of_purl_eq
    (hcarries : Carries component parts) (hother : Carries other otherParts)
    (hpurl : component.purl = other.purl) :
    IsWellIdentified component ↔ IsWellIdentified other := by
  have htext : String.ofList parts.text = String.ofList otherParts.text := by
    rw [← hcarries.purl, hpurl, hother.purl]
  rw [hcarries.isWellIdentified_iff, hother.isWellIdentified_iff, ne_eq, ne_eq,
    ← parts.purlNameOf_text_eq_empty_iff, htext,
    otherParts.purlNameOf_text_eq_empty_iff]

theorem Carries.normalized (hcarries : Carries component parts) :
    Carries component.normalized parts :=
  ⟨hcarries.purl, hcarries.name, hcarries.version⟩

theorem filled_self (text : String) : filled text text = text := by
  unfold filled
  split_ifs <;> rfl

theorem Carries.mergeInto (hcarries : Carries component parts)
    (hother : Carries other otherParts)
    (hpurl : component.purl = other.purl) :
    Carries (mergeInto component other) parts := by
  obtain ⟨hname, hversion⟩ := hcarries.eq_of_purl_eq hother hpurl
  constructor
  · exact hcarries.purl
  · simp only [Core.mergeInto, ← hname, filled_self]
    exact hcarries.name
  · simp only [Core.mergeInto, ← hversion, filled_self]
    exact hcarries.version

end Carries

section Merge

variable {components : List Component}

/-- What a merged component owes to the identity it stands under. -/
theorem carries_of_mergedByIdentity
    (hcarried : ∀ component ∈ components, ∃ parts, Carries component parts)
    {key : String} {component : Component}
    (hmerged : (mergedByIdentity components)[key]? = some component) :
    component.purl = key ∧ ∃ parts, Carries component parts := by
  refine @foldl_mergeStep_induction
    (fun key component =>
      component.purl = key ∧ ∃ parts, Carries component parts)
    components ?_ ?_ ∅ (by simp) key component hmerged
  · intro component hmem
    obtain ⟨parts, hcarries⟩ := hcarried component hmem
    exact ⟨hcarries.componentIdentity_eq.symm, parts, hcarries.normalized⟩
  · rintro component hmem existing ⟨hpurl, parts, hexisting⟩
    obtain ⟨otherParts, hcarries⟩ := hcarried component hmem
    rw [hcarries.componentIdentity_eq] at hpurl ⊢
    exact ⟨hpurl, parts, hexisting.mergeInto hcarries hpurl⟩

/-- The merge neither mends nor breaks an identity. -/
theorem forall_mem_mergeAll_iff
    (hcarried : ∀ component ∈ components, ∃ parts, Carries component parts) :
    (∀ component ∈ mergeAll components, IsWellIdentified component) ↔
      ∀ component ∈ components, IsWellIdentified component := by
  have hkeys : ∀ key : String, (mergedByIdentity components)[key]?.isSome ↔
      key ∈ components.map componentIdentity := by
    intro key
    simpa [mergedByIdentity] using
      isSome_foldl_mergeStep_iff components ∅ key
  constructor
  · intro hall component hmem
    obtain ⟨parts, hcarries⟩ := hcarried component hmem
    obtain ⟨merged, hmerged⟩ := Option.isSome_iff_exists.mp
      ((hkeys (componentIdentity component)).mpr
        (List.mem_map_of_mem hmem))
    obtain ⟨hpurl, mergedParts, hmergedCarries⟩ :=
      carries_of_mergedByIdentity hcarried hmerged
    have hin : merged ∈ mergeAll components :=
      List.mem_map.mpr ⟨_, mem_toList_iff.mpr hmerged, rfl⟩
    rw [hcarries.componentIdentity_eq] at hpurl
    exact (hmergedCarries.isWellIdentified_iff_of_purl_eq hcarries hpurl).mp
      (hall merged hin)
  · intro hall merged hin
    obtain ⟨⟨key, _⟩, hpair, rfl⟩ := List.mem_map.mp hin
    have hmerged := mem_toList_iff.mp hpair
    obtain ⟨hpurl, mergedParts, hmergedCarries⟩ :=
      carries_of_mergedByIdentity hcarried hmerged
    obtain ⟨component, hmem, hkey⟩ := List.mem_map.mp
      ((hkeys key).mp (Option.isSome_iff_exists.mpr ⟨_, hmerged⟩))
    obtain ⟨parts, hcarries⟩ := hcarried component hmem
    rw [hcarries.componentIdentity_eq] at hkey
    exact (hmergedCarries.isWellIdentified_iff_of_purl_eq hcarries
      (hpurl.trans hkey.symm)).mpr (hall component hmem)

end Merge

section Run

/-- Nothing but entries has been emitted. -/
def EmitsEntriesOnly (state : ParseState) : Prop :=
  ∀ emission ∈ state.emitted, emission.ownIdentity = false

variable {ecosystem : String} {limit : Nat} {state : ParseState}

theorem EmitsEntriesOnly.emit (hstate : EmitsEntriesOnly state)
    (component : Component) :
    EmitsEntriesOnly (state.emit ecosystem component false) := by
  intro emission hmem
  rw [emit_emitted, List.mem_append, List.mem_singleton] at hmem
  rcases hmem with hold | rfl
  · exact hstate emission hold
  · rfl

theorem EmitsEntriesOnly.parseEntries {readings : List Reading}
    (hstate : EmitsEntriesOnly state) {skipped : List SkipReason}
    {loop : EntryLoop}
    (hafter : parseEntries ecosystem limit readings state skipped =
      some loop) : EmitsEntriesOnly loop.state := by
  refine parseEntries_keeps (P := EmitsEntriesOnly) (fun _ _ _ hkept => hkept)
    (fun _ hkept => hkept) (fun earlier component hkept => ?_) hstate hafter
  have hspent : EmitsEntriesOnly
      { earlier with packageBudget := earlier.packageBudget - 1 } := hkept
  exact hspent.emit component

variable {producer : Producer} {options : ParseOptions}
  {contents : FsPath → Option (List UInt8)}

/-- A producer whose files are nothing themselves. -/
def Producer.HasNoOwnIdentity (producer : Producer) : Prop :=
  ∀ path bytes, (producer.manifest path bytes).ownIdentity = none

theorem EmitsEntriesOnly.parseFile (hproducer : producer.HasNoOwnIdentity)
    (hstate : EmitsEntriesOnly state) {path : FsPath} {after : ParseState}
    (hafter : parseFile producer options contents path state = some after) :
    EmitsEntriesOnly after := by
  simp only [Lockfiles.parseFile] at hafter
  cases hbytes : parsedBytes producer options contents path with
  | none =>
    rw [hbytes] at hafter
    obtain rfl := Option.some.inj hafter
    exact hstate
  | some bytes =>
    rw [hbytes] at hafter
    simp only [parseManifest, hproducer path bytes] at hafter
    obtain ⟨loop, hloop, rfl⟩ := Option.map_eq_some_iff.mp hafter
    have hstart : EmitsEntriesOnly ((state.absorb (readWarnings producer
        options contents path)).absorb
          (producer.manifest path bytes).warnings) := hstate
    exact hstart.parseEntries hloop

theorem EmitsEntriesOnly.parseFiles (hproducer : producer.HasNoOwnIdentity)
    (hstate : EmitsEntriesOnly state) {files : List FsPath} {scanned : Nat}
    {after : ParseState}
    (hafter : parseFiles producer options contents files scanned state =
      some after) : EmitsEntriesOnly after := by
  induction files generalizing state scanned with
  | nil =>
    obtain rfl := Option.some.inj hafter
    exact hstate
  | cons path files ih =>
    simp only [Lockfiles.parseFiles] at hafter
    split_ifs at hafter
    · exact ih hstate hafter
    · obtain rfl := Option.some.inj hafter
      exact hstate
    · obtain rfl := Option.some.inj hafter
      exact hstate
    · obtain ⟨mid, hmid, hrest⟩ := Option.bind_eq_some_iff.mp hafter
      exact ih (hstate.parseFile hproducer hmid) hrest

/-- A run emits the first entries within the package limit. -/
theorem emitted_parseUnmerged (hunlimited : producer.IsUnlimited)
    (hproducer : producer.HasNoOwnIdentity) {files : List FsPath}
    (hstate : parseUnmerged producer options contents files = some state) :
    (state.emitted.map Emission.component).map some =
      (validEntries (admittedReadings producer options contents files)).take
        options.maxTotalPackages := by
  have hentries : EmitsEntriesOnly state := by
    refine EmitsEntriesOnly.parseFiles hproducer ?_ hstate
    simp [EmitsEntriesOnly]
  have hdependencies : state.dependencies =
      state.emitted.map Emission.component := by
    rw [ParseState.dependencies, List.filter_eq_self.mpr]
    intro emission hmem
    simp [hentries emission hmem]
  rw [← hdependencies]
  exact (((parseUnmerged_spec hunlimited).2 state hstate).accounted).dependencies

end Run
end Bomwerk.Lockfiles
