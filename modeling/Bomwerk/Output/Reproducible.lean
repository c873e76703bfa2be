import Bomwerk.Core.Merge
import Bomwerk.Output.Cyclonedx
import Bomwerk.Support.Lines

/-!
# Reproducible documents

Detections that do not contradict each other are merged into the same list in
whatever order they were found, and so are written alike.  The serial number is
derived from the identities of the components, one on each line.
-/

namespace Bomwerk.Output

open Bomwerk.Core Bomwerk.Support

/-- Two detections have the same purl and differ in no field that both have. -/
@[mk_iff]
structure Agree (left right : Component) : Prop where
  purl : left.purl = right.purl
  name : Agrees (· = "") left.name right.name
  version : Agrees (· = "") left.version right.version
  supplier : Agrees (· = "") left.supplier right.supplier
  license : Agrees (· = "") left.license right.license
  sha256 : Agrees (· = "") left.sha256 right.sha256
  cpe : Agrees (fun cpe : String × CpeProvenance => cpe.1 = "")
    (left.cpe, left.cpeProvenance) (right.cpe, right.cpeProvenance)
  root : Agrees (fun root : FsPath => root.isEmpty = true) left.root right.root

instance (left right : Component) : Decidable (Agree left right) :=
  decidable_of_iff' _ (agree_iff left right)

/-- Detections of one identity agree. -/
def Agreeing (components : List Component) : Prop :=
  ∀ left ∈ components, ∀ right ∈ components,
    componentIdentity left = componentIdentity right → Agree left right

instance (components : List Component) : Decidable (Agreeing components) :=
  inferInstanceAs (Decidable (∀ left ∈ components, ∀ right ∈ components,
    componentIdentity left = componentIdentity right → Agree left right))

section Group

variable {first first' : Component} {rest rest' : List Component}

/-- A field that is filled, and on which the detections agree. -/
theorem foldl_mergeInto_field_perm {β : Type*} (empty : β → Prop)
    [DecidablePred empty] (field : Component → β)
    (hfield : ∀ destination source, field (mergeInto destination source) =
        fill empty (field destination) (field source))
    (hnormalized : ∀ component : Component,
      field component.normalized = field component)
    (hagrees : ∀ left ∈ first :: rest, ∀ right ∈ first :: rest,
      Agrees empty (field left) (field right))
    (hperm : (first :: rest).Perm (first' :: rest')) :
    field (rest.foldl mergeInto first.normalized) =
      field (rest'.foldl mergeInto first'.normalized) := by
  rw [foldl_mergeInto_fill hfield, foldl_mergeInto_fill hfield, hnormalized,
    hnormalized]
  refine foldl_fill_perm empty ?_ (hperm.map field)
  intro left hleft right hright
  rw [← List.map_cons, List.mem_map] at hleft hright
  obtain ⟨left, hleft, rfl⟩ := hleft
  obtain ⟨right, hright, rfl⟩ := hright
  exact hagrees left hleft right hright

theorem foldl_mergeInto_perm
    (hagree : ∀ left ∈ first :: rest, ∀ right ∈ first :: rest, Agree left right)
    (hperm : (first :: rest).Perm (first' :: rest')) :
    rest.foldl mergeInto first.normalized =
      rest'.foldl mergeInto first'.normalized := by
  have hpurl : (rest.foldl mergeInto first.normalized).purl =
      (rest'.foldl mergeInto first'.normalized).purl := by
    rw [foldl_mergeInto_purl, foldl_mergeInto_purl]
    exact (hagree first (by simp) first' (hperm.mem_iff.mpr (by simp))).purl
  have hcpe := foldl_mergeInto_field_perm
    (fun cpe : String × CpeProvenance => cpe.1 = "")
    (fun component => (component.cpe, component.cpeProvenance))
    (fun destination source => by
      by_cases hempty : destination.cpe = "" <;>
        simp [mergeInto, filled, fill, hempty])
    (fun _ => rfl)
    (fun left hleft right hright => (hagree left hleft right hright).cpe) hperm
  rw [Prod.mk.injEq] at hcpe
  have htext : ∀ field : Component → String,
      (∀ destination source, field (mergeInto destination source) =
        fill (· = "") (field destination) (field source)) →
      (∀ component : Component, field component.normalized = field component) →
      (∀ left right, Agree left right →
        Agrees (· = "") (field left) (field right)) →
      field (rest.foldl mergeInto first.normalized) =
        field (rest'.foldl mergeInto first'.normalized) :=
    fun field hfield hnormalized hagrees =>
      foldl_mergeInto_field_perm (· = "") field hfield hnormalized
        (fun left hleft right hright =>
          hagrees left right (hagree left hleft right hright)) hperm
  ext1
  · exact htext Component.name (fun _ _ => rfl) (fun _ => rfl)
      fun _ _ hagree => hagree.name
  · exact htext Component.version (fun _ _ => rfl) (fun _ => rfl)
      fun _ _ hagree => hagree.version
  · exact htext Component.supplier (fun _ _ => rfl) (fun _ => rfl)
      fun _ _ hagree => hagree.supplier
  · exact htext Component.license (fun _ _ => rfl) (fun _ => rfl)
      fun _ _ hagree => hagree.license
  · exact hpurl
  · exact hcpe.1
  · exact hcpe.2
  · exact htext Component.sha256 (fun _ _ => rfl) (fun _ => rfl)
      fun _ _ hagree => hagree.sha256
  · exact foldl_mergeInto_field_perm
      (fun root : FsPath => root.isEmpty = true) Component.root
      (fun _ _ => rfl) (fun _ => rfl)
      (fun left hleft right hright =>
        (hagree left hleft right hright).root) hperm
  · exact foldl_mergeInto_evidence_perm hperm
  · exact foldl_mergeInto_usedInBuild_perm hperm
  · exact foldl_mergeInto_scope_perm hperm

end Group

/-- Detections that agree are merged into one list, in whatever order. -/
theorem mergeAll_perm {components permuted : List Component}
    (hagreeing : Agreeing components) (hperm : permuted.Perm components) :
    mergeAll permuted = mergeAll components := by
  rw [mergeAll_eq_map, mergeAll_eq_map, identities_perm hperm]
  refine List.map_congr_left fun identity hmem => ?_
  obtain ⟨first, rest, hgroup, hmerged⟩ := exists_mergedUnder hmem
  obtain ⟨first', rest', hgroup', hmerged'⟩ :=
    exists_mergedUnder (identities_perm hperm ▸ hmem)
  have hagree : ∀ left ∈ first :: rest, ∀ right ∈ first :: rest,
      Agree left right := by
    intro left hleft right hright
    rw [← hgroup, mem_filedUnder] at hleft hright
    exact hagreeing left hleft.1 right hright.1
      (hleft.2.trans hright.2.symm)
  have hgroups : (first :: rest).Perm (first' :: rest') := by
    rw [← hgroup, ← hgroup']
    exact (filedUnder_perm hperm identity).symm
  rw [hmerged, hmerged', foldl_mergeInto_perm hagree hgroups]

def serialNumberInput (components : List Component) : String :=
  String.join (((components.map componentIdentity).insertionSort (· ≤ ·)).map
    fun id => id ++ "\n")

/-- No identity spans several lines. -/
def SingleLines (components : List Component) : Prop :=
  ∀ component ∈ components, '\n' ∉ (componentIdentity component).toList

instance (components : List Component) : Decidable (SingleLines components) :=
  inferInstanceAs (Decidable (∀ component ∈ components, _))

theorem toList_serialNumberInput (components : List Component) :
    (serialNumberInput components).toList = joinTerminated '\n'
        (((components.map componentIdentity).insertionSort (· ≤ ·)).map
          String.toList) := by
  rw [serialNumberInput, String.toList_join, joinTerminated, List.flatMap_map,
    List.flatMap_map]
  simp

theorem identities_perm_of_serialNumberInput_eq
    {left right : List Component} (hleft : SingleLines left)
    (hright : SingleLines right)
    (hinput : serialNumberInput left = serialNumberInput right) :
    (left.map componentIdentity).Perm (right.map componentIdentity) := by
  have hlines : ∀ components : List Component, SingleLines components →
      ∀ piece ∈ ((components.map componentIdentity).insertionSort
        (· ≤ ·)).map String.toList, '\n' ∉ piece := by
    intro components hsingle piece hpiece
    simp only [List.mem_map, List.mem_insertionSort] at hpiece
    obtain ⟨_, ⟨component, hmem, rfl⟩, rfl⟩ := hpiece
    exact hsingle component hmem
  have hjoined := congrArg String.toList hinput
  rw [toList_serialNumberInput, toList_serialNumberInput] at hjoined
  have hsorted := joinTerminated_injective (hlines left hleft)
    (hlines right hright) hjoined
  have hsame := List.map_injective_iff.mpr
    (fun _ _ h => String.toList_inj.mp h) hsorted
  exact (List.perm_insertionSort (· ≤ ·) _).symm.trans
    (hsame ▸ List.perm_insertionSort (· ≤ ·) _)

/-- The document of detections that agree does not depend on their order, and
documents of different identities have different serial numbers to derive. -/
theorem writeCyclonedx_mergeAll_perm :
    (∀ components permuted : List Component, Agreeing components →
      permuted.Perm components →
        ∀ environment tool releaseMeta craMetadata,
          writeCyclonedx environment (mergeAll permuted) tool releaseMeta
              craMetadata =
            writeCyclonedx environment (mergeAll components) tool releaseMeta
              craMetadata) ∧
      ∀ left right : List Component, SingleLines left → SingleLines right →
        ¬ (left.map componentIdentity).Perm (right.map componentIdentity) →
          serialNumberInput left ≠ serialNumberInput right := by
  constructor
  · intro components permuted hagreeing hperm environment tool releaseMeta
      craMetadata
    rw [mergeAll_perm hagreeing hperm]
  · intro left right hleft hright hdiffer hinput
    exact hdiffer (identities_perm_of_serialNumberInput_eq hleft hright hinput)

/-- A manifest and a lockfile that found one package, the second with its
license. -/
theorem writeCyclonedx_mergeAll_perm_license :
    writeCyclonedx { uuid := id, timestamp := "2026-01-01T00:00:00Z" }
        (mergeAll
          [{ name := "a", purl := "pkg:npm/a@1", license := "MIT" },
            { name := "a", purl := "pkg:npm/a@1", version := "1" }])
        ⟨"bomwerk", "1"⟩ {} {} =
      writeCyclonedx { uuid := id, timestamp := "2026-01-01T00:00:00Z" }
        (mergeAll
          [{ name := "a", purl := "pkg:npm/a@1", version := "1" },
            { name := "a", purl := "pkg:npm/a@1", license := "MIT" }])
        ⟨"bomwerk", "1"⟩ {} {} ∧
      serialNumberInput [{ name := "a", version := "1" }] ≠
        serialNumberInput [{ name := "a", version := "2" }] :=
  ⟨writeCyclonedx_mergeAll_perm.1 _ _ (by decide) (List.Perm.swap _ _ _) _ _ _ _,
    writeCyclonedx_mergeAll_perm.2 _ _ (by decide) (by decide) (by decide)⟩

/-- The license that a document names for each component. -/
def writtenLicenses (text : JsonText) : List (List (Option String)) :=
  let document := text.getD .null
  ((document.findArray? "components").getD []).map fun component =>
    ((component.findArray? "licenses").getD []).map fun entry =>
      (entry.find? "license").bind (Json.findString? · "name")

/-- Of two licenses found for one package the first one is written, and a line
break in a name is read as the end of an identity. -/
theorem not_reproducible_of_licenses :
    writeCyclonedx { uuid := id, timestamp := "2026-01-01T00:00:00Z" }
        (mergeAll
          [{ name := "a", purl := "pkg:npm/a@1", license := "MIT" },
            { name := "a", purl := "pkg:npm/a@1", license := "Zlib" }])
        ⟨"bomwerk", "1"⟩ {} {} ≠
      writeCyclonedx { uuid := id, timestamp := "2026-01-01T00:00:00Z" }
        (mergeAll
          [{ name := "a", purl := "pkg:npm/a@1", license := "Zlib" },
            { name := "a", purl := "pkg:npm/a@1", license := "MIT" }])
        ⟨"bomwerk", "1"⟩ {} {} ∧
      serialNumberInput [{ name := "a", version := "1\nb@2" }] =
        serialNumberInput
          [{ name := "a", version := "1" }, { name := "b", version := "2" }] := by
  refine ⟨fun hsame => ?_, by decide⟩
  exact absurd (congrArg writtenLicenses hsame) (by decide)

end Bomwerk.Output
