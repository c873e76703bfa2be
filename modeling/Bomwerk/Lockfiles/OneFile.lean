import Bomwerk.Lockfiles.References

/-!
# One lockfile

What a run over a single lockfile returns when all of its entries are valid
and no limit is reached.
-/

namespace Bomwerk.Lockfiles

open Bomwerk.Core Bomwerk.Support

def purlsOf (components : List Component) : Set String :=
  {purl | ∃ component ∈ components, component.purl = purl}

/-- The merge neither loses nor adds a purl. -/
theorem purlsOf_mergeAll {components : List Component}
    (hcarried : ∀ component ∈ components, ∃ parts, Carries component parts) :
    purlsOf (mergeAll components) = purlsOf components := by
  have hkeys : ∀ key : String, (mergedByIdentity components)[key]?.isSome ↔
      key ∈ components.map componentIdentity := by
    intro key
    simpa [mergedByIdentity] using
      isSome_foldl_mergeStep_iff components ∅ key
  ext purl
  constructor
  · rintro ⟨merged, hin, rfl⟩
    obtain ⟨⟨key, _⟩, hpair, rfl⟩ := List.mem_map.mp hin
    have hmerged := mem_toList_iff.mp hpair
    obtain ⟨component, hmem, hkey⟩ := List.mem_map.mp
      ((hkeys key).mp (Option.isSome_iff_exists.mpr ⟨_, hmerged⟩))
    obtain ⟨parts, hcarries⟩ := hcarried component hmem
    rw [hcarries.componentIdentity_eq] at hkey
    exact ⟨component, hmem, hkey.trans
      (carries_of_mergedByIdentity hcarried hmerged).1.symm⟩
  · rintro ⟨component, hmem, rfl⟩
    obtain ⟨parts, hcarries⟩ := hcarried component hmem
    obtain ⟨merged, hmerged⟩ := Option.isSome_iff_exists.mp
      ((hkeys (componentIdentity component)).mpr (List.mem_map_of_mem hmem))
    have hpurl := (carries_of_mergedByIdentity hcarried hmerged).1
    rw [hcarries.componentIdentity_eq] at hpurl
    exact ⟨merged, List.mem_map.mpr ⟨_, mem_toList_iff.mpr hmerged, rfl⟩, hpurl⟩

/-! ## The run -/

/-- The library throws on none of the entries. -/
def ThrowsNowhere (readings : List Reading) : Prop :=
  ∀ reading ∈ readings,
    reading.outcome ≠ .thrown ∧ reading.outcome ≠ .valid none

theorem throwsWithin_eq_false {readings : List Reading}
    (hreadings : ThrowsNowhere readings) (budget : Nat) :
    throwsWithin budget readings = false := by
  induction readings generalizing budget with
  | nil => simp [throwsWithin]
  | cons reading readings ih =>
    obtain ⟨⟨hthrown, hnone⟩, hlater⟩ := List.forall_mem_cons.mp hreadings
    rw [throwsWithin]
    cases houtcome : reading.outcome with
    | ignored => exact ih hlater budget
    | skipped reason => exact ih hlater budget
    | thrown => exact absurd houtcome hthrown
    | valid component? =>
      cases component? with
      | none => exact absurd houtcome hnone
      | some component => simp [ih hlater]

/-- No limit is reached by one file of some entries. -/
structure Fits (options : ParseOptions) (count : Nat) (bytes : List UInt8) :
    Prop where
  files : 1 ≤ options.maxScannedFiles
  bytes : bytes.length ≤ options.maxFileBytes
  entries : count ≤ options.maxTotalPackages

/-- The run over one lockfile returns these purls and no others. -/
def ReturnsPurls (producer : Producer) (options : ParseOptions)
    (path : FsPath) (bytes : List UInt8) (purls : Set String) : Prop :=
  ∃ result, parse producer options (fun _ => some bytes) [path] =
      some result ∧ purlsOf result.value = purls

theorem ReturnsPurls.unique {producer : Producer} {options : ParseOptions}
    {path : FsPath} {bytes : List UInt8} {left right : Set String}
    (hleft : ReturnsPurls producer options path bytes left)
    (hright : ReturnsPurls producer options path bytes right) :
    left = right := by
  obtain ⟨result, hrun, rfl⟩ := hleft
  obtain ⟨other, hother, rfl⟩ := hright
  rw [hrun, Option.some.injEq] at hother
  rw [hother]

section Run

variable {producer : Producer} {options : ParseOptions} {path : FsPath}
  {bytes : List UInt8} {components : List Component}

theorem parsedBytes_of_fits {count : Nat} (hfits : Fits options count bytes) :
    parsedBytes producer options (fun _ => some bytes) path = some bytes := by
  have hshort : ¬ options.maxFileBytes < bytes.length := by
    have := hfits.bytes
    omega
  simp [parsedBytes, readFileBounded, hshort,
    List.take_of_length_le hfits.bytes]

theorem admittedReadings_of_fits {count : Nat}
    (haccepts : producer.accepts path = true)
    (hfits : Fits options count bytes) :
    admittedReadings producer options (fun _ => some bytes) [path] =
      (producer.manifest path bytes).entries := by
  have hopened : openedFiles producer [path] options.maxScannedFiles =
      [path] := by
    rw [openedFiles, List.filter_cons_of_pos haccepts, List.filter_nil,
      List.take_of_length_le hfits.files]
  simp [admittedReadings, admittedFiles, hopened, readingsOfFiles, readingsOf,
    parsedBytes_of_fits hfits]

theorem returnsPurls_of_validEntries (hunlimited : producer.IsUnlimited)
    (hown : producer.HasNoOwnIdentity)
    (haccepts : producer.accepts path = true)
    (hfits : Fits options components.length bytes)
    (hthrows : ThrowsNowhere (producer.manifest path bytes).entries)
    (hvalid : validEntries (producer.manifest path bytes).entries =
      components.map some)
    (hcarried : ∀ component ∈ components, ∃ parts, Carries component parts) :
    ReturnsPurls producer options path bytes (purlsOf components) := by
  have hreadings := admittedReadings_of_fits haccepts hfits
  obtain ⟨hnone, -⟩ := @parseUnmerged_spec producer options
    (fun _ => some bytes) [path] hunlimited
  cases hstate : parseUnmerged producer options (fun _ => some bytes)
      [path] with
  | none =>
    rw [hnone, hreadings, throwsWithin_eq_false hthrows] at hstate
    exact absurd hstate (by simp)
  | some state =>
    have hemitted := emitted_parseUnmerged hunlimited hown hstate
    rw [hreadings, hvalid, List.take_of_length_le (by
      simpa using hfits.entries)] at hemitted
    have hcomponents : state.emitted.map Emission.component = components :=
      (List.map_injective_iff.mpr (Option.some_injective _)) hemitted
    refine ⟨_, by rw [parse, hstate]; rfl, ?_⟩
    dsimp only
    rw [hcomponents]
    exact purlsOf_mergeAll hcarried

end Run
end Bomwerk.Lockfiles
