import Bomwerk.Core.MergeOrder
import Bomwerk.Core.TextPieces
import Bomwerk.Lockfiles.Composer
import Bomwerk.Lockfiles.Identity

/-!
# Shadowed composer components

What `drop_versionless_shadowed_by_versioned` drops is stood in for by what it
keeps, and the merge behind it joins the scopes of one name and version.
-/

namespace Bomwerk.Lockfiles.Composer

open Bomwerk.Core

/-! ## Components of the producer -/

/-- A component that the producer emits. -/
structure IsEmitted (component : Component) : Prop where
  eq : ∃ vendor packageName version scope confidence detail license,
    IsByteText vendor ∧ IsByteText packageName ∧ IsByteText version ∧
      component = canonicalized (composerComponent vendor packageName version
        scope confidence detail license)

def composerParts {vendor packageName version : List Char}
    (hvendor : IsByteText vendor) (hpackage : IsByteText packageName)
    (hversion : IsByteText version) : PurlParts where
  type := "composer".toList
  scope? := some vendor
  name := packageName
  version? := if version = [] then none else some version
  type_ne_nil := by simp
  lowercase_type := by simp
  isByteText_scope := isByteText_of_mem_some hvendor
  isByteText_name := hpackage
  isByteText_version := by
    intro text htext
    split_ifs at htext
    · exact absurd htext (Option.not_mem_none _)
    · obtain rfl := Option.mem_some_iff.mp htext
      exact hversion

theorem composerScheme_eq : "pkg:composer/".toList =
    "pkg:".toList ++ "composer".toList ++ ['/'] := by
  decide +kernel

section Parts

variable {vendor packageName version : List Char} (hvendor : IsByteText vendor)
  (hpackage : IsByteText packageName) (hversion : IsByteText version)

theorem composerParts_path :
    (composerParts hvendor hpackage hversion).path =
      percentEncodeText vendor ++ ['/'] ++ percentEncodeText packageName :=
  rfl

theorem composerParts_suffix :
    (composerParts hvendor hpackage hversion).suffix =
      if version = [] then [] else '@' :: percentEncodeText version := by
  have hversion? : (composerParts hvendor hpackage hversion).version? =
      if version = [] then none else some version := rfl
  rw [PurlParts.suffix, hversion?]
  by_cases hempty : version = []
  · rw [if_pos hempty, if_pos hempty]
  · rw [if_neg hempty, if_neg hempty]

theorem composerParts_version :
    (composerParts hvendor hpackage hversion).version?.getD [] = version := by
  change (if version = [] then none else some version).getD [] = version
  split_ifs with hempty
  · exact hempty.symm
  · rfl

theorem buildComposerPurl_eq :
    buildComposerPurl vendor packageName version =
      (composerParts hvendor hpackage hversion).text := by
  have hpurl : ∀ scheme, "pkg:composer/".toList = scheme →
      buildComposerPurl vendor packageName version =
        scheme ++ percentEncodeText vendor ++ ['/'] ++
          percentEncodeText packageName ++
          if version = [] then [] else '@' :: percentEncodeText version := by
    rintro _ rfl
    rfl
  have htext : ∀ scheme type, "pkg:".toList = scheme →
      "composer".toList = type →
        (composerParts hvendor hpackage hversion).text =
          scheme ++ type ++ '/' :: ((composerParts hvendor hpackage
            hversion).path ++ (composerParts hvendor hpackage
              hversion).suffix) := by
    rintro _ _ rfl rfl
    rfl
  rw [hpurl _ composerScheme_eq, htext _ _ rfl rfl, composerParts_path,
    composerParts_suffix]
  generalize "pkg:".toList = scheme
  generalize "composer".toList = type
  simp only [List.append_assoc, List.cons_append, List.nil_append]

end Parts

/-- The purl says the vendor, the package and the version. -/
theorem carries_composerComponent {vendor packageName version : List Char}
    (hvendor : IsByteText vendor) (hpackage : IsByteText packageName)
    (hversion : IsByteText version) (scope : Scope) (confidence : Confidence)
    (detail : String) (license : List Char) :
    Carries (composerComponent vendor packageName version scope confidence
        detail license)
      (composerParts hvendor hpackage hversion) where
  purl := congrArg String.ofList
    (buildComposerPurl_eq hvendor hpackage hversion)
  name := by
    change (String.ofList (vendor ++ '/' :: packageName)).toList =
      vendor ++ ['/'] ++ packageName
    rw [String.toList_ofList, List.append_assoc]
    rfl
  version := by
    rw [composerParts_version]
    exact String.toList_ofList

theorem exists_carries {component : Component}
    (hemitted : IsEmitted component) :
    ∃ parts, Carries component parts := by
  obtain ⟨vendor, packageName, version, scope, confidence, detail, license,
    hvendor, hpackage, hversion, rfl⟩ := hemitted.eq
  have hcarries := carries_composerComponent hvendor hpackage hversion scope
    confidence detail license
  rw [hcarries.canonicalized_eq]
  exact ⟨_, hcarries⟩

theorem eq_of_componentIdentity_eq {component other : Component}
    (hemitted : IsEmitted component) (hother : IsEmitted other)
    (hidentity : componentIdentity component = componentIdentity other) :
    component.name = other.name ∧ component.version = other.version := by
  obtain ⟨parts, hcarries⟩ := exists_carries hemitted
  obtain ⟨otherParts, hotherCarries⟩ := exists_carries hother
  rw [hcarries.componentIdentity_eq, hotherCarries.componentIdentity_eq]
    at hidentity
  exact hcarries.eq_of_purl_eq hotherCarries hidentity

theorem isByteText_splitFullName {fullName vendor packageName : List Char}
    (hbytes : IsByteText fullName)
    (hsplit : splitFullName fullName = some (vendor, packageName)) :
    IsByteText vendor ∧ IsByteText packageName := by
  rw [splitFullName] at hsplit
  split_ifs at hsplit
  cases hsplit
  exact ⟨hbytes.takeWhile _, (hbytes.dropWhile _).tail⟩

/-- The entries of a lock are components of the producer. -/
theorem isEmitted_readEntry {label : String} {scope : Scope} {entry : Json}
    {component : Component}
    (hread : readEntry label scope entry = .valid (some component)) :
    IsEmitted (canonicalized component) := by
  rw [readEntry] at hread
  split at hread
  · cases hread
  split at hread
  swap
  · cases hread
  split at hread
  · cases hread
  rename_i name version hname hversion _ vendor packageName hsplit
  dsimp only at hread
  split_ifs at hread
  cases hread
  obtain ⟨hvendor, hpackage⟩ :=
    isByteText_splitFullName (isByteText_utf8Text name).trimmed hsplit
  exact ⟨_, _, _, _, _, _, _, hvendor, hpackage,
    (isByteText_utf8Text version).trimmed, rfl⟩

/-- So are the requirements of a manifest. -/
theorem isEmitted_readRequirement {label : String} {scope : Scope}
    {name : String} {constraint : Json} {component : Component}
    (hread : readRequirement label scope name constraint =
      .valid (some component)) : IsEmitted (canonicalized component) := by
  rw [readRequirement] at hread
  dsimp only at hread
  split at hread
  · cases hread
  split at hread
  · cases hread
  rename_i vendor packageName hsplit
  cases hread
  obtain ⟨hvendor, hpackage⟩ :=
    isByteText_splitFullName (isByteText_utf8Text name).trimmed hsplit
  exact ⟨_, _, _, _, _, _, _, hvendor, hpackage, isByteText_nil, rfl⟩

theorem foldl_mergeInto_name_version {first : Component}
    {rest : List Component}
    (hrest : ∀ component ∈ rest, component.name = first.name ∧
      component.version = first.version) :
    (rest.foldl mergeInto first).name = first.name ∧
      (rest.foldl mergeInto first).version = first.version := by
  induction rest generalizing first with
  | nil => exact ⟨rfl, rfl⟩
  | cons component rest ih =>
    rw [List.forall_mem_cons] at hrest
    obtain ⟨⟨hname, hversion⟩, hrest⟩ := hrest
    have hmerged : (mergeInto first component).name = first.name ∧
        (mergeInto first component).version = first.version := by
      simp only [mergeInto, hname, hversion, filled_self, and_self]
    rw [List.foldl_cons, ← hmerged.1, ← hmerged.2]
    apply ih
    rw [hmerged.1, hmerged.2]
    exact hrest

section Merge

variable {components : List Component}
  (hemitted : ∀ component ∈ components, IsEmitted component)

include hemitted

/-- A merged component has the name and the version of its group, and the least
restrictive scope. -/
theorem mergedUnder_spec {identity : String}
    (hmem : identity ∈ identities components) :
    (∀ component ∈ filedUnder components identity,
      component.name = (mergedUnder components identity).name ∧
        component.version = (mergedUnder components identity).version ∧
        (mergedUnder components identity).scope.rank ≤ component.scope.rank) ∧
      ∃ component ∈ filedUnder components identity,
        component.scope = (mergedUnder components identity).scope := by
  obtain ⟨first, rest, hgroup, hmerged⟩ := exists_mergedUnder hmem
  have hsame : ∀ component ∈ filedUnder components identity,
      component.name = first.name ∧ component.version = first.version := by
    intro component hcomponent
    have hfirst : first ∈ filedUnder components identity := by
      rw [hgroup]
      exact List.mem_cons_self
    obtain ⟨hin, hidentity⟩ := mem_filedUnder.mp hcomponent
    obtain ⟨hfirstIn, hfirstIdentity⟩ := mem_filedUnder.mp hfirst
    exact eq_of_componentIdentity_eq (hemitted component hin)
      (hemitted first hfirstIn) (hidentity.trans hfirstIdentity.symm)
  obtain ⟨hname, hversion⟩ := @foldl_mergeInto_name_version first.normalized
    rest (fun component hcomponent => hsame component (by
      rw [hgroup]
      exact List.mem_cons_of_mem first hcomponent))
  obtain ⟨hscope, hle⟩ := foldl_mergeInto_scope first.normalized rest
  rw [hmerged, hname, hversion]
  constructor
  · intro component hcomponent
    obtain ⟨hcomponentName, hcomponentVersion⟩ := hsame component hcomponent
    refine ⟨hcomponentName, hcomponentVersion, hle _ ?_⟩
    rw [hgroup] at hcomponent
    rcases List.mem_cons.mp hcomponent with rfl | hrest
    · exact List.mem_cons_self
    · exact List.mem_cons_of_mem _ (List.mem_map_of_mem hrest)
  · rw [hgroup]
    obtain ⟨component, hcomponent, heq⟩ := List.mem_map.mp hscope
    rcases List.mem_cons.mp hcomponent with rfl | hrest
    · exact ⟨first, List.mem_cons_self, heq⟩
    · exact ⟨component, List.mem_cons_of_mem first hrest, heq⟩

theorem exists_of_mem_mergeAll {merged : Component}
    (hmerged : merged ∈ mergeAll components) :
    ∃ component ∈ components, component.name = merged.name ∧
      component.version = merged.version ∧ component.scope = merged.scope := by
  rw [mergeAll_eq_map] at hmerged
  obtain ⟨identity, hidentity, rfl⟩ := List.mem_map.mp hmerged
  obtain ⟨hall, component, hcomponent, hscope⟩ :=
    mergedUnder_spec hemitted hidentity
  obtain ⟨hname, hversion, -⟩ := hall component hcomponent
  exact ⟨component, (mem_filedUnder.mp hcomponent).1, hname, hversion, hscope⟩

theorem exists_mem_mergeAll {component : Component}
    (hcomponent : component ∈ components) :
    ∃ merged ∈ mergeAll components, merged.name = component.name ∧
      merged.version = component.version ∧
        merged.scope.rank ≤ component.scope.rank := by
  have hidentity : componentIdentity component ∈ identities components :=
    mem_identities_iff.mpr (List.mem_map_of_mem hcomponent)
  obtain ⟨hname, hversion, hscope⟩ := (mergedUnder_spec hemitted hidentity).1
    component (mem_filedUnder.mpr ⟨hcomponent, rfl⟩)
  refine ⟨_, ?_, hname.symm, hversion.symm, hscope⟩
  rw [mergeAll_eq_map]
  exact List.mem_map_of_mem hidentity

end Merge

/-! ## Shadowing -/

section Shadowing

variable {components : List Component} {component : Component}

theorem mem_drop_iff :
    component ∈ dropVersionlessShadowedByVersioned components ↔
      component ∈ components ∧ isShadowed components component = false := by
  simp [dropVersionlessShadowedByVersioned]

theorem isVersionedName_iff {name : String} :
    isVersionedName components name = true ↔
      ∃ component ∈ components, component.version ≠ "" ∧
        component.name = name := by
  simp [isVersionedName]

theorem isVersionedRequiredName_iff {name : String} :
    isVersionedRequiredName components name = true ↔
      ∃ component ∈ components, component.version ≠ "" ∧
        component.scope = .required ∧ component.name = name := by
  simp [isVersionedRequiredName]

/-- What the test asks for is a versioned component of the name whose scope is
at most as restrictive. -/
theorem isShadowed_iff :
    isShadowed components component = true ↔
      component.version = "" ∧
        ∃ other ∈ components, other.version ≠ "" ∧
          other.name = component.name ∧
            (other.scope = .required ∨ component.scope = .excluded) := by
  rw [isShadowed, Bool.and_eq_true, Bool.or_eq_true, Bool.and_eq_true,
    isVersionedRequiredName_iff, isVersionedName_iff, decide_eq_true_eq,
    decide_eq_true_eq]
  apply and_congr_right
  intro _
  constructor
  · rintro (⟨other, hother, hversion, hscope, hname⟩ |
      ⟨hscope, other, hother, hversion, hname⟩)
    · exact ⟨other, hother, hversion, hname, .inl hscope⟩
    · exact ⟨other, hother, hversion, hname, .inr hscope⟩
  · rintro ⟨other, hother, hversion, hname, hscope | hscope⟩
    · exact .inl ⟨other, hother, hversion, hscope, hname⟩
    · exact .inr ⟨hscope, other, hother, hversion, hname⟩

theorem mem_drop_of_version_ne (hmem : component ∈ components)
    (hversion : component.version ≠ "") :
    component ∈ dropVersionlessShadowedByVersioned components := by
  refine mem_drop_iff.mpr ⟨hmem, ?_⟩
  rw [← Bool.not_eq_true, isShadowed_iff]
  exact fun h => hversion h.1

/-- A dropped component is stood in for. -/
theorem exists_of_notMem_drop (hmem : component ∈ components)
    (hdropped : component ∉ dropVersionlessShadowedByVersioned components) :
    component.version = "" ∧
      ∃ kept ∈ dropVersionlessShadowedByVersioned components,
        kept.name = component.name ∧ kept.version ≠ "" ∧
          kept.scope.rank ≤ component.scope.rank := by
  rw [mem_drop_iff, not_and, Bool.not_eq_false] at hdropped
  obtain ⟨hempty, other, hother, hversion, hname, hscope⟩ :=
    isShadowed_iff.mp (hdropped hmem)
  refine ⟨hempty, other, mem_drop_of_version_ne hother hversion, hname,
    hversion, ?_⟩
  rcases hscope with hscope | hscope
  · rw [hscope]
    exact Nat.zero_le _
  · rw [hscope]
    cases other.scope <;> decide

/-- Every component has one of its name among the kept, with a scope at most as
restrictive. -/
theorem exists_mem_drop (hmem : component ∈ components) :
    ∃ kept ∈ dropVersionlessShadowedByVersioned components,
      kept.name = component.name ∧ kept.scope.rank ≤ component.scope.rank := by
  by_cases hkept : component ∈ dropVersionlessShadowedByVersioned components
  · exact ⟨component, hkept, rfl, le_refl _⟩
  · obtain ⟨-, kept, hkept, hname, -, hscope⟩ :=
      exists_of_notMem_drop hmem hkept
    exact ⟨kept, hkept, hname, hscope⟩

theorem drop_perm {permuted : List Component}
    (hperm : permuted.Perm components) :
    (dropVersionlessShadowedByVersioned permuted).Perm
      (dropVersionlessShadowedByVersioned components) := by
  have htest : isShadowed permuted = isShadowed components := by
    funext component
    rw [isShadowed, isShadowed, isVersionedName, isVersionedRequiredName,
      hperm.any_eq, hperm.any_eq]
    rfl
  rw [dropVersionlessShadowedByVersioned, htest]
  exact hperm.filter _

/-- Where every component stands for a kept one, nothing is dropped. -/
theorem drop_eq_self {merged : List Component}
    (hmerged : ∀ other ∈ merged,
      ∃ kept ∈ dropVersionlessShadowedByVersioned components,
        kept.name = other.name ∧ kept.version = other.version ∧
          kept.scope = other.scope) :
    dropVersionlessShadowedByVersioned merged = merged := by
  rw [dropVersionlessShadowedByVersioned, List.filter_eq_self]
  intro component hmem
  rw [Bool.not_eq_true', ← Bool.not_eq_true]
  intro hshadowed
  obtain ⟨hempty, other, hother, hversion, hname, hscope⟩ :=
    isShadowed_iff.mp hshadowed
  obtain ⟨kept, hkept, hkeptName, hkeptVersion, hkeptScope⟩ :=
    hmerged component hmem
  obtain ⟨shadow, hshadow, hshadowName, hshadowVersion, hshadowScope⟩ :=
    hmerged other hother
  have hnot := (mem_drop_iff.mp hkept).2
  rw [← Bool.not_eq_true, isShadowed_iff] at hnot
  apply hnot
  refine ⟨hkeptVersion.trans hempty, shadow, (mem_drop_iff.mp hshadow).1, ?_, ?_,
    ?_⟩
  · rw [hshadowVersion]
    exact hversion
  · rw [hshadowName, hname, hkeptName]
  · rw [hshadowScope, hkeptScope]
    exact hscope

end Shadowing

/-! ## The result -/

/-- The names, versions and scopes of some components. -/
def triples (components : List Component) : Set (String × String × Scope) :=
  {triple | ∃ component ∈ components,
    (component.name, component.version, component.scope) = triple}

/-- What the step and the merge behind it promise for a list of components. -/
structure IsSoundFor (components : List Component) : Prop where
  /-- What is dropped is stood in for. -/
  dropped : ∀ component ∈ components,
    component ∉ dropVersionlessShadowedByVersioned components →
      component.version = "" ∧
        ∃ kept ∈ dropVersionlessShadowedByVersioned components,
          kept.name = component.name ∧ kept.version ≠ "" ∧
            kept.scope.rank ≤ component.scope.rank
  /-- Each name keeps a component, in the step and in the merge. -/
  named : ∀ component ∈ components,
    (∃ kept ∈ dropVersionlessShadowedByVersioned components,
      kept.name = component.name) ∧
    ∃ merged ∈ mergedResult components, merged.name = component.name
  /-- What is required at runtime stays required. -/
  required : ∀ component ∈ components, component.scope = .required →
    ∃ merged ∈ mergedResult components,
      merged.name = component.name ∧ merged.scope = .required
  unordered : ∀ permuted : List Component, permuted.Perm components →
    triples (mergedResult permuted) = triples (mergedResult components)
  /-- The step changes neither its own result nor that of the merge. -/
  settled : dropVersionlessShadowedByVersioned
        (dropVersionlessShadowedByVersioned components) =
      dropVersionlessShadowedByVersioned components ∧
    dropVersionlessShadowedByVersioned (mergedResult components) =
      mergedResult components ∧
    mergedResult (mergedResult components) = mergedResult components

section Result

variable {components : List Component}
  (hemitted : ∀ component ∈ components, IsEmitted component)

include hemitted

theorem isEmitted_of_mem_drop : ∀ component ∈
    dropVersionlessShadowedByVersioned components, IsEmitted component :=
  fun component hmem => hemitted component (mem_drop_iff.mp hmem).1

theorem exists_mem_mergedResult {component : Component}
    (hmem : component ∈ components) :
    ∃ merged ∈ mergedResult components, merged.name = component.name ∧
      merged.scope.rank ≤ component.scope.rank := by
  obtain ⟨kept, hkept, hname, hscope⟩ := exists_mem_drop hmem
  obtain ⟨merged, hmerged, hmergedName, -, hmergedScope⟩ :=
    exists_mem_mergeAll (isEmitted_of_mem_drop hemitted) hkept
  exact ⟨merged, hmerged, hmergedName.trans hname, hmergedScope.trans hscope⟩

theorem triples_mergeAll_subset {permuted : List Component}
    (hperm : permuted.Perm components) :
    triples (mergeAll permuted) ⊆ triples (mergeAll components) := by
  have hemitted' : ∀ component ∈ permuted, IsEmitted component :=
    fun component hmem => hemitted component (hperm.mem_iff.mp hmem)
  rintro _ ⟨merged, hmerged, rfl⟩
  rw [mergeAll_eq_map] at hmerged
  obtain ⟨identity, hidentity, rfl⟩ := List.mem_map.mp hmerged
  have hidentity' : identity ∈ identities components := by
    rwa [← identities_perm hperm]
  obtain ⟨hall, component, hcomponent, hscope⟩ :=
    mergedUnder_spec hemitted' hidentity
  obtain ⟨hall', component', hcomponent', hscope'⟩ :=
    mergedUnder_spec hemitted hidentity'
  have hgroup := filedUnder_perm hperm identity
  obtain ⟨hname, hversion, -⟩ := hall component hcomponent
  obtain ⟨hname', hversion', hle⟩ :=
    hall' component (hgroup.mem_iff.mp hcomponent)
  obtain ⟨-, -, hle'⟩ := hall component' (hgroup.mem_iff.mpr hcomponent')
  rw [hscope] at hle
  rw [hscope'] at hle'
  refine ⟨mergedUnder components identity, ?_, ?_⟩
  · rw [mergeAll_eq_map]
    exact List.mem_map_of_mem hidentity'
  · rw [← hname, ← hname', ← hversion, ← hversion',
      Scope.rank_injective (le_antisymm hle hle')]

theorem settled_mergedResult :
    dropVersionlessShadowedByVersioned (mergedResult components) =
      mergedResult components :=
  drop_eq_self fun _ hmerged =>
    exists_of_mem_mergeAll (isEmitted_of_mem_drop hemitted) hmerged

end Result

/-- Shadowing is sound for the components the producer emits, in any order. -/
theorem isSoundFor (components : List Component)
    (hemitted : ∀ component ∈ components, IsEmitted component) :
    IsSoundFor components where
  dropped _ hmem hdropped := exists_of_notMem_drop hmem hdropped
  named := by
    intro component hmem
    obtain ⟨kept, hkept, hname, -⟩ := exists_mem_drop hmem
    obtain ⟨merged, hmerged, hmergedName, -⟩ :=
      exists_mem_mergedResult hemitted hmem
    exact ⟨⟨kept, hkept, hname⟩, merged, hmerged, hmergedName⟩
  required := by
    intro component hmem hrequired
    obtain ⟨merged, hmerged, hname, hscope⟩ :=
      exists_mem_mergedResult hemitted hmem
    refine ⟨merged, hmerged, hname, ?_⟩
    rw [hrequired] at hscope
    exact Scope.rank_injective (Nat.le_zero.mp hscope)
  unordered := by
    intro permuted hperm
    have hdrop := drop_perm hperm
    apply Set.Subset.antisymm
    · exact triples_mergeAll_subset (isEmitted_of_mem_drop hemitted) hdrop
    · apply triples_mergeAll_subset _ hdrop.symm
      exact isEmitted_of_mem_drop fun component hmem =>
        hemitted component (hperm.mem_iff.mp hmem)
  settled := by
    refine ⟨drop_eq_self fun other hother => ⟨other, hother, rfl, rfl, rfl⟩,
      settled_mergedResult hemitted, ?_⟩
    have hnamed : ∀ component ∈ dropVersionlessShadowedByVersioned components,
        component.IsNamed := by
      intro component hmem
      obtain ⟨parts, hcarries⟩ :=
        exists_carries (isEmitted_of_mem_drop hemitted component hmem)
      exact .inl hcarries.purl_ne_empty
    have hmerged := mergeAll_mergeAll (identityIncreasing_mergeAll hnamed)
    change mergeAll (dropVersionlessShadowedByVersioned
      (mergedResult components)) = mergedResult components
    rw [settled_mergedResult hemitted]
    exact hmerged

/-- A package in a lock, for development only, and the same package required
without a version. -/
theorem isSoundFor_console :
    IsSoundFor
      [canonicalized (composerComponent ['a'] ['b'] ['1'] .excluded .high "" []),
        canonicalized (composerComponent ['a'] ['b'] [] .required .medium ""
          [])] := by
  have hbytes : ∀ c : Char, c.toNat < 256 → IsByteText [c] := by
    intro c hc d hd
    obtain rfl := List.mem_singleton.mp hd
    exact hc
  apply isSoundFor
  intro component hmem
  rw [List.mem_cons, List.mem_singleton] at hmem
  rcases hmem with rfl | rfl
  · exact ⟨_, _, _, _, _, _, _, hbytes _ (by decide), hbytes _ (by decide),
      hbytes _ (by decide), rfl⟩
  · exact ⟨_, _, _, _, _, _, _, hbytes _ (by decide), hbytes _ (by decide),
      isByteText_nil, rfl⟩

end Bomwerk.Lockfiles.Composer
