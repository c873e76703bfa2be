import Bomwerk.Core.Component
import Bomwerk.Support.Fill

/-!
# What a merge makes of its detections

`merge_all` files every detection under the identity it arrives with and folds
`merge_into` over the detections filed together.  Evidence, scope and the
used-in-build signal are joined without regard to their order; every other
field is that of the first detection that has it.
-/

namespace Bomwerk.Core

open Bomwerk.Support

attribute [ext] Component

theorem Confidence.rank_injective : Function.Injective Confidence.rank := by
  intro a b h
  cases a <;> cases b <;> simp_all [Confidence.rank]

instance : Std.Antisymm EvidenceLe where
  antisymm left right hleft hright := by
    rw [evidenceLe_iff] at hleft hright
    have hkey : left.key = right.key := by
      rcases hleft with hleft | ⟨hleft, -⟩
      · rcases hright with hright | ⟨hright, -⟩
        · exact absurd hleft (lt_asymm hright)
        · exact hright.symm
      · exact hleft
    have hconfidence : left.confidence.rank = right.confidence.rank := by
      have h₁ := (hleft.resolve_left fun h => h.ne hkey).2
      have h₂ := (hright.resolve_left fun h => h.ne hkey.symm).2
      omega
    simp only [Evidence.key, EmbeddingLike.apply_eq_iff_eq,
      Prod.mk.injEq] at hkey
    obtain ⟨leftSource, leftDetail, leftConfidence⟩ := left
    obtain ⟨rightSource, rightDetail, rightConfidence⟩ := right
    obtain rfl : leftSource = rightSource := Source.rank_injective hkey.1
    obtain rfl : leftDetail = rightDetail := hkey.2
    obtain rfl : leftConfidence = rightConfidence :=
      Confidence.rank_injective hconfidence
    rfl

theorem key_le_of_evidenceLe (left right : Evidence)
    (h : EvidenceLe left right) : left.key ≤ right.key := by
  rcases evidenceLe_iff.mp h with h | ⟨h, -⟩
  · exact h.le
  · exact h.le

theorem normalizeEvidence_perm {left right : List Evidence}
    (hperm : left.Perm right) :
    normalizeEvidence left = normalizeEvidence right :=
  sortUnique_perm key_le_of_evidenceLe hperm

theorem normalizeEvidence_append (left right : List Evidence) :
    normalizeEvidence (normalizeEvidence left ++ right) =
      normalizeEvidence (left ++ right) :=
  sortUnique_sortUnique_append key_le_of_evidenceLe left right

/-! ## Detections filed together -/

/-- The detections of one identity, in the order they arrived. -/
def filedUnder (components : List Component) (identity : String) :
    List Component :=
  components.filter fun component => componentIdentity component = identity

/-- The detections of one identity merged. -/
def mergeGroup : List Component → Option Component
  | [] => none
  | first :: rest => some (rest.foldl mergeInto first.normalized)

/-- The keys of `components_by_identity`. -/
def identities (components : List Component) : List String :=
  (mergedByIdentity components).toList.map Prod.fst

/-- The component `merge_all` returns for an identity. -/
def mergedUnder (components : List Component) (identity : String) : Component :=
  (mergeGroup (filedUnder components identity)).getD {}

theorem mem_filedUnder {components : List Component} {identity : String}
    {component : Component} :
    component ∈ filedUnder components identity ↔
      component ∈ components ∧ componentIdentity component = identity := by
  simp [filedUnder]

theorem filedUnder_perm {components permuted : List Component}
    (hperm : permuted.Perm components) (identity : String) :
    (filedUnder permuted identity).Perm (filedUnder components identity) :=
  hperm.filter _

theorem foldl_mergeStep_getElem? (components : List Component)
    (merged : OrderedMap String Component) (identity : String) :
    (components.foldl mergeStep merged)[identity]? =
      match merged[identity]? with
      | none => mergeGroup (filedUnder components identity)
      | some existing =>
        some ((filedUnder components identity).foldl mergeInto existing) := by
  induction components generalizing merged with
  | nil => cases hmerged : merged[identity]? <;> simp [filedUnder, mergeGroup, hmerged]
  | cons component components ih =>
    rw [List.foldl_cons, ih]
    by_cases hidentity : componentIdentity component = identity
    · subst hidentity
      rw [mergeStep_getElem?_self]
      cases merged[componentIdentity component]? <;>
        simp [filedUnder, mergeGroup]
    · rw [mergeStep_getElem?_of_ne (Ne.symm hidentity)]
      simp [filedUnder, hidentity]

/-- The component stored under an identity is made of the detections filed
under it and of no others. -/
theorem mergedByIdentity_getElem? (components : List Component)
    (identity : String) :
    (mergedByIdentity components)[identity]? =
      mergeGroup (filedUnder components identity) := by
  rw [mergedByIdentity, foldl_mergeStep_getElem?]
  simp

theorem mem_identities_iff {components : List Component} {identity : String} :
    identity ∈ identities components ↔
      identity ∈ components.map componentIdentity := by
  rw [identities, mem_keys_toList_iff, mergedByIdentity,
    isSome_foldl_mergeStep_iff]
  simp

theorem pairwise_lt_identities (components : List Component) :
    (identities components).Pairwise (· < ·) := by
  rw [identities, List.pairwise_map]
  exact pairwise_lt_toList _

theorem identities_perm {components permuted : List Component}
    (hperm : permuted.Perm components) :
    identities permuted = identities components := by
  have hmem : ∀ identity,
      identity ∈ identities permuted ↔ identity ∈ identities components := by
    intro identity
    rw [mem_identities_iff, mem_identities_iff]
    exact (hperm.map componentIdentity).mem_iff
  have hnodup : ∀ components, (identities components).Nodup := fun components =>
    (pairwise_lt_identities components).imp fun h => h.ne
  refine List.Perm.eq_of_pairwise ?_ (pairwise_lt_identities permuted)
    (pairwise_lt_identities components)
    ((List.perm_ext_iff_of_nodup (hnodup _) (hnodup _)).mpr hmem)
  intro left right _ _ hlt hgt
  exact absurd hlt (lt_asymm hgt)

theorem filedUnder_ne_nil {components : List Component} {identity : String}
    (hmem : identity ∈ identities components) :
    filedUnder components identity ≠ [] := by
  obtain ⟨component, hcomponent, hidentity⟩ :=
    List.mem_map.mp (mem_identities_iff.mp hmem)
  exact List.ne_nil_of_mem (mem_filedUnder.mpr ⟨hcomponent, hidentity⟩)

theorem mergeAll_eq_map (components : List Component) :
    mergeAll components =
      (identities components).map (mergedUnder components) := by
  rw [mergeAll, identities, List.map_map]
  refine List.map_congr_left ?_
  rintro ⟨identity, component⟩ hmem
  have hget := mem_toList_iff.mp hmem
  rw [mergedByIdentity_getElem?] at hget
  simp [mergedUnder, hget]

theorem exists_mergedUnder {components : List Component} {identity : String}
    (hmem : identity ∈ identities components) :
    ∃ first rest, filedUnder components identity = first :: rest ∧
      mergedUnder components identity =
        rest.foldl mergeInto first.normalized := by
  obtain ⟨first, rest, hgroup⟩ :=
    List.exists_cons_of_ne_nil (filedUnder_ne_nil hmem)
  exact ⟨first, rest, hgroup, by simp [mergedUnder, hgroup, mergeGroup]⟩

theorem foldl_mergeInto_fill {β : Type*} {empty : β → Prop}
    [DecidablePred empty] {field : Component → β}
    (hfield : ∀ destination source, field (mergeInto destination source) =
        fill empty (field destination) (field source))
    (first : Component) (rest : List Component) :
    field (rest.foldl mergeInto first) =
      (rest.map field).foldl (fill empty) (field first) := by
  induction rest generalizing first with
  | nil => rfl
  | cons component rest ih =>
    rw [List.foldl_cons, ih, hfield, List.map_cons, List.foldl_cons]

theorem foldl_mergeInto_purl (first : Component) (rest : List Component) :
    (rest.foldl mergeInto first).purl = first.purl := by
  induction rest generalizing first with
  | nil => rfl
  | cons component rest ih => exact ih (mergeInto first component)

/-! ## Fields that are joined -/

theorem foldl_mergeInto_evidence (first : Component) (rest : List Component) :
    (rest.foldl mergeInto first.normalized).evidence =
      normalizeEvidence ((first :: rest).flatMap Component.evidence) := by
  have hfold : ∀ (merged : Component) (collected : List Evidence),
      merged.evidence = normalizeEvidence collected →
        (rest.foldl mergeInto merged).evidence =
          normalizeEvidence (collected ++ rest.flatMap Component.evidence) := by
    induction rest with
    | nil => simp
    | cons component rest ih =>
      intro merged collected hmerged
      rw [List.foldl_cons, ih _ (collected ++ component.evidence)]
      · simp
      · rw [mergeInto, hmerged, normalizeEvidence_append]
  rw [hfold first.normalized first.evidence rfl]
  rfl

theorem foldl_mergeInto_usedInBuild (first : Component)
    (rest : List Component) :
    (rest.foldl mergeInto first).usedInBuild =
      ((first :: rest).map Component.usedInBuild).any id := by
  induction rest generalizing first with
  | nil => simp
  | cons component rest ih =>
    rw [List.foldl_cons, ih]
    simp [mergeInto, Bool.or_assoc]

theorem Scope.rank_injective : Function.Injective Scope.rank := by
  intro a b h
  cases a <;> cases b <;> simp_all [Scope.rank]

theorem foldl_mergeInto_scope (first : Component) (rest : List Component) :
    (rest.foldl mergeInto first).scope ∈ (first :: rest).map Component.scope ∧
      ∀ scope ∈ (first :: rest).map Component.scope,
        (rest.foldl mergeInto first).scope.rank ≤ scope.rank := by
  induction rest generalizing first with
  | nil => simp
  | cons component rest ih =>
    rw [List.foldl_cons]
    obtain ⟨hmem, hle⟩ := ih (mergeInto first component)
    have hscope : (mergeInto first component).scope =
        if component.scope.rank < first.scope.rank then component.scope
        else first.scope := rfl
    have hhead := hle (mergeInto first component).scope (by simp)
    constructor
    · rw [List.map_cons, List.mem_cons] at hmem
      rcases hmem with hmem | hmem
      · rw [hmem, hscope]
        split <;> simp
      · simp [hmem]
    · intro scope hother
      rw [List.map_cons, List.map_cons, List.mem_cons, List.mem_cons] at hother
      rcases hother with rfl | rfl | hother
      · rw [hscope] at hhead
        split at hhead <;> omega
      · rw [hscope] at hhead
        split at hhead <;> omega
      · exact hle scope (by simp [hother])

section Permuted

variable {first first' : Component} {rest rest' : List Component}

theorem foldl_mergeInto_evidence_perm
    (hperm : (first :: rest).Perm (first' :: rest')) :
    (rest.foldl mergeInto first.normalized).evidence =
      (rest'.foldl mergeInto first'.normalized).evidence := by
  rw [foldl_mergeInto_evidence, foldl_mergeInto_evidence]
  exact normalizeEvidence_perm (hperm.flatMap_right _)

theorem foldl_mergeInto_usedInBuild_perm
    (hperm : (first :: rest).Perm (first' :: rest')) :
    (rest.foldl mergeInto first.normalized).usedInBuild =
      (rest'.foldl mergeInto first'.normalized).usedInBuild := by
  rw [foldl_mergeInto_usedInBuild, foldl_mergeInto_usedInBuild]
  exact (hperm.map Component.usedInBuild).any_eq

theorem foldl_mergeInto_scope_perm
    (hperm : (first :: rest).Perm (first' :: rest')) :
    (rest.foldl mergeInto first.normalized).scope =
      (rest'.foldl mergeInto first'.normalized).scope := by
  obtain ⟨hmem, hle⟩ := foldl_mergeInto_scope first.normalized rest
  obtain ⟨hmem', hle'⟩ := foldl_mergeInto_scope first'.normalized rest'
  have hscopes := hperm.map Component.scope
  apply Scope.rank_injective
  apply le_antisymm
  · exact hle _ (hscopes.mem_iff.mpr hmem')
  · exact hle' _ (hscopes.mem_iff.mp hmem)

end Permuted
end Bomwerk.Core

/-!
## Which detections are merged

`merge_all` files a detection under one text, the canonical purl or, without a
purl, `name@version`.  Two detections are merged exactly when their texts are
equal, whatever the texts are made of.
-/

namespace Bomwerk.Core

/-- The package URL of a component, canonical where it parses. -/
def Component.canonicalPurl (component : Component) : String :=
  let parsedPurl := parsePurl component.purl
  if parsedPurl.complete then parsedPurl.value else component.purl

theorem componentIdentity_eq (component : Component) :
    componentIdentity component =
      if component.purl ≠ "" then component.canonicalPurl
      else component.name ++ "@" ++ component.version := rfl

/-- Two detections of one package: the same purl or, without any, the same name
and version. -/
def SamePackage (left right : Component) : Prop :=
  (left.purl ≠ "" ∧ right.purl ≠ "" ∧
      left.canonicalPurl = right.canonicalPurl) ∨
    (left.purl = "" ∧ right.purl = "" ∧
      left.name = right.name ∧ left.version = right.version)

def mergeGroups (components : List Component) : List (List Component) :=
  (identities components).map (filedUnder components)

theorem exists_group_iff {components : List Component}
    {left right : Component} :
    (∃ group ∈ mergeGroups components, left ∈ group ∧ right ∈ group) ↔
      left ∈ components ∧ right ∈ components ∧
        componentIdentity left = componentIdentity right := by
  constructor
  · rintro ⟨group, hgroup, hleft, hright⟩
    obtain ⟨identity, -, rfl⟩ := List.mem_map.mp hgroup
    rw [mem_filedUnder] at hleft hright
    exact ⟨hleft.1, hright.1, hleft.2.trans hright.2.symm⟩
  · rintro ⟨hleft, hright, hidentity⟩
    refine ⟨filedUnder components (componentIdentity left),
      List.mem_map_of_mem ?_, ?_, ?_⟩
    · exact mem_identities_iff.mpr (List.mem_map_of_mem hleft)
    · exact mem_filedUnder.mpr ⟨hleft, rfl⟩
    · exact mem_filedUnder.mpr ⟨hright, hidentity.symm⟩

/-- Every purl of a detection is the purl of a merged component, and only
detections of one package are merged. -/
structure KeepsPackages (components : List Component) : Prop where
  carried : ∀ component ∈ components, component.purl ≠ "" →
    ∃ merged ∈ mergeAll components,
      merged.purl ≠ "" ∧ merged.canonicalPurl = component.canonicalPurl
  apart : ∀ group ∈ mergeGroups components,
    ∀ left ∈ group, ∀ right ∈ group, SamePackage left right

/-- The name and version of a detection without a purl do not spell out the
purl of another detection, nor another name and version. -/
structure UnambiguousNames (components : List Component) : Prop where
  purls : ∀ left ∈ components, ∀ right ∈ components,
    left.purl = "" → right.purl ≠ "" →
      left.name ++ "@" ++ left.version ≠ right.canonicalPurl
  splits : ∀ left ∈ components, ∀ right ∈ components,
    left.purl = "" → right.purl = "" →
      left.name ++ "@" ++ left.version = right.name ++ "@" ++ right.version →
        left.name = right.name ∧ left.version = right.version

section Packages

variable {components : List Component}

theorem samePackage_of_componentIdentity_eq
    (hnames : UnambiguousNames components) {left right : Component}
    (hleft : left ∈ components) (hright : right ∈ components)
    (hidentity : componentIdentity left = componentIdentity right) :
    SamePackage left right := by
  rw [componentIdentity_eq, componentIdentity_eq] at hidentity
  by_cases hl : left.purl = "" <;> by_cases hr : right.purl = ""
  · rw [if_neg (not_not.mpr hl), if_neg (not_not.mpr hr)] at hidentity
    exact Or.inr ⟨hl, hr, hnames.splits left hleft right hright hl hr hidentity⟩
  · rw [if_neg (not_not.mpr hl), if_pos hr] at hidentity
    exact absurd hidentity (hnames.purls left hleft right hright hl hr)
  · rw [if_pos hl, if_neg (not_not.mpr hr)] at hidentity
    exact absurd hidentity.symm (hnames.purls right hright left hleft hr hl)
  · rw [if_pos hl, if_pos hr] at hidentity
    exact Or.inl ⟨hl, hr, hidentity⟩

/-- Where only detections of one package are filed together, the purl of the
first one is the purl of all. -/
theorem exists_mem_mergeAll_canonicalPurl
    (hapart : ∀ group ∈ mergeGroups components,
      ∀ left ∈ group, ∀ right ∈ group, SamePackage left right)
    {component : Component} (hmem : component ∈ components)
    (hpurl : component.purl ≠ "") :
    ∃ merged ∈ mergeAll components,
      merged.purl ≠ "" ∧ merged.canonicalPurl = component.canonicalPurl := by
  have hidentity : componentIdentity component ∈ identities components :=
    mem_identities_iff.mpr (List.mem_map_of_mem hmem)
  obtain ⟨first, rest, hgroup, hmerged⟩ := exists_mergedUnder hidentity
  have hfirst : SamePackage first component := by
    refine hapart _ (List.mem_map_of_mem hidentity) _ ?_ _ ?_
    · simp [hgroup]
    · exact mem_filedUnder.mpr ⟨hmem, rfl⟩
  have hcarried : (mergedUnder components
      (componentIdentity component)).purl = first.purl := by
    rw [hmerged]
    exact foldl_mergeInto_purl first.normalized rest
  refine ⟨mergedUnder components (componentIdentity component), ?_, ?_⟩
  · rw [mergeAll_eq_map]
    exact List.mem_map_of_mem hidentity
  · rcases hfirst with ⟨hne, -, hcanonical⟩ | ⟨-, hempty, -⟩
    · refine ⟨hcarried ▸ hne, ?_⟩
      rw [Component.canonicalPurl, hcarried]
      exact hcanonical
    · exact absurd hempty hpurl

/-- No package is lost or conflated exactly when no name and version can be
taken for something else. -/
theorem keepsPackages_iff (components : List Component) :
    KeepsPackages components ↔ UnambiguousNames components := by
  constructor
  · rintro ⟨-, hapart⟩
    have hsame : ∀ left ∈ components, ∀ right ∈ components,
        componentIdentity left = componentIdentity right →
          SamePackage left right := by
      intro left hleft right hright hidentity
      obtain ⟨group, hgroup, hl, hr⟩ :=
        exists_group_iff.mpr ⟨hleft, hright, hidentity⟩
      exact hapart group hgroup left hl right hr
    constructor
    · intro left hleft right hright hl hr htext
      have hpackage : SamePackage left right := by
        refine hsame left hleft right hright ?_
        rw [componentIdentity_eq, componentIdentity_eq,
          if_neg (not_not.mpr hl), if_pos hr, htext]
      rcases hpackage with ⟨hne, -, -⟩ | ⟨-, hempty, -⟩
      · exact hne hl
      · exact hr hempty
    · intro left hleft right hright hl hr htext
      have hpackage : SamePackage left right := by
        refine hsame left hleft right hright ?_
        rw [componentIdentity_eq, componentIdentity_eq,
          if_neg (not_not.mpr hl), if_neg (not_not.mpr hr), htext]
      rcases hpackage with ⟨hne, -, -⟩ | ⟨-, -, hfields⟩
      · exact absurd hl hne
      · exact hfields
  · intro hnames
    have hapart : ∀ group ∈ mergeGroups components,
        ∀ left ∈ group, ∀ right ∈ group, SamePackage left right := by
      intro group hgroup left hl right hr
      obtain ⟨hleft, hright, hidentity⟩ :=
        exists_group_iff.mp ⟨group, hgroup, hl, hr⟩
      exact samePackage_of_componentIdentity_eq hnames hleft hright hidentity
    exact ⟨fun component hmem =>
      exists_mem_mergeAll_canonicalPurl hapart hmem, hapart⟩

/-- A purl is lost to a detection found first whose name spells it out, and two
splits of one text are merged. -/
theorem not_keepsPackages_of_same_text :
    ¬ KeepsPackages
        [{ name := "pkg:conan/zlib", version := "1.3" },
          { name := "zlib", version := "1.3",
            purl := "pkg:conan/zlib@1.3" }] ∧
      ¬ KeepsPackages
        [{ name := "a@b", version := "c" }, { name := "a", version := "b@c" }] := by
  constructor
  · rintro ⟨hcarried, -⟩
    obtain ⟨merged, hmem, hne, -⟩ := hcarried
      { name := "zlib", version := "1.3", purl := "pkg:conan/zlib@1.3" }
      (by decide) (by decide)
    have hpurls := List.mem_map_of_mem (f := Component.purl) hmem
    rw [show (mergeAll _).map Component.purl = [""] by decide +kernel] at hpurls
    exact hne (List.mem_singleton.mp hpurls)
  · rintro ⟨-, hapart⟩
    obtain ⟨group, hgroup, hleft, hright⟩ :
        ∃ group ∈ mergeGroups
            [{ name := "a@b", version := "c" },
              { name := "a", version := "b@c" }],
          ({ name := "a@b", version := "c" } : Component) ∈ group ∧
            ({ name := "a", version := "b@c" } : Component) ∈ group :=
      exists_group_iff.mpr (by decide)
    rcases hapart group hgroup _ hleft _ hright with ⟨hne, -⟩ | ⟨-, -, hname, -⟩
    · exact hne rfl
    · exact absurd hname (by decide)

end Packages
end Bomwerk.Core
