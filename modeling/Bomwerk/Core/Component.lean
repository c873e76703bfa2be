import Bomwerk.Core.Path
import Bomwerk.Core.Purl
import Bomwerk.Support.OrderedMap
import Bomwerk.Support.SortUnique
import Mathlib.Data.List.Perm.Subperm
import Mathlib.Data.Prod.Lex

/-!
# Components

The data model of `core/model.hpp` and the merge of `core/model.cpp`: a list of
detected components becomes one list with one component for each identity, in
identity order.
-/

namespace Bomwerk.Core

open Bomwerk.Support

/-! ## Evidence -/

/-- `Source`, in rank order. -/
inductive Source
  | manifest
  | heuristic
  | observedBuild
  | fingerprint
  | binary
  deriving DecidableEq, Repr

/-- `Confidence`, weakest first. -/
inductive Confidence
  | low
  | medium
  | high
  deriving DecidableEq, Repr

/-- `source_rank`. -/
def Source.rank : Source → Nat
  | manifest => 0
  | heuristic => 1
  | observedBuild => 2
  | fingerprint => 3
  | binary => 4

/-- `confidence_rank`. -/
def Confidence.rank : Confidence → Nat
  | low => 0
  | medium => 1
  | high => 2

theorem Source.rank_injective : Function.Injective Source.rank := by
  intro a b h
  cases a <;> cases b <;> simp_all [Source.rank]

structure Evidence where
  source : Source
  detail : String
  confidence : Confidence
  deriving DecidableEq, Repr

def evidenceOrder (left right : Evidence) : Bool :=
  if left.source ≠ right.source then left.source.rank < right.source.rank
  else if left.detail ≠ right.detail then left.detail < right.detail
  else right.confidence.rank < left.confidence.rank

/-- What `has_same_evidence_identity` compares, in the order of
`evidence_order`. -/
def Evidence.key (evidence : Evidence) : Nat ×ₗ String :=
  toLex (evidence.source.rank, evidence.detail)

/-- The order `std::sort` gives evidence. -/
def EvidenceLe (left right : Evidence) : Prop :=
  evidenceOrder right left = false

instance : DecidableRel EvidenceLe := fun left right =>
  inferInstanceAs (Decidable (evidenceOrder right left = false))

def normalizeEvidence (evidence : List Evidence) : List Evidence :=
  sortUnique EvidenceLe Evidence.key evidence

theorem evidenceLe_iff {left right : Evidence} :
    EvidenceLe left right ↔ left.key < right.key ∨ (left.key = right.key ∧
          right.confidence.rank ≤ left.confidence.rank) := by
  simp only [EvidenceLe, evidenceOrder, Evidence.key, Prod.Lex.toLex_lt_toLex,
    EmbeddingLike.apply_eq_iff_eq, Prod.mk.injEq]
  by_cases hsource : left.source = right.source
  · by_cases hdetail : left.detail = right.detail
    · simp [hsource, hdetail]
    · have hlt : ¬ right.detail < left.detail ↔ left.detail < right.detail :=
        not_lt.trans ⟨fun h => lt_of_le_of_ne h hdetail, le_of_lt⟩
      simpa [hsource, hdetail, Ne.symm hdetail] using hlt
  · have hrank : left.source.rank ≠ right.source.rank := fun h =>
      hsource (Source.rank_injective h)
    simp only [ne_eq, Ne.symm hsource, not_false_eq_true, if_true,
      decide_eq_false_iff_not, not_lt, hrank, false_and, or_false]
    omega

instance : Std.Total EvidenceLe where
  total left right := by
    simp only [evidenceLe_iff]
    rcases lt_trichotomy left.key right.key with h | h | h
    · exact Or.inl (Or.inl h)
    · rcases le_total left.confidence.rank right.confidence.rank with hc | hc
      · exact Or.inr (Or.inr ⟨h.symm, hc⟩)
      · exact Or.inl (Or.inr ⟨h, hc⟩)
    · exact Or.inr (Or.inl h)

instance : IsTrans Evidence EvidenceLe where
  trans a b c hab hbc := by
    rw [evidenceLe_iff] at hab hbc ⊢
    rcases hab with hab | ⟨hab, hcab⟩ <;> rcases hbc with hbc | ⟨hbc, hcbc⟩
    · exact Or.inl (hab.trans hbc)
    · exact Or.inl (hbc ▸ hab)
    · exact Or.inl (hab ▸ hbc)
    · exact Or.inr ⟨hab.trans hbc, hcbc.trans hcab⟩

theorem pairwise_normalizeEvidence (evidence : List Evidence) :
    (normalizeEvidence evidence).Pairwise fun a b => a.key < b.key := by
  refine pairwise_lt_sortUnique (fun a b h => ?_) evidence
  rcases evidenceLe_iff.mp h with h | ⟨h, -⟩
  · exact h.le
  · exact h.le

theorem normalizeEvidence_eq_self {evidence : List Evidence}
    (hsorted : evidence.Pairwise fun a b => a.key < b.key) :
    normalizeEvidence evidence = evidence :=
  sortUnique_eq_self
    (hsorted.imp fun h => evidenceLe_iff.mpr (Or.inl h))
    (hsorted.imp fun h => h.ne)

/-- CycloneDX `component.scope`. -/
inductive Scope
  | required
  | optional
  | excluded
  deriving DecidableEq, Repr

/-- `to_string(Scope)`. -/
def Scope.text : Scope → String
  | required => "required"
  | optional => "optional"
  | excluded => "excluded"

/-- `scope_rank`: lower is less restrictive. -/
def Scope.rank : Scope → Nat
  | required => 0
  | optional => 1
  | excluded => 2

inductive CpeProvenance
  | unspecified
  | synthesizedWildcardVendor
  deriving DecidableEq, Repr

/-- `to_string(CpeProvenance)`. -/
def CpeProvenance.text : CpeProvenance → String
  | synthesizedWildcardVendor => "wildcard-vendor-guess"
  | unspecified => ""

def cpeProvenancePropertyName : String := "bomwerk:cpe-provenance"

def fingerprintPropertyName : String := "bomwerk:fingerprint"

structure Component where
  name : String := ""
  version : String := ""
  supplier : String := ""
  license : String := ""
  purl : String := ""
  cpe : String := ""
  cpeProvenance : CpeProvenance := .unspecified
  sha256 : String := ""
  root : FsPath := .empty
  evidence : List Evidence := []
  usedInBuild : Bool := true
  scope : Scope := .required
  deriving DecidableEq

/-- `ReleaseMeta`, without `support_until`, which no writer reads. -/
structure ReleaseMeta where
  productId : String := ""
  version : String := ""
  deriving DecidableEq, Repr

/-- The part of `CraMetadata` the CycloneDX writer reads. -/
structure CraMetadata where
  manufacturerName : String := ""
  manufacturerEmail : String := ""
  deriving DecidableEq, Repr

def componentIdentity (component : Component) : String :=
  if component.purl ≠ "" then
    let parsedPurl := parsePurl component.purl
    if parsedPurl.complete then parsedPurl.value else component.purl
  else component.name ++ "@" ++ component.version

/-! ## Merging -/

/-- A field of the destination, filled from the source when it is empty. -/
def filled (destination source : String) : String :=
  if destination = "" then source else destination

def mergeInto (destination source : Component) : Component where
  name := filled destination.name source.name
  version := filled destination.version source.version
  supplier := filled destination.supplier source.supplier
  license := filled destination.license source.license
  purl := destination.purl
  cpe := filled destination.cpe source.cpe
  cpeProvenance :=
    if destination.cpe = "" then source.cpeProvenance
    else destination.cpeProvenance
  sha256 := filled destination.sha256 source.sha256
  root := if destination.root.isEmpty then source.root else destination.root
  usedInBuild := destination.usedInBuild || source.usedInBuild
  scope :=
    if source.scope.rank < destination.scope.rank then source.scope
    else destination.scope
  evidence := normalizeEvidence (destination.evidence ++ source.evidence)

/-- One turn of the loop of `merge_all`. -/
def mergeStep (merged : OrderedMap String Component) (component : Component) :
    OrderedMap String Component :=
  match merged[componentIdentity component]? with
  | none =>
    merged.insert (componentIdentity component)
      { component with evidence := normalizeEvidence component.evidence }
  | some existing =>
    merged.insert (componentIdentity component)
      (mergeInto existing component)

/-- `components_by_identity` at the end of `merge_all`. -/
def mergedByIdentity (components : List Component) :
    OrderedMap String Component :=
  components.foldl mergeStep ∅

def mergeAll (components : List Component) : List Component :=
  (mergedByIdentity components).toList.map Prod.snd

/-- The components stand in strictly increasing identity order.  `merge_all`
sorts by the identity a component had when it arrived, which a merge may have
changed since. -/
def IdentityIncreasing (components : List Component) : Prop :=
  (components.map componentIdentity).Pairwise (· < ·)

instance (components : List Component) :
    Decidable (IdentityIncreasing components) :=
  inferInstanceAs (Decidable ((components.map componentIdentity).Pairwise _))

/-- A component as `merge_all` stores it on first sight. -/
def Component.normalized (component : Component) : Component :=
  { component with evidence := normalizeEvidence component.evidence }

section MergeStep

variable {merged : OrderedMap String Component} {component : Component}

theorem mergeStep_getElem?_of_ne {key : String}
    (hne : key ≠ componentIdentity component) :
    (mergeStep merged component)[key]? = merged[key]? := by
  unfold mergeStep
  split <;> rw [getElem?_insert_eq, if_neg hne]

theorem mergeStep_getElem?_self :
    (mergeStep merged component)[componentIdentity component]? =
      some
        (match merged[componentIdentity component]? with
        | none => component.normalized
        | some existing => mergeInto existing component) := by
  unfold mergeStep
  split <;> simp_all [Component.normalized]

end MergeStep

theorem isSome_foldl_mergeStep_iff (components : List Component)
    (merged : OrderedMap String Component) (key : String) :
    (components.foldl mergeStep merged)[key]?.isSome ↔
      merged[key]?.isSome ∨ key ∈ components.map componentIdentity := by
  induction components generalizing merged with
  | nil => simp
  | cons component components ih =>
    rw [List.foldl_cons, ih]
    by_cases hkey : key = componentIdentity component
    · subst hkey
      simp [mergeStep_getElem?_self]
    · simp [mergeStep_getElem?_of_ne hkey, hkey]

/-- Two detections are merged whenever they share an identity, so no
component goes missing only when no two do. -/
theorem nodup_of_length_mergeAll {components : List Component}
    (hlength : (mergeAll components).length = components.length) :
    (components.map componentIdentity).Nodup := by
  have hsubset : (mergedByIdentity components).toList.map Prod.fst ⊆
      components.map componentIdentity := by
    intro key hkey
    simpa using (isSome_foldl_mergeStep_iff components ∅ key).mp
      (mem_keys_toList_iff.mp hkey)
  have hperm := (List.Nodup.subperm (nodup_keys_toList _)
    hsubset).perm_of_length_le (by simpa [mergeAll] using hlength.ge)
  exact hperm.nodup_iff.mp (nodup_keys_toList _)

theorem foldl_mergeStep_of_nodup {components : List Component}
    (hnodup : (components.map componentIdentity).Nodup)
    {merged : OrderedMap String Component}
    (hfresh : ∀ component ∈ components,
      merged[componentIdentity component]? = none) :
    components.foldl mergeStep merged =
      insertAll merged (components.map fun component =>
        (componentIdentity component, component.normalized)) := by
  induction components generalizing merged with
  | nil => rfl
  | cons component components ih =>
    rw [List.map_cons, List.nodup_cons] at hnodup
    have hstep : mergeStep merged component =
        merged.insert (componentIdentity component) component.normalized := by
      rw [mergeStep, hfresh component (by simp)]
      rfl
    rw [List.foldl_cons, hstep, ih hnodup.2]
    · rfl
    · intro other hother
      have hne : componentIdentity other ≠ componentIdentity component :=
        fun h => hnodup.1 (h ▸ List.mem_map_of_mem hother)
      rw [getElem?_insert_eq, if_neg hne, hfresh other (by simp [hother])]

/-- A list in identity order is only normalised by `merge_all`. -/
theorem mergeAll_of_identityIncreasing {components : List Component}
    (hincreasing : IdentityIncreasing components) :
    mergeAll components = components.map Component.normalized := by
  have hnodup : (components.map componentIdentity).Nodup :=
    hincreasing.imp fun h => h.ne
  have hpairs : (components.map fun component =>
      (componentIdentity component, component.normalized)).map Prod.fst =
        components.map componentIdentity := by
    simp
  have htoList : (mergedByIdentity components).toList =
      components.map fun component =>
        (componentIdentity component, component.normalized) := by
    rw [mergedByIdentity, foldl_mergeStep_of_nodup hnodup (by simp)]
    refine toList_eq_of_pairwise_lt ?_ fun key component => ⟨?_, ?_⟩
    · rw [← List.pairwise_map (f := Prod.fst), hpairs]
      exact hincreasing
    · exact fun hmem => insertAll_getElem?_of_mem (hpairs ▸ hnodup) hmem _
    · intro hget
      by_contra hmem
      by_cases hkey : key ∈ components.map componentIdentity
      · obtain ⟨other, hother, rfl⟩ := List.mem_map.mp hkey
        have hpair := List.mem_map_of_mem
          (f := fun component =>
            (componentIdentity component, component.normalized)) hother
        rw [insertAll_getElem?_of_mem (hpairs ▸ hnodup) hpair] at hget
        exact hmem (Option.some.inj hget ▸ hpair)
      · rw [insertAll_getElem?_of_notMem (hpairs ▸ hkey)] at hget
        simp at hget
  rw [mergeAll, htoList, List.map_map]
  rfl

/-- What the components of a list have when they arrive, and keep when they
are merged, every merged component has. -/
theorem foldl_mergeStep_induction {motive : String → Component → Prop}
    {components : List Component}
    (hnew : ∀ component ∈ components,
      motive (componentIdentity component) component.normalized)
    (hmerge : ∀ component ∈ components, ∀ existing,
      motive (componentIdentity component) existing →
        motive (componentIdentity component) (mergeInto existing component))
    {merged : OrderedMap String Component}
    (hmerged : ∀ (key : String) (component : Component),
      merged[key]? = some component → motive key component) :
    ∀ (key : String) (component : Component),
      (components.foldl mergeStep merged)[key]? = some component →
        motive key component := by
  induction components generalizing merged with
  | nil => exact hmerged
  | cons component components ih =>
    refine ih (fun other hother => hnew other (by simp [hother]))
      (fun other hother => hmerge other (by simp [hother])) ?_
    intro key other hother
    by_cases hkey : key = componentIdentity component
    · subst hkey
      rw [mergeStep_getElem?_self] at hother
      obtain rfl := Option.some.inj hother
      cases hexisting : merged[componentIdentity component]? with
      | none => exact hnew component (by simp)
      | some existing =>
        exact hmerge component (by simp) existing (hmerged _ _ hexisting)
    · rw [mergeStep_getElem?_of_ne hkey] at hother
      exact hmerged key other hother

theorem mergeAll_induction {motive : Component → Prop}
    {components : List Component}
    (hnew : ∀ component ∈ components, motive component.normalized)
    (hmerge : ∀ component ∈ components, ∀ existing,
      motive existing → motive (mergeInto existing component)) :
    ∀ component ∈ mergeAll components, motive component := by
  intro component hmem
  obtain ⟨⟨key, _⟩, hpair, rfl⟩ := List.mem_map.mp hmem
  exact foldl_mergeStep_induction (motive := fun _ => motive) hnew hmerge
    (by simp) key _ (mem_toList_iff.mp hpair)

/-- The fields its identity is made of are filled in. -/
def Component.IsNamed (component : Component) : Prop :=
  component.purl ≠ "" ∨ (component.name ≠ "" ∧ component.version ≠ "")

theorem componentIdentity_mergeInto {destination : Component}
    (hnamed : destination.IsNamed) (source : Component) :
    componentIdentity (mergeInto destination source) =
      componentIdentity destination := by
  by_cases hpurl : destination.purl = ""
  · obtain ⟨hname, hversion⟩ := hnamed.resolve_left (fun h => h hpurl)
    simp [componentIdentity, mergeInto, filled, hpurl, hname, hversion]
  · unfold componentIdentity
    rw [if_pos hpurl, if_pos (show (mergeInto destination source).purl ≠ ""
      from hpurl)]
    rfl

theorem isNamed_mergeInto {destination : Component}
    (hnamed : destination.IsNamed) (source : Component) :
    (mergeInto destination source).IsNamed := by
  rcases hnamed with hpurl | ⟨hname, hversion⟩
  · exact Or.inl hpurl
  · exact Or.inr (by simp [mergeInto, filled, hname, hversion])

theorem mergedByIdentity_identity {components : List Component}
    (hnamed : ∀ component ∈ components, component.IsNamed) :
    ∀ (key : String) (component : Component),
      (mergedByIdentity components)[key]? = some component →
        component.IsNamed ∧ componentIdentity component = key := by
  refine foldl_mergeStep_induction
    (motive := fun key component =>
      component.IsNamed ∧ componentIdentity component = key) ?_ ?_ (by simp)
  · exact fun component hmem => ⟨hnamed component hmem, rfl⟩
  · rintro component - existing ⟨hexisting, hidentity⟩
    exact ⟨isNamed_mergeInto hexisting component,
      (componentIdentity_mergeInto hexisting component).trans hidentity⟩

/-- Detections that all carry the fields of their identity are merged into a
list in identity order. -/
theorem identityIncreasing_mergeAll {components : List Component}
    (hnamed : ∀ component ∈ components, component.IsNamed) :
    IdentityIncreasing (mergeAll components) := by
  have hkeys : (mergeAll components).map componentIdentity =
      (mergedByIdentity components).toList.map Prod.fst := by
    rw [mergeAll, List.map_map]
    refine List.map_congr_left ?_
    rintro ⟨key, component⟩ hmem
    exact (mergedByIdentity_identity hnamed key component
      (mem_toList_iff.mp hmem)).2
  rw [IdentityIncreasing, hkeys, List.pairwise_map]
  exact pairwise_lt_toList _

theorem pairwise_evidence_of_mem_mergeAll {components : List Component}
    {component : Component} (hmem : component ∈ mergeAll components) :
    component.evidence.Pairwise fun a b => a.key < b.key := by
  refine mergeAll_induction
    (motive := fun component =>
      component.evidence.Pairwise fun a b => a.key < b.key) ?_ ?_ component hmem
  · exact fun component _ => pairwise_normalizeEvidence component.evidence
  · exact fun component _ existing _ => pairwise_normalizeEvidence _

end Bomwerk.Core
