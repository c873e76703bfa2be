import Bomwerk.Core.Merge

/-!
# Merging in any order

The order of discovery decides which detection of an identity is the
destination of the others.  Its purl is kept, but an empty name or version of a
detection without a purl is filled, and then its identity is no longer the one
it is filed under.
-/

namespace Bomwerk.Core

open Bomwerk.Support

/-- What has to be the same whatever the order of discovery. -/
def Component.signals (component : Component) :
    String × List Evidence × Bool × Scope :=
  (componentIdentity component, component.evidence, component.usedInBuild,
    component.scope)

/-- Every order of discovery gives a list in identity order, with the same
signals, which a second merge leaves as it is. -/
def MergesInAnyOrder (components : List Component) : Prop :=
  ∀ permuted : List Component, permuted.Perm components →
    IdentityIncreasing (mergeAll permuted) ∧
      (mergeAll permuted).map Component.signals =
        (mergeAll components).map Component.signals ∧
      mergeAll (mergeAll permuted) = mergeAll permuted

/-- Merging `source` into `destination` fills a field of its identity. -/
def Fills (destination source : Component) : Prop :=
  destination.purl = "" ∧
    ((destination.name = "" ∧ source.name ≠ "") ∨
      (destination.version = "" ∧ source.version ≠ ""))

instance : DecidableRel Fills := fun destination source =>
  inferInstanceAs (Decidable (destination.purl = "" ∧
    ((destination.name = "" ∧ source.name ≠ "") ∨
      (destination.version = "" ∧ source.version ≠ ""))))

/-- Some detection of the identity fills another one. -/
def IsFilled (components : List Component) (identity : String) : Prop :=
  ∃ destination ∈ filedUnder components identity,
    ∃ source ∈ filedUnder components identity, Fills destination source

instance (components : List Component) (identity : String) :
    Decidable (IsFilled components identity) :=
  inferInstanceAs (Decidable (∃ destination ∈ _, ∃ source ∈ _, _))

/-- The identity of what is merged under an identity, when every detection of
it is filled: the name and the version are then both of its halves. -/
def settledIdentity (components : List Component) (identity : String) :
    String :=
  if IsFilled components identity then
    identity ++ String.ofList identity.toList.tail
  else identity

/-- No detection is filled by another one of its identity, or all of them
are. -/
def FillsTogether (components : List Component) : Prop :=
  ∀ identity, IsFilled components identity →
    ∀ destination ∈ filedUnder components identity,
      ∃ source ∈ filedUnder components identity, Fills destination source

/-- Detections are filled together, and the identities they settle on keep the
order of the old ones. -/
structure KeepsIdentities (components : List Component) : Prop where
  together : FillsTogether components
  ordered : ∀ left ∈ identities components, ∀ right ∈ identities components,
    left < right →
      settledIdentity components left < settledIdentity components right

section Group

variable {first : Component} {rest : List Component}

theorem name_foldl_mergeInto (first : Component) (rest : List Component) :
    (rest.foldl mergeInto first.normalized).name =
      (rest.map Component.name).foldl (fill (· = "")) first.name :=
  foldl_mergeInto_fill (fun _ _ => rfl) first.normalized rest

theorem version_foldl_mergeInto (first : Component) (rest : List Component) :
    (rest.foldl mergeInto first.normalized).version =
      (rest.map Component.version).foldl (fill (· = "")) first.version :=
  foldl_mergeInto_fill (fun _ _ => rfl) first.normalized rest

theorem componentIdentity_of_purl {left right : Component}
    (hpurl : left.purl ≠ "") (heq : right.purl = left.purl) :
    componentIdentity right = componentIdentity left := by
  rw [componentIdentity, componentIdentity, heq, if_pos hpurl, if_pos hpurl]

theorem componentIdentity_of_purl_empty {component : Component}
    (hpurl : component.purl = "") :
    componentIdentity component =
      component.name ++ "@" ++ component.version := by
  rw [componentIdentity, if_neg (not_not.mpr hpurl)]

theorem foldl_fill_eq_self {text : String} {texts : List String}
    (hnone : text = "" → ∀ other ∈ texts, other = "") :
    texts.foldl (fill (· = "")) text = text := by
  by_cases htext : text = ""
  · refine ((empty_foldl_fill_iff (· = "") text texts).mpr ?_).trans htext.symm
    simpa [htext] using hnone htext
  · exact foldl_fill_of_not_empty (· = "") htext texts

theorem length_le_foldl_fill (text : String) (texts : List String) :
    text.length ≤ (texts.foldl (fill (· = "")) text).length := by
  by_cases htext : text = ""
  · simp [htext]
  · rw [foldl_fill_of_not_empty (· = "") htext]

theorem length_lt_foldl_fill {text : String} {texts : List String}
    (htext : text = "") (hsome : ∃ other ∈ texts, other ≠ "") :
    text.length < (texts.foldl (fill (· = "")) text).length := by
  have hne : texts.foldl (fill (· = "")) text ≠ "" := by
    intro hempty
    obtain ⟨other, hother, hne⟩ := hsome
    exact hne ((empty_foldl_fill_iff (· = "") text texts).mp hempty other
      (List.mem_cons_of_mem text hother))
  rw [htext] at hne ⊢
  exact Nat.pos_of_ne_zero fun hzero => hne (String.length_eq_zero_iff.mp hzero)

/-- A first detection that nothing fills keeps its identity. -/
theorem componentIdentity_foldl_of_not_fills
    (hfirst : ∀ source ∈ rest, ¬ Fills first source) :
    componentIdentity (rest.foldl mergeInto first.normalized) =
      componentIdentity first := by
  have hpurl : (rest.foldl mergeInto first.normalized).purl = first.purl :=
    foldl_mergeInto_purl first.normalized rest
  by_cases hempty : first.purl = ""
  · have hname : (rest.foldl mergeInto first.normalized).name = first.name := by
      rw [name_foldl_mergeInto]
      refine foldl_fill_eq_self fun hname text htext => ?_
      obtain ⟨source, hsource, rfl⟩ := List.mem_map.mp htext
      by_contra hne
      exact hfirst source hsource ⟨hempty, Or.inl ⟨hname, hne⟩⟩
    have hversion : (rest.foldl mergeInto first.normalized).version =
        first.version := by
      rw [version_foldl_mergeInto]
      refine foldl_fill_eq_self fun hversion text htext => ?_
      obtain ⟨source, hsource, rfl⟩ := List.mem_map.mp htext
      by_contra hne
      exact hfirst source hsource ⟨hempty, Or.inr ⟨hversion, hne⟩⟩
    rw [componentIdentity_of_purl_empty (hpurl.trans hempty), hname, hversion,
      componentIdentity_of_purl_empty hempty]
  · exact componentIdentity_of_purl hempty hpurl

/-- A first detection that another one fills gets a longer identity. -/
theorem componentIdentity_foldl_of_fills
    (hfirst : ∃ source ∈ rest, Fills first source) :
    componentIdentity (rest.foldl mergeInto first.normalized) ≠
      componentIdentity first := by
  obtain ⟨source, hsource, hempty, hfield⟩ := hfirst
  have hpurl : (rest.foldl mergeInto first.normalized).purl = "" :=
    (foldl_mergeInto_purl first.normalized rest).trans hempty
  rw [componentIdentity_of_purl_empty hpurl,
    componentIdentity_of_purl_empty hempty, name_foldl_mergeInto,
    version_foldl_mergeInto]
  intro hidentity
  have hlength := congrArg String.length hidentity
  simp only [String.length_append] at hlength
  have hname := length_le_foldl_fill first.name (rest.map Component.name)
  have hversion :=
    length_le_foldl_fill first.version (rest.map Component.version)
  rcases hfield with ⟨hfield, hne⟩ | ⟨hfield, hne⟩
  · have := length_lt_foldl_fill hfield
      ⟨source.name, List.mem_map_of_mem hsource, hne⟩
    omega
  · have := length_lt_foldl_fill hfield
      ⟨source.version, List.mem_map_of_mem hsource, hne⟩
    omega

end Group

/-! ## Groups in which every detection is filled -/

section Uniform

variable {group : List Component} {identity : String}

/-- Where every detection is filled, one has the identity's name alone and
another its version alone. -/
theorem exists_halves (hne : group ≠ [])
    (hidentity : ∀ component ∈ group, componentIdentity component = identity)
    (hfilled : ∀ destination ∈ group,
      ∃ source ∈ group, Fills destination source) :
    ∃ named ∈ group, ∃ versioned ∈ group,
      named.name ≠ "" ∧ named.name ++ "@" = identity ∧
        versioned.version ≠ "" ∧ "@" ++ versioned.version = identity := by
  have hnamed : ∀ component ∈ group, component.name ≠ "" →
      component.version = "" ∧ component.name ++ "@" = identity := by
    intro component hmem hname
    obtain ⟨source, -, hpurl, hfield⟩ := hfilled component hmem
    have hversion := (hfield.resolve_left fun h => hname h.1).1
    have htext := hidentity component hmem
    rw [componentIdentity_of_purl_empty hpurl, hversion] at htext
    exact ⟨hversion, by simpa using htext⟩
  have hversioned : ∀ component ∈ group, component.version ≠ "" →
      component.name = "" ∧ "@" ++ component.version = identity := by
    intro component hmem hversion
    obtain ⟨source, -, hpurl, hfield⟩ := hfilled component hmem
    have hname := (hfield.resolve_right fun h => hversion h.1).1
    have htext := hidentity component hmem
    rw [componentIdentity_of_purl_empty hpurl, hname] at htext
    exact ⟨hname, by simpa using htext⟩
  have hother : ∀ component ∈ group, component.name ≠ "" →
      ∃ versioned ∈ group, versioned.version ≠ "" := by
    intro component hmem hname
    obtain ⟨source, hsource, -, hfield⟩ := hfilled component hmem
    exact ⟨source, hsource, (hfield.resolve_left fun h => hname h.1).2⟩
  obtain ⟨first, hfirst⟩ := List.exists_mem_of_ne_nil group hne
  obtain ⟨source, hsource, hpurl, ⟨-, hname⟩ | ⟨-, hversion⟩⟩ :=
    hfilled first hfirst
  · obtain ⟨versioned, hmem, hversion⟩ := hother source hsource hname
    exact ⟨source, hsource, versioned, hmem, hname,
      (hnamed source hsource hname).2, hversion,
      (hversioned versioned hmem hversion).2⟩
  · obtain ⟨named, hmem, -, hfield⟩ := hfilled source hsource
    have hname := (hfield.resolve_right fun h => hversion h.1).2
    exact ⟨named, hmem, source, hsource, hname, (hnamed named hmem hname).2,
      hversion, (hversioned source hsource hversion).2⟩

theorem append_singleton_inj {left right mark : String}
    (h : left ++ mark = right ++ mark) : left = right := by
  have htext := congrArg String.toList h
  simp only [String.toList_append, List.append_cancel_right_eq] at htext
  exact String.toList_inj.mp htext

theorem prepend_singleton_inj {left right mark : String}
    (h : mark ++ left = mark ++ right) : left = right := by
  have htext := congrArg String.toList h
  simp only [String.toList_append, List.append_cancel_left_eq] at htext
  exact String.toList_inj.mp htext

theorem foldl_fill_eq_of_forall {value text : String} {texts : List String}
    (hvalue : value ≠ "")
    (hall : ∀ other ∈ text :: texts, other = "" ∨ other = value)
    (hmem : value ∈ text :: texts) :
    texts.foldl (fill (· = "")) text = value := by
  refine (hall _ (foldl_fill_mem (· = "") text texts)).resolve_left fun hempty => ?_
  exact hvalue ((empty_foldl_fill_iff (· = "") text texts).mp hempty value hmem)

/-- A group of filled detections settles on both halves, whichever detection
is first. -/
theorem componentIdentity_foldl_of_uniform {first : Component}
    {rest : List Component}
    (hidentity : ∀ component ∈ first :: rest,
      componentIdentity component = identity)
    (hfilled : ∀ destination ∈ first :: rest,
      ∃ source ∈ first :: rest, Fills destination source) :
    componentIdentity (rest.foldl mergeInto first.normalized) =
      identity ++ String.ofList identity.toList.tail := by
  obtain ⟨named, hnamed, versioned, hversioned, hname, hnameText, hversion,
    hversionText⟩ := exists_halves (by simp) hidentity hfilled
  have hpurl : ∀ component ∈ first :: rest, component.purl = "" := by
    intro component hmem
    obtain ⟨source, -, hpurl, -⟩ := hfilled component hmem
    exact hpurl
  have hsplit : ∀ component ∈ first :: rest,
      component.name ++ "@" ++ component.version = identity := by
    intro component hmem
    rw [← componentIdentity_of_purl_empty (hpurl component hmem)]
    exact hidentity component hmem
  have hnames : ∀ component ∈ first :: rest,
      component.name = "" ∨ component.name = named.name := by
    intro component hmem
    by_cases hempty : component.name = ""
    · exact Or.inl hempty
    · obtain ⟨source, -, -, hfield⟩ := hfilled component hmem
      have hversion := (hfield.resolve_left fun h => hempty h.1).1
      have htext := hsplit component hmem
      rw [hversion, String.append_empty, ← hnameText] at htext
      exact Or.inr (append_singleton_inj htext)
  have hversions : ∀ component ∈ first :: rest,
      component.version = "" ∨ component.version = versioned.version := by
    intro component hmem
    by_cases hempty : component.version = ""
    · exact Or.inl hempty
    · obtain ⟨source, -, -, hfield⟩ := hfilled component hmem
      have hname := (hfield.resolve_right fun h => hempty h.1).1
      have htext := hsplit component hmem
      rw [hname, String.empty_append, ← hversionText] at htext
      exact Or.inr (prepend_singleton_inj htext)
  have hmergedName :
      (rest.foldl mergeInto first.normalized).name = named.name := by
    rw [name_foldl_mergeInto]
    refine foldl_fill_eq_of_forall hname ?_
      (List.mem_map_of_mem (f := Component.name) hnamed)
    intro text htext
    obtain ⟨component, hmem, rfl⟩ := List.mem_map.mp
      (List.map_cons (f := Component.name) ▸ htext)
    exact hnames component hmem
  have hmergedVersion :
      (rest.foldl mergeInto first.normalized).version = versioned.version := by
    rw [version_foldl_mergeInto]
    refine foldl_fill_eq_of_forall hversion ?_
      (List.mem_map_of_mem (f := Component.version) hversioned)
    intro text htext
    obtain ⟨component, hmem, rfl⟩ := List.mem_map.mp
      (List.map_cons (f := Component.version) ▸ htext)
    exact hversions component hmem
  have htail : String.ofList identity.toList.tail = versioned.version := by
    rw [← hversionText, String.toList_append]
    simp
  rw [componentIdentity_of_purl_empty
      ((foldl_mergeInto_purl first.normalized rest).trans (hpurl first (by simp))),
    hmergedName, hmergedVersion, hnameText, htail]

end Uniform

/-! ## Order independence -/

section Lists

variable {components permuted : List Component}

theorem isFilled_perm (hperm : permuted.Perm components) (identity : String) :
    IsFilled permuted identity ↔ IsFilled components identity := by
  have hmem := fun component : Component =>
    (filedUnder_perm hperm identity).mem_iff (a := component)
  simp only [IsFilled, hmem]

theorem settledIdentity_perm (hperm : permuted.Perm components)
    (identity : String) :
    settledIdentity permuted identity = settledIdentity components identity := by
  simp only [settledIdentity, isFilled_perm hperm]

theorem fillsTogether_perm (hperm : permuted.Perm components)
    (huniform : FillsTogether components) : FillsTogether permuted := by
  intro identity hfilled destination hmem
  have hgroup := filedUnder_perm hperm identity
  obtain ⟨source, hsource, hfills⟩ := huniform identity
    ((isFilled_perm hperm identity).mp hfilled) destination
    (hgroup.mem_iff.mp hmem)
  exact ⟨source, hgroup.mem_iff.mpr hsource, hfills⟩

/-- The identity under which the merged component is found afterwards. -/
theorem componentIdentity_mergedUnder
    (huniform : FillsTogether components)
    {identity : String} (hmem : identity ∈ identities components) :
    componentIdentity (mergedUnder components identity) =
      settledIdentity components identity := by
  obtain ⟨first, rest, hgroup, hmerged⟩ := exists_mergedUnder hmem
  have hidentity : ∀ component ∈ first :: rest,
      componentIdentity component = identity := by
    intro component hcomponent
    exact (mem_filedUnder.mp (hgroup ▸ hcomponent)).2
  rw [hmerged]
  by_cases hfilled : IsFilled components identity
  · rw [settledIdentity, if_pos hfilled]
    refine componentIdentity_foldl_of_uniform hidentity ?_
    rw [← hgroup]
    exact huniform identity hfilled
  · rw [settledIdentity, if_neg hfilled, ← hidentity first (by simp)]
    refine componentIdentity_foldl_of_not_fills fun source hsource hfills => ?_
    exact hfilled ⟨first, by simp [hgroup], source, by simp [hgroup, hsource],
      hfills⟩

/-- Evidence, signal and scope of a merged component do not depend on the
order of discovery. -/
theorem signals_mergedUnder_perm (hperm : permuted.Perm components)
    {identity : String} (hmem : identity ∈ identities components) :
    (mergedUnder permuted identity).signals.2 =
      (mergedUnder components identity).signals.2 := by
  obtain ⟨first, rest, hgroup, hmerged⟩ := exists_mergedUnder hmem
  obtain ⟨first', rest', hgroup', hmerged'⟩ :=
    exists_mergedUnder (identities_perm hperm ▸ hmem)
  have hperm : (first' :: rest').Perm (first :: rest) := by
    rw [← hgroup, ← hgroup']
    exact filedUnder_perm hperm identity
  simp only [Component.signals, hmerged, hmerged', Prod.mk.injEq]
  refine ⟨foldl_mergeInto_evidence_perm hperm, ?_, ?_⟩
  · exact foldl_mergeInto_usedInBuild_perm hperm
  · exact foldl_mergeInto_scope_perm hperm

theorem mergedUnder_cons_erase (components : List Component)
    (component : Component) :
    mergedUnder (component :: components.erase component)
        (componentIdentity component) =
      (filedUnder (components.erase component)
        (componentIdentity component)).foldl mergeInto
          component.normalized := by
  simp [mergedUnder, filedUnder, mergeGroup]

theorem pairwise_map_lt_iff {α β : Type*} [Preorder α] [LT β] {keys : List α}
    (hkeys : keys.Pairwise (· < ·)) {f : α → β} :
    (keys.map f).Pairwise (· < ·) ↔
      ∀ left ∈ keys, ∀ right ∈ keys, left < right → f left < f right := by
  rw [List.pairwise_map]
  constructor
  · intro hpairwise
    induction keys with
    | nil => simp
    | cons key keys ih =>
      rw [List.pairwise_cons] at hkeys hpairwise
      intro left hleft right hright hlt
      rcases List.mem_cons.mp hleft with rfl | htail
      · rcases List.mem_cons.mp hright with rfl | htail
        · exact absurd hlt (lt_irrefl right)
        · exact hpairwise.1 right htail
      · rcases List.mem_cons.mp hright with rfl | htail'
        · exact absurd hlt (lt_asymm (hkeys.1 left htail))
        · exact ih hkeys.2 hpairwise.2 left htail right htail' hlt
  · intro hmono
    exact hkeys.imp_of_mem fun hleft hright hlt => hmono _ hleft _ hright hlt

theorem identityIncreasing_mergeAll_iff
    (huniform : FillsTogether components) :
    IdentityIncreasing (mergeAll components) ↔
      ∀ left ∈ identities components, ∀ right ∈ identities components,
        left < right → settledIdentity components left <
            settledIdentity components right := by
  have hmap : (mergeAll components).map componentIdentity =
      (identities components).map (settledIdentity components) := by
    rw [mergeAll_eq_map, List.map_map]
    exact List.map_congr_left fun identity hmem =>
      componentIdentity_mergedUnder huniform hmem
  rw [IdentityIncreasing, hmap]
  exact pairwise_map_lt_iff (pairwise_lt_identities components)

theorem signals_eq_of_mergesInAnyOrder (horder : MergesInAnyOrder components)
    {left right : List Component} (hleft : left.Perm components)
    (hright : right.Perm components) {identity : String}
    (hmem : identity ∈ identities components) :
    (mergedUnder left identity).signals =
      (mergedUnder right identity).signals := by
  have hsame := (horder left hleft).2.1.trans (horder right hright).2.1.symm
  rw [mergeAll_eq_map, mergeAll_eq_map, identities_perm hleft,
    identities_perm hright, List.map_map, List.map_map] at hsame
  exact List.map_inj_left.mp hsame identity hmem

/-- If one detection of an identity is filled by another, each of them is:
found first, a detection that is not would keep the identity that the other
one loses. -/
theorem fillsTogether_of_mergesInAnyOrder
    (horder : MergesInAnyOrder components) : FillsTogether components := by
  intro identity hfilled kept hkept
  by_contra hnone
  obtain ⟨lost, hlost, source, hsource, hfills⟩ := hfilled
  rw [mem_filedUnder] at hkept hlost hsource
  have hperm : ∀ component ∈ components,
      (component :: components.erase component).Perm components :=
    fun component hmem => (List.perm_cons_erase hmem).symm
  have hmem : identity ∈ identities components :=
    mem_identities_iff.mpr (List.mem_map.mpr ⟨kept, hkept⟩)
  have hsame := signals_eq_of_mergesInAnyOrder horder (hperm kept hkept.1)
    (hperm lost hlost.1) hmem
  have hidentity := congrArg Prod.fst hsame
  simp only [Component.signals] at hidentity
  have hkeeps : componentIdentity
      (mergedUnder (kept :: components.erase kept) identity) = identity := by
    rw [← hkept.2, mergedUnder_cons_erase]
    refine componentIdentity_foldl_of_not_fills fun other hother hfills => ?_
    rw [mem_filedUnder] at hother
    exact hnone ⟨other, mem_filedUnder.mpr
      ⟨List.mem_of_mem_erase hother.1, hother.2.trans hkept.2⟩, hfills⟩
  have hloses : componentIdentity
      (mergedUnder (lost :: components.erase lost) identity) ≠ identity := by
    rw [← hlost.2, mergedUnder_cons_erase]
    refine componentIdentity_foldl_of_fills ⟨source, ?_, hfills⟩
    have hne : source ≠ lost := by
      rintro rfl
      rcases hfills.2 with ⟨hempty, hne⟩ | ⟨hempty, hne⟩
      · exact hne hempty
      · exact hne hempty
    exact mem_filedUnder.mpr ⟨(List.mem_erase_of_ne hne).mpr hsource.1,
      hsource.2.trans hlost.2.symm⟩
  exact hloses (hidentity.symm.trans hkeeps)

/-- A list in identity order with merged evidence is not changed by merging it
again. -/
theorem mergeAll_mergeAll
    (hincreasing : IdentityIncreasing (mergeAll components)) :
    mergeAll (mergeAll components) = mergeAll components := by
  rw [mergeAll_of_identityIncreasing hincreasing]
  refine (List.map_congr_left fun component hmem => ?_).trans (List.map_id _)
  rw [Component.normalized,
    normalizeEvidence_eq_self (pairwise_evidence_of_mem_mergeAll hmem)]
  rfl

/-- The order of discovery does not matter exactly when merging leaves every
identity alone, or moves all detections of it to the same one. -/
theorem mergesInAnyOrder_iff (components : List Component) :
    MergesInAnyOrder components ↔ KeepsIdentities components := by
  constructor
  · intro horder
    have huniform := fillsTogether_of_mergesInAnyOrder horder
    exact ⟨huniform, (identityIncreasing_mergeAll_iff huniform).mp
      (horder components (List.Perm.refl components)).1⟩
  · rintro ⟨huniform, hordered⟩ permuted hperm
    have huniform' := fillsTogether_perm hperm huniform
    have hincreasing : IdentityIncreasing (mergeAll permuted) := by
      rw [identityIncreasing_mergeAll_iff huniform', identities_perm hperm]
      simpa only [settledIdentity_perm hperm] using hordered
    refine ⟨hincreasing, ?_, mergeAll_mergeAll hincreasing⟩
    rw [mergeAll_eq_map, mergeAll_eq_map, identities_perm hperm,
      List.map_map, List.map_map]
    refine List.map_congr_left fun identity hmem => Prod.ext ?_ ?_
    · change componentIdentity _ = componentIdentity _
      rw [componentIdentity_mergedUnder huniform hmem,
        componentIdentity_mergedUnder huniform' (identities_perm hperm ▸ hmem),
        settledIdentity_perm hperm]
    · exact signals_mergedUnder_perm hperm hmem

/-- A package found with its name, and found under a version that spells the
name out as well. -/
theorem not_mergesInAnyOrder_of_empty_name :
    ¬ MergesInAnyOrder
        [{ name := "", version := "scope/pkg@1.0" },
          { name := "@scope/pkg", version := "1.0" }] := by
  intro horder
  have hsame := (horder
    [{ name := "@scope/pkg", version := "1.0" },
      { name := "", version := "scope/pkg@1.0" }]
    (List.Perm.swap _ _ _)).2.1
  have hsignals := congrArg (List.map Prod.fst) hsame
  exact absurd hsignals (by decide +kernel)

end Lists
end Bomwerk.Core
