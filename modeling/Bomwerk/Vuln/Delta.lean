import Bomwerk.Support.SortUnique
import Mathlib.Data.String.Basic

/-!
# Advisory deltas

`vuln/delta.cpp`: the two-pointer merge that compares the advisory revisions
stored for a purl with the ones just observed.  Over sorted, deduplicated
lists it computes the set differences by id, and reports no change exactly
when the two lists agree.
-/

namespace Bomwerk.Vuln

open Bomwerk.Support

structure AdvisoryRevision where
  advisoryId : String
  modified : String := ""
  deriving DecidableEq, Repr

/-- Sorted by id, without repetition: the shape both inputs of the diff have. -/
abbrev SortedById (revisions : List AdvisoryRevision) : Prop :=
  revisions.Pairwise fun left right => left.advisoryId < right.advisoryId

abbrev advisoryIds (revisions : List AdvisoryRevision) : List String :=
  revisions.map AdvisoryRevision.advisoryId

structure PurlAdvisoryDelta where
  purl : String
  addedAdvisoryIds : List String := []
  modifiedAdvisoryIds : List String := []
  removedAdvisoryIds : List String := []
  deriving DecidableEq, Repr

def PurlAdvisoryDelta.isUnchanged (delta : PurlAdvisoryDelta) : Bool :=
  delta.addedAdvisoryIds.isEmpty && delta.modifiedAdvisoryIds.isEmpty &&
    delta.removedAdvisoryIds.isEmpty

theorem PurlAdvisoryDelta.isUnchanged_iff {delta : PurlAdvisoryDelta} :
    delta.isUnchanged = true ↔
      delta.addedAdvisoryIds = [] ∧ delta.modifiedAdvisoryIds = [] ∧
        delta.removedAdvisoryIds = [] := by
  simp [isUnchanged, and_assoc]

namespace PurlAdvisoryDelta

def pushAdded (id : String) (delta : PurlAdvisoryDelta) : PurlAdvisoryDelta :=
  { delta with addedAdvisoryIds := id :: delta.addedAdvisoryIds }

def pushModified (id : String) (delta : PurlAdvisoryDelta) :
    PurlAdvisoryDelta :=
  { delta with modifiedAdvisoryIds := id :: delta.modifiedAdvisoryIds }

def pushRemoved (id : String) (delta : PurlAdvisoryDelta) :
    PurlAdvisoryDelta :=
  { delta with removedAdvisoryIds := id :: delta.removedAdvisoryIds }

end PurlAdvisoryDelta

/-- The turns of the loop while `previous_index` rests on one stored revision;
`rest` is the loop from the next stored revision on. -/
def diffHead (previousRevision : AdvisoryRevision)
    (rest : List AdvisoryRevision → PurlAdvisoryDelta) :
    List AdvisoryRevision → PurlAdvisoryDelta
  | [] => (rest []).pushRemoved previousRevision.advisoryId
  | currentRevision :: current =>
    if previousRevision.advisoryId = currentRevision.advisoryId then
      if previousRevision.modified ≠ currentRevision.modified then
        (rest current).pushModified currentRevision.advisoryId
      else rest current
    else if previousRevision.advisoryId < currentRevision.advisoryId then
      (rest (currentRevision :: current)).pushRemoved
        previousRevision.advisoryId
    else
      (diffHead previousRevision rest current).pushAdded
        currentRevision.advisoryId

def diffAdvisoryRevisions (purl : String) :
    List AdvisoryRevision → List AdvisoryRevision → PurlAdvisoryDelta
  | [], current => { purl := purl, addedAdvisoryIds := advisoryIds current }
  | previousRevision :: previous, current =>
    diffHead previousRevision (diffAdvisoryRevisions purl previous) current

/-! ## What the merge computes -/

/-- A delta lists exactly the ids gained, lost and restamped. -/
structure IsDelta (previous current : List AdvisoryRevision)
    (delta : PurlAdvisoryDelta) : Prop where
  added : ∀ id, id ∈ delta.addedAdvisoryIds ↔
    id ∈ advisoryIds current ∧ id ∉ advisoryIds previous
  modified : ∀ id, id ∈ delta.modifiedAdvisoryIds ↔
    ∃ old ∈ previous, ∃ new ∈ current, old.advisoryId = id ∧
      new.advisoryId = id ∧ old.modified ≠ new.modified
  removed : ∀ id, id ∈ delta.removedAdvisoryIds ↔
    id ∈ advisoryIds previous ∧ id ∉ advisoryIds current

theorem sortedById_notMem_of_lt {id : String}
    {revisions : List AdvisoryRevision}
    (hlt : ∀ revision ∈ revisions, id < revision.advisoryId) :
    id ∉ advisoryIds revisions := by
  intro hmem
  obtain ⟨revision, hrevision, rfl⟩ := List.mem_map.mp hmem
  exact lt_irrefl _ (hlt revision hrevision)

/-- The ids that are restamped when both lists begin with one id. -/
theorem restamped_cons_iff {old new : AdvisoryRevision}
    {previous current : List AdvisoryRevision}
    (hid : old.advisoryId = new.advisoryId)
    (hprevious : new.advisoryId ∉ advisoryIds previous)
    (hcurrent : new.advisoryId ∉ advisoryIds current) (id : String) :
    (∃ a ∈ old :: previous, ∃ b ∈ new :: current, a.advisoryId = id ∧
        b.advisoryId = id ∧ a.modified ≠ b.modified) ↔
      (id = new.advisoryId ∧ old.modified ≠ new.modified) ∨
        ∃ a ∈ previous, ∃ b ∈ current, a.advisoryId = id ∧
          b.advisoryId = id ∧ a.modified ≠ b.modified := by
  constructor
  · rintro ⟨a, ha, b, hb, haid, hbid, hne⟩
    rcases List.mem_cons.mp ha with rfl | ha
    · rcases List.mem_cons.mp hb with rfl | hb
      · exact .inl ⟨hbid.symm, hne⟩
      · have hsame := hbid.trans (haid.symm.trans hid)
        exact absurd (hsame ▸ List.mem_map_of_mem hb) hcurrent
    · rcases List.mem_cons.mp hb with rfl | hb
      · have hsame := haid.trans hbid.symm
        exact absurd (hsame ▸ List.mem_map_of_mem ha) hprevious
      · exact .inr ⟨a, ha, b, hb, haid, hbid, hne⟩
  · rintro (⟨rfl, hne⟩ | ⟨a, ha, b, hb, h⟩)
    · exact ⟨old, List.mem_cons_self, new, List.mem_cons_self, hid, rfl, hne⟩
    · exact ⟨a, List.mem_cons_of_mem _ ha, b, List.mem_cons_of_mem _ hb, h⟩

/-- The ids on one side only, when both lists begin with one id that comes
back in neither. -/
theorem mem_cons_and_notMem_cons_iff {id shared : String}
    {left right : List String} (hshared : shared ∉ left) :
    (id ∈ shared :: left ∧ id ∉ shared :: right) ↔
      (id ∈ left ∧ id ∉ right) := by
  rw [List.mem_cons, List.mem_cons, not_or]
  constructor
  · rintro ⟨rfl | hleft, hne, hright⟩
    · exact absurd rfl hne
    · exact ⟨hleft, hright⟩
  · rintro ⟨hleft, hright⟩
    refine ⟨.inr hleft, ?_, hright⟩
    rintro rfl
    exact hshared hleft

/-- The turn of the loop where both sides show one id. -/
theorem isDelta_of_same {old new : AdvisoryRevision}
    {previous current : List AdvisoryRevision} {delta : PurlAdvisoryDelta}
    (hprevious : SortedById (old :: previous))
    (hcurrent : SortedById (new :: current))
    (hid : old.advisoryId = new.advisoryId)
    (hrest : IsDelta previous current delta) :
    IsDelta (old :: previous) (new :: current)
      (if old.modified ≠ new.modified then delta.pushModified new.advisoryId
        else delta) := by
  have hold := (List.pairwise_cons.mp hprevious).1
  have hnew := (List.pairwise_cons.mp hcurrent).1
  have holdMem : new.advisoryId ∉ advisoryIds previous :=
    sortedById_notMem_of_lt fun revision h => hid ▸ hold revision h
  have hnewMem : new.advisoryId ∉ advisoryIds current :=
    sortedById_notMem_of_lt hnew
  have hpreviousIds : advisoryIds (old :: previous) =
      new.advisoryId :: advisoryIds previous := by
    rw [advisoryIds, List.map_cons, hid]
  have hcurrentIds : advisoryIds (new :: current) =
      new.advisoryId :: advisoryIds current := List.map_cons
  refine ⟨fun id => ?_, fun id => ?_, fun id => ?_⟩
  · rw [hpreviousIds, hcurrentIds, mem_cons_and_notMem_cons_iff hnewMem,
      ← hrest.added]
    split_ifs <;> rfl
  · rw [restamped_cons_iff hid holdMem hnewMem, ← hrest.modified]
    split_ifs with hne
    · simp [PurlAdvisoryDelta.pushModified, hne]
    · simp [hne]
  · rw [hpreviousIds, hcurrentIds, mem_cons_and_notMem_cons_iff holdMem,
      ← hrest.removed]
    split_ifs <;> rfl

/-- The turn where the stored id is the smaller one. -/
theorem isDelta_pushRemoved {old : AdvisoryRevision}
    {previous current : List AdvisoryRevision} {delta : PurlAdvisoryDelta}
    (hcurrent : old.advisoryId ∉ advisoryIds current)
    (hrest : IsDelta previous current delta) :
    IsDelta (old :: previous) current (delta.pushRemoved old.advisoryId) := by
  refine ⟨fun id => ?_, fun id => ?_, fun id => ?_⟩
  · by_cases h : id = old.advisoryId
    · subst h
      have hnot : old.advisoryId ∉ delta.addedAdvisoryIds := fun h =>
        hcurrent ((hrest.added _).mp h).1
      simp [PurlAdvisoryDelta.pushRemoved, hnot]
    · simpa [PurlAdvisoryDelta.pushRemoved, h] using hrest.added id
  · refine (hrest.modified id).trans ⟨?_, ?_⟩
    · rintro ⟨a, ha, h⟩
      exact ⟨a, List.mem_cons_of_mem _ ha, h⟩
    · rintro ⟨a, ha, b, hb, haid, hbid, hne⟩
      rcases List.mem_cons.mp ha with rfl | ha
      · exact absurd ((haid.trans hbid.symm) ▸ List.mem_map_of_mem hb) hcurrent
      · exact ⟨a, ha, b, hb, haid, hbid, hne⟩
  · by_cases h : id = old.advisoryId
    · subst h
      simpa [PurlAdvisoryDelta.pushRemoved] using hcurrent
    · simpa [PurlAdvisoryDelta.pushRemoved, h] using hrest.removed id

/-- The turn where the observed id is the smaller one. -/
theorem isDelta_pushAdded {new : AdvisoryRevision}
    {previous current : List AdvisoryRevision} {delta : PurlAdvisoryDelta}
    (hprevious : new.advisoryId ∉ advisoryIds previous)
    (hrest : IsDelta previous current delta) :
    IsDelta previous (new :: current) (delta.pushAdded new.advisoryId) := by
  refine ⟨fun id => ?_, fun id => ?_, fun id => ?_⟩
  · by_cases h : id = new.advisoryId
    · subst h
      simpa [PurlAdvisoryDelta.pushAdded] using hprevious
    · simpa [PurlAdvisoryDelta.pushAdded, h] using hrest.added id
  · refine (hrest.modified id).trans ⟨?_, ?_⟩
    · rintro ⟨a, ha, b, hb, h⟩
      exact ⟨a, ha, b, List.mem_cons_of_mem _ hb, h⟩
    · rintro ⟨a, ha, b, hb, haid, hbid, hne⟩
      rcases List.mem_cons.mp hb with rfl | hb
      · exact absurd ((hbid.trans haid.symm) ▸ List.mem_map_of_mem ha) hprevious
      · exact ⟨a, ha, b, hb, haid, hbid, hne⟩
  · by_cases h : id = new.advisoryId
    · subst h
      have hnot : new.advisoryId ∉ delta.removedAdvisoryIds := fun h =>
        hprevious ((hrest.removed _).mp h).1
      simp [PurlAdvisoryDelta.pushAdded, hnot]
    · simpa [PurlAdvisoryDelta.pushAdded, h] using hrest.removed id

theorem diffHead_isDelta {old : AdvisoryRevision}
    {previous : List AdvisoryRevision}
    {rest : List AdvisoryRevision → PurlAdvisoryDelta}
    (hprevious : SortedById (old :: previous))
    (hrest : ∀ current, SortedById current →
      IsDelta previous current (rest current))
    {current : List AdvisoryRevision} (hcurrent : SortedById current) :
    IsDelta (old :: previous) current (diffHead old rest current) := by
  induction current with
  | nil => exact isDelta_pushRemoved (by simp) (hrest [] hcurrent)
  | cons new current ih =>
    have htail := (List.pairwise_cons.mp hcurrent).2
    unfold diffHead
    by_cases hid : old.advisoryId = new.advisoryId
    · rw [if_pos hid]
      exact isDelta_of_same hprevious hcurrent hid (hrest current htail)
    rw [if_neg hid]
    by_cases hlt : old.advisoryId < new.advisoryId
    · rw [if_pos hlt]
      refine isDelta_pushRemoved ?_ (hrest _ hcurrent)
      refine sortedById_notMem_of_lt fun revision hrevision => ?_
      rcases List.mem_cons.mp hrevision with rfl | h
      · exact hlt
      · exact hlt.trans ((List.pairwise_cons.mp hcurrent).1 revision h)
    · rw [if_neg hlt]
      have hgt : new.advisoryId < old.advisoryId :=
        lt_of_le_of_ne (not_lt.mp hlt) (Ne.symm hid)
      refine isDelta_pushAdded ?_ (ih htail)
      refine sortedById_notMem_of_lt fun revision hrevision => ?_
      rcases List.mem_cons.mp hrevision with rfl | h
      · exact hgt
      · exact hgt.trans ((List.pairwise_cons.mp hprevious).1 revision h)

theorem diffAdvisoryRevisions_isDelta (purl : String)
    {previous current : List AdvisoryRevision}
    (hprevious : SortedById previous) (hcurrent : SortedById current) :
    IsDelta previous current
      (diffAdvisoryRevisions purl previous current) := by
  induction previous generalizing current with
  | nil => exact ⟨by simp [diffAdvisoryRevisions],
      by simp [diffAdvisoryRevisions], by simp [diffAdvisoryRevisions]⟩
  | cons old previous ih =>
    exact diffHead_isDelta hprevious
      (fun current h => ih (List.pairwise_cons.mp hprevious).2 h) hcurrent

theorem diffAdvisoryRevisions_purl (purl : String)
    (previous current : List AdvisoryRevision) :
    (diffAdvisoryRevisions purl previous current).purl = purl := by
  induction previous generalizing current with
  | nil => rfl
  | cons old previous ih =>
    change (diffHead old _ current).purl = purl
    induction current with
    | nil => exact ih []
    | cons new current ihCurrent =>
      unfold diffHead
      split_ifs
      · exact ih current
      · exact ih current
      · exact ih (new :: current)
      · exact ihCurrent

theorem SortedById.eq_of_advisoryId_eq {revisions : List AdvisoryRevision}
    (hsorted : SortedById revisions) {left right : AdvisoryRevision}
    (hleft : left ∈ revisions) (hright : right ∈ revisions)
    (hid : left.advisoryId = right.advisoryId) : left = right := by
  induction revisions with
  | nil => simp at hleft
  | cons revision revisions ih =>
    have ⟨hhead, htail⟩ := List.pairwise_cons.mp hsorted
    rcases List.mem_cons.mp hleft with rfl | hl <;>
      rcases List.mem_cons.mp hright with rfl | hr
    · rfl
    · exact absurd (hhead right hr) (by simp [hid])
    · exact absurd (hhead left hl) (by simp [hid])
    · exact ih htail hl hr

theorem SortedById.ext {left right : List AdvisoryRevision}
    (hleft : SortedById left) (hright : SortedById right)
    (hmem : ∀ revision, revision ∈ left ↔ revision ∈ right) : left = right :=
  List.Perm.eq_of_pairwise
    (fun _ _ _ _ hab hba => absurd hba (lt_asymm hab)) hleft hright
    ((List.perm_ext_iff_of_nodup (hleft.imp fun h heq => by simp [heq] at h)
      (hright.imp fun h heq => by simp [heq] at h)).mpr hmem)

/-- Nothing was added and nothing restamped exactly when every observed
revision was already stored. -/
theorem IsDelta.no_gain_iff {previous current : List AdvisoryRevision}
    {delta : PurlAdvisoryDelta} (hdelta : IsDelta previous current delta)
    (hprevious : SortedById previous) :
    (delta.addedAdvisoryIds = [] ∧ delta.modifiedAdvisoryIds = []) ↔
      current ⊆ previous := by
  simp only [List.eq_nil_iff_forall_not_mem]
  constructor
  · rintro ⟨hadded, hmodified⟩ new hnew
    have hid : new.advisoryId ∈ advisoryIds previous := by
      by_contra hnot
      exact hadded _ ((hdelta.added _).mpr ⟨List.mem_map_of_mem hnew, hnot⟩)
    obtain ⟨old, hold, hold_id⟩ := List.mem_map.mp hid
    have hstamp : old.modified = new.modified := by
      by_contra hne
      exact hmodified _ ((hdelta.modified new.advisoryId).mpr
        ⟨old, hold, new, hnew, hold_id, rfl, hne⟩)
    have heq : old = new := by
      cases old
      cases new
      simp_all
    exact heq ▸ hold
  · intro hsubset
    constructor
    · intro id hid
      obtain ⟨hin, hout⟩ := (hdelta.added id).mp hid
      exact hout (List.map_subset _ hsubset hin)
    · intro id hid
      obtain ⟨old, hold, new, hnew, rfl, hnewId, hne⟩ :=
        (hdelta.modified id).mp hid
      exact hne (congrArg AdvisoryRevision.modified
        (hprevious.eq_of_advisoryId_eq hold (hsubset hnew) hnewId.symm))

theorem IsDelta.no_loss_iff {previous current : List AdvisoryRevision}
    {delta : PurlAdvisoryDelta} (hdelta : IsDelta previous current delta) :
    delta.removedAdvisoryIds = [] ↔
      advisoryIds previous ⊆ advisoryIds current := by
  simp only [List.eq_nil_iff_forall_not_mem, hdelta.removed, not_and, not_not]
  rfl

/-- The delta is empty exactly when nothing changed. -/
theorem isUnchanged_diffAdvisoryRevisions_iff (purl : String)
    {previous current : List AdvisoryRevision}
    (hprevious : SortedById previous) (hcurrent : SortedById current) :
    (diffAdvisoryRevisions purl previous current).isUnchanged = true ↔
      previous = current := by
  have hdelta := diffAdvisoryRevisions_isDelta purl hprevious hcurrent
  rw [PurlAdvisoryDelta.isUnchanged_iff, ← and_assoc,
    hdelta.no_gain_iff hprevious, hdelta.no_loss_iff]
  constructor
  · rintro ⟨hgain, hloss⟩
    have hsubset : previous ⊆ current := by
      intro old hold
      obtain ⟨new, hnew, hid⟩ :=
        List.mem_map.mp (hloss (List.mem_map_of_mem hold))
      exact hprevious.eq_of_advisoryId_eq (hgain hnew) hold hid ▸ hnew
    exact hprevious.ext hcurrent
      fun revision => ⟨fun h => hsubset h, fun h => hgain h⟩
  · rintro rfl
    exact ⟨fun _ h => h, fun _ h => h⟩

/-- Each list keeps the order of the side it is read off. -/
structure KeepsOrder (previous current : List AdvisoryRevision)
    (delta : PurlAdvisoryDelta) : Prop where
  added : delta.addedAdvisoryIds.Sublist (advisoryIds current)
  modified : delta.modifiedAdvisoryIds.Sublist (advisoryIds current)
  removed : delta.removedAdvisoryIds.Sublist (advisoryIds previous)

theorem diffHead_keepsOrder {old : AdvisoryRevision}
    {previous : List AdvisoryRevision}
    {rest : List AdvisoryRevision → PurlAdvisoryDelta}
    (hrest : ∀ current, KeepsOrder previous current (rest current))
    (current : List AdvisoryRevision) :
    KeepsOrder (old :: previous) current (diffHead old rest current) := by
  induction current with
  | nil =>
    obtain ⟨hadded, hmodified, hremoved⟩ := hrest []
    exact ⟨hadded, hmodified, hremoved.cons_cons _⟩
  | cons new current ih =>
    obtain ⟨hadded, hmodified, hremoved⟩ := hrest current
    unfold diffHead
    split_ifs
    · exact ⟨hadded.cons _, hmodified.cons_cons _, hremoved.cons _⟩
    · exact ⟨hadded.cons _, hmodified.cons _, hremoved.cons _⟩
    · obtain ⟨hadded, hmodified, hremoved⟩ := hrest (new :: current)
      exact ⟨hadded, hmodified, hremoved.cons_cons _⟩
    · exact ⟨ih.added.cons_cons _, ih.modified.cons _, ih.removed⟩

theorem diffAdvisoryRevisions_keepsOrder (purl : String)
    (previous current : List AdvisoryRevision) :
    KeepsOrder previous current
      (diffAdvisoryRevisions purl previous current) := by
  induction previous generalizing current with
  | nil =>
    exact ⟨List.Sublist.refl _, List.nil_sublist _, List.nil_sublist _⟩
  | cons old previous ih => exact diffHead_keepsOrder ih current

theorem SortedById.advisoryIds {revisions : List AdvisoryRevision}
    (hsorted : SortedById revisions) :
    (advisoryIds revisions).Pairwise (· < ·) :=
  List.pairwise_map.mpr hsorted

/-- The difference of two lists of revisions: which ids, in which order, and
that no id is listed twice. -/
structure IsExactDelta (previous current : List AdvisoryRevision)
    (delta : PurlAdvisoryDelta) : Prop extends
    IsDelta previous current delta where
  sorted_added : delta.addedAdvisoryIds.Pairwise (· < ·)
  sorted_modified : delta.modifiedAdvisoryIds.Pairwise (· < ·)
  sorted_removed : delta.removedAdvisoryIds.Pairwise (· < ·)
  disjoint_added_modified :
    delta.addedAdvisoryIds.Disjoint delta.modifiedAdvisoryIds
  disjoint_added_removed :
    delta.addedAdvisoryIds.Disjoint delta.removedAdvisoryIds
  disjoint_modified_removed :
    delta.modifiedAdvisoryIds.Disjoint delta.removedAdvisoryIds
  isUnchanged_iff : delta.isUnchanged = true ↔ previous = current

/-- The merge of two sorted lists is their difference. -/
theorem diffAdvisoryRevisions_exact (purl : String)
    {previous current : List AdvisoryRevision}
    (hprevious : SortedById previous) (hcurrent : SortedById current) :
    IsExactDelta previous current
      (diffAdvisoryRevisions purl previous current) := by
  have hdelta := diffAdvisoryRevisions_isDelta purl hprevious hcurrent
  have horder := diffAdvisoryRevisions_keepsOrder purl previous current
  have hids := SortedById.advisoryIds hcurrent
  refine ⟨hdelta, hids.sublist horder.added, hids.sublist horder.modified,
    (SortedById.advisoryIds hprevious).sublist horder.removed, ?_, ?_, ?_,
    isUnchanged_diffAdvisoryRevisions_iff purl hprevious hcurrent⟩
  · intro id hadded hmodified
    obtain ⟨old, hold, new, -, rfl, -, -⟩ := (hdelta.modified id).mp hmodified
    exact ((hdelta.added _).mp hadded).2 (List.mem_map_of_mem hold)
  · intro id hadded hremoved
    exact ((hdelta.removed id).mp hremoved).2 ((hdelta.added id).mp hadded).1
  · intro id hmodified hremoved
    obtain ⟨old, -, new, hnew, -, rfl, -⟩ := (hdelta.modified id).mp hmodified
    exact ((hdelta.removed _).mp hremoved).2 (List.mem_map_of_mem hnew)

theorem diffAdvisoryRevisions_exact_refresh :
    IsExactDelta [⟨"A", "1"⟩, ⟨"B", "1"⟩] [⟨"B", "2"⟩, ⟨"D", "1"⟩]
      (diffAdvisoryRevisions "pkg:npm/a@1"
        [⟨"A", "1"⟩, ⟨"B", "1"⟩] [⟨"B", "2"⟩, ⟨"D", "1"⟩]) :=
  diffAdvisoryRevisions_exact "pkg:npm/a@1" (by decide) (by decide)

namespace PurlAdvisoryDelta

def reversed (delta : PurlAdvisoryDelta) : PurlAdvisoryDelta :=
  { delta with
    addedAdvisoryIds := delta.removedAdvisoryIds
    removedAdvisoryIds := delta.addedAdvisoryIds }

end PurlAdvisoryDelta

/-- Looking back says the reverse, whatever the two lists are. -/
theorem diffAdvisoryRevisions_swap (purl : String)
    (previous current : List AdvisoryRevision) :
    diffAdvisoryRevisions purl current previous =
      (diffAdvisoryRevisions purl previous current).reversed := by
  induction previous generalizing current with
  | nil =>
    induction current with
    | nil => rfl
    | cons new current ih => exact congrArg (·.pushRemoved new.advisoryId) ih
  | cons old previous ih =>
    induction current with
    | nil => exact congrArg (·.pushAdded old.advisoryId) (ih [])
    | cons new current ihCurrent =>
      change diffHead new _ _ = (diffHead old _ _).reversed
      rw [diffHead, diffHead]
      rcases lt_trichotomy old.advisoryId new.advisoryId with hlt | heq | hgt
      · rw [if_neg hlt.ne', if_neg hlt.not_gt, if_neg hlt.ne, if_pos hlt]
        exact congrArg (·.pushAdded old.advisoryId) (ih (new :: current))
      · rw [if_pos heq.symm, if_pos heq, heq, ih current]
        simp only [ne_comm]
        split_ifs <;> rfl
      · rw [if_neg hgt.ne, if_pos hgt, if_neg hgt.ne', if_neg hgt.not_gt]
        exact congrArg (·.pushRemoved new.advisoryId) ihCurrent

end Bomwerk.Vuln
