import Bomwerk.Support.SortUnique

/-!
# When dropping neighbours leaves every key once

`std::unique` compares neighbours only.  The keys that stay are distinct exactly
when no key returns behind another one, and in a sorted list that is a fact
about the elements and not about the places they stand at.
-/

namespace Bomwerk.Support

variable {α κ : Type*}

/-- No key returns after a different one. -/
def IsContiguous (keys : List κ) : Prop :=
  ∀ k other, [k, other, k].Sublist keys → other = k

theorem isContiguous_cons_self_iff {k : κ} {keys : List κ} :
    IsContiguous (k :: k :: keys) ↔ IsContiguous (k :: keys) := by
  constructor
  · intro h k' other hsub
    exact h k' other (hsub.cons k)
  · intro h k' other hsub
    rcases List.sublist_cons_iff.mp hsub with hsub | ⟨rest, heq, hsub⟩
    · exact h k' other hsub
    obtain ⟨rfl, rfl⟩ := List.cons_eq_cons.mp heq
    rcases List.sublist_cons_iff.mp hsub with hsub | ⟨rest, heq, -⟩
    · exact h k' other (hsub.cons_cons k')
    · exact (List.cons_eq_cons.mp heq).1

theorem isContiguous_cons_cons_iff {k next : κ} {keys : List κ}
    (hne : k ≠ next) :
    IsContiguous (k :: next :: keys) ↔
      k ∉ next :: keys ∧ IsContiguous (next :: keys) := by
  constructor
  · intro h
    refine ⟨?_, fun k' other hsub => h k' other (hsub.cons k)⟩
    intro hmem
    have hreturns : k ∈ keys := (List.mem_cons.mp hmem).resolve_left hne
    have hsub : [k, next, k].Sublist (k :: next :: keys) :=
      ((List.singleton_sublist.mpr hreturns).cons_cons next).cons_cons k
    exact hne (h k next hsub).symm
  · rintro ⟨hnotMem, h⟩ k' other hsub
    rcases List.sublist_cons_iff.mp hsub with hsub | ⟨rest, heq, hsub⟩
    · exact h k' other hsub
    obtain ⟨rfl, rfl⟩ := List.cons_eq_cons.mp heq
    exact absurd (hsub.subset (by simp)) hnotMem

section Unique

variable [DecidableEq κ]

theorem mem_destutter'_iff {k k' : κ} {keys : List κ} :
    k' ∈ keys.destutter' (· ≠ ·) k ↔ k' ∈ k :: keys := by
  constructor
  · exact fun h => (List.destutter'_sublist keys _ k).subset h
  · intro h
    have hsome : ∃ same ∈ keys.destutter' (fun a b => id a ≠ id b) k,
        id same = id k' := exists_mem_destutter' keys k k' h
    obtain ⟨same, hmem, rfl⟩ := hsome
    exact hmem

theorem nodup_destutter'_iff (keys : List κ) (k : κ) :
    (keys.destutter' (· ≠ ·) k).Nodup ↔ IsContiguous (k :: keys) := by
  induction keys generalizing k with
  | nil =>
    refine iff_of_true (by simp) ?_
    intro k' other hsub
    exact absurd hsub.length_le (by simp)
  | cons next keys ih =>
    by_cases heq : k = next
    · subst heq
      rw [List.destutter'_cons_neg _ (by simp), ih k,
        isContiguous_cons_self_iff]
    · rw [List.destutter'_cons_pos _ heq, List.nodup_cons,
        mem_destutter'_iff, ih next, isContiguous_cons_cons_iff heq]

theorem nodup_destutter_iff (keys : List κ) :
    (keys.destutter (· ≠ ·)).Nodup ↔ IsContiguous keys := by
  cases keys with
  | nil =>
    refine iff_of_true (by simp) ?_
    intro k' other hsub
    exact absurd hsub.length_le (by simp)
  | cons k keys => exact nodup_destutter'_iff keys k

theorem nodup_map_key_uniqueBy_iff {key : α → κ} (xs : List α) :
    ((uniqueBy key xs).map key).Nodup ↔ IsContiguous (xs.map key) := by
  have hmap : (uniqueBy key xs).map key = (xs.map key).destutter (· ≠ ·) :=
    List.map_destutter fun _ _ _ _ => Iff.rfl
  rw [hmap, nodup_destutter_iff]

end Unique

section Sorted

variable {le : α → α → Prop}

/-- In a sorted list, elements that stand strictly in order stand in it in that
order. -/
theorem sublist_of_subset_of_pairwise {xs ys : List α}
    (hrefl : ∀ x, le x x) (hys : ys.Pairwise le)
    (hxs : xs.Pairwise fun left right => ¬ le right left)
    (hsub : xs ⊆ ys) : xs.Sublist ys := by
  induction ys generalizing xs with
  | nil =>
    rw [List.subset_nil.mp hsub]
  | cons y ys ih =>
    obtain ⟨hfirst, htail⟩ := List.pairwise_cons.mp hys
    -- The head of `ys` is below everything, so it is no later element.
    have hlater : ∀ {x : α} {rest : List α}, x ∈ y :: ys →
        (∀ z ∈ rest, ¬ le z x) → rest ⊆ y :: ys → rest ⊆ ys := by
      intro x rest hx hrest hsub z hz
      rcases List.mem_cons.mp (hsub hz) with rfl | hmem
      · rcases List.mem_cons.mp hx with rfl | hx
        · exact absurd (hrefl x) (hrest x hz)
        · exact absurd (hfirst x hx) (hrest z hz)
      · exact hmem
    cases xs with
    | nil => exact List.nil_sublist _
    | cons x xs =>
      obtain ⟨hx, hrest⟩ := List.pairwise_cons.mp hxs
      obtain ⟨hmem, hsubRest⟩ := List.cons_subset.mp hsub
      have htailSub : xs ⊆ ys := hlater hmem hx hsubRest
      rcases List.mem_cons.mp hmem with rfl | hmem
      · exact (ih htail hrest htailSub).cons_cons x
      · exact (ih htail hxs (List.cons_subset.mpr ⟨hmem, htailSub⟩)).cons y

variable [DecidableEq κ] {key : α → κ} [DecidableRel le] [Std.Total le]
  [IsTrans α le]

/-- Sorting and dropping neighbours leaves each key once exactly when no
element of another key lies between two of one key. -/
theorem nodup_map_key_sortUnique_iff
    (hties : ∀ x y, le x y → le y x → key x = key y) (xs : List α) :
    ((sortUnique le key xs).map key).Nodup ↔
      ∀ x ∈ xs, ∀ y ∈ xs, ∀ between ∈ xs, key x = key y →
        ¬ le between x → ¬ le y between → key between = key x := by
  rw [sortUnique, nodup_map_key_uniqueBy_iff]
  have hsorted := List.pairwise_insertionSort le xs
  have hmem : ∀ {x : α}, x ∈ xs.insertionSort le ↔ x ∈ xs :=
    List.mem_insertionSort le
  constructor
  · intro h x hx y hy between hbetween hkey hafter hbefore
    have hrefl : ∀ x, le x x := fun x => (Std.Total.total x x).elim id id
    have hyx : ¬ le y x := fun hyx =>
      hbefore (IsTrans.trans y x between hyx
        ((Std.Total.total x between).resolve_right hafter))
    have hsub : [x, between, y].Sublist (xs.insertionSort le) := by
      apply sublist_of_subset_of_pairwise hrefl hsorted
      · simp [hafter, hbefore, hyx]
      · simp [hmem, hx, hy, hbetween]
    have hkeys := hsub.map key
    rw [List.map_cons, List.map_cons, List.map_cons, ← hkey] at hkeys
    exact h (key x) (key between) hkeys
  · intro h k other hsub
    obtain ⟨elements, helements, hkeys⟩ := List.sublist_map_iff.mp hsub
    obtain ⟨x, rest, rfl, hx, hrest⟩ := List.map_eq_cons_iff.mp hkeys.symm
    obtain ⟨between, rest, rfl, hbetween, hlast⟩ :=
      List.map_eq_cons_iff.mp hrest
    obtain ⟨y, rest, rfl, hy, hnil⟩ := List.map_eq_cons_iff.mp hlast
    obtain rfl := List.map_eq_nil_iff.mp hnil
    have hpairwise := hsorted.sublist helements
    simp only [List.pairwise_cons, List.mem_cons, List.not_mem_nil, or_false,
      forall_eq_or_imp, forall_eq] at hpairwise
    obtain ⟨⟨hxb, -⟩, hby, -⟩ := hpairwise
    have hin : ∀ z ∈ [x, between, y], z ∈ xs := fun z hz =>
      hmem.mp (helements.subset hz)
    by_contra hne
    have hdifferent : key between ≠ key x := by
      rw [hx, hbetween]
      exact hne
    refine hdifferent (h x (hin x (by simp)) y (hin y (by simp)) between
      (hin between (by simp)) (hx.trans hy.symm) ?_ ?_)
    · exact fun hbx => hdifferent (hties _ _ hbx hxb)
    · intro hyb
      exact hdifferent ((hties _ _ hby hyb).trans (hy.trans hx.symm))

end Sorted
end Bomwerk.Support
