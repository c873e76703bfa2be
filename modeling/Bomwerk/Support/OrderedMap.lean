import Std.Data.ExtTreeMap
import Std.Data.ExtTreeSet
import Mathlib.Order.Compare
import Mathlib.Data.String.Basic

/-!
# Ordered maps and sets

`std::map` and `std::set` are Std's extensional ordered trees.  This module
adds what an iteration over one relies on: its keys come in strictly
increasing order.
-/

namespace Bomwerk.Support

open Std hiding compare_eq_iff_eq

abbrev OrderedMap (κ : Type*) [Ord κ] (α : Type*) := ExtTreeMap κ α

abbrev OrderedSet (κ : Type*) [Ord κ] := ExtTreeSet κ

variable {κ α : Type*} [LinearOrder κ] [TransOrd κ]

theorem pairwise_lt_toList (map : OrderedMap κ α) :
    map.toList.Pairwise fun a b => a.1 < b.1 := by
  have h : map.toList.Pairwise fun a b => compare a.1 b.1 = .lt :=
    ExtTreeMap.ordered_keys_toList
  exact h.imp fun hlt => compare_lt_iff_lt.mp hlt

theorem mem_toList_iff [LawfulEqOrd κ] {map : OrderedMap κ α} {k : κ} {v : α} :
    (k, v) ∈ map.toList ↔ map[k]? = some v :=
  ExtTreeMap.mem_toList_iff_getElem?_eq_some

omit [TransOrd κ] in
/-- Lists in strictly increasing order of their keys are equal when they have
the same members. -/
theorem eq_of_pairwise_lt_fst {left right : List (κ × α)}
    (hleft : left.Pairwise fun a b => a.1 < b.1)
    (hright : right.Pairwise fun a b => a.1 < b.1)
    (hmem : ∀ k v, (k, v) ∈ left ↔ (k, v) ∈ right) : left = right := by
  have hnodup : ∀ {pairs : List (κ × α)},
      (pairs.Pairwise fun a b => a.1 < b.1) → pairs.Nodup := fun h =>
    h.imp fun hlt heq => (heq ▸ hlt).false
  apply List.Perm.eq_of_pairwise
    (fun _ _ _ _ hab hba => absurd hba (lt_asymm hab)) hleft hright
  apply (List.perm_ext_iff_of_nodup (hnodup hleft) (hnodup hright)).mpr
  rintro ⟨k, v⟩
  exact hmem k v

theorem toList_eq_of_pairwise_lt [LawfulEqOrd κ] {map : OrderedMap κ α}
    {pairs : List (κ × α)} (hsorted : pairs.Pairwise fun a b => a.1 < b.1)
    (hmem : ∀ k v, (k, v) ∈ pairs ↔ map[k]? = some v) :
    map.toList = pairs := by
  apply eq_of_pairwise_lt_fst (pairwise_lt_toList map) hsorted
  intro k v
  rw [mem_toList_iff, hmem]

/-- The entries under an image of their values. -/
def keyedImages {γ : Type*} (map : OrderedMap κ α) (f : κ → α → γ) :
    List (κ × γ) :=
  map.toList.map fun entry => (entry.1, f entry.1 entry.2)

theorem pairwise_lt_keyedImages {γ : Type*} (map : OrderedMap κ α)
    (f : κ → α → γ) :
    (keyedImages map f).Pairwise fun a b => a.1 < b.1 :=
  List.pairwise_map.mpr (pairwise_lt_toList map)

theorem mem_keyedImages_iff [LawfulEqOrd κ] {γ : Type*}
    {map : OrderedMap κ α} {f : κ → α → γ} {k : κ} {image : γ} :
    (k, image) ∈ keyedImages map f ↔ map[k]?.map (f k) = some image := by
  simp only [keyedImages, List.mem_map, Option.map_eq_some_iff, Prod.mk.injEq]
  constructor
  · rintro ⟨⟨_, value⟩, hmem, rfl, himage⟩
    exact ⟨value, mem_toList_iff.mp hmem, himage⟩
  · rintro ⟨value, hvalue, himage⟩
    exact ⟨(k, value), mem_toList_iff.mpr hvalue, rfl, himage⟩

theorem getElem?_insert_eq [LawfulEqOrd κ] (map : OrderedMap κ α) (k a : κ)
    (v : α) : (map.insert k v)[a]? = if a = k then some v else map[a]? := by
  rw [ExtTreeMap.getElem?_insert]
  exact if_congr (compare_eq_iff_eq.trans eq_comm) rfl rfl

theorem getElem?_erase_eq [LawfulEqOrd κ] (map : OrderedMap κ α) (k a : κ) :
    (map.erase k)[a]? = if a = k then none else map[a]? := by
  rw [ExtTreeMap.getElem?_erase]
  exact if_congr (compare_eq_iff_eq.trans eq_comm) rfl rfl

theorem nodup_toList_orderedSet [LawfulEqOrd κ] (set : OrderedSet κ) :
    set.toList.Nodup := by
  have h : set.toList.Pairwise fun a b => compare a b = .lt :=
    ExtTreeSet.ordered_toList
  exact h.imp fun hlt => (compare_lt_iff_lt.mp hlt).ne

theorem insert_comm_orderedSet [LawfulEqOrd κ] (set : OrderedSet κ) (a b : κ) :
    (set.insert a).insert b = (set.insert b).insert a := by
  apply ExtTreeSet.ext_mem
  intro c
  simp only [ExtTreeSet.mem_insert]
  tauto

/-- `map[k]` assigned from what it held. -/
def updateAt (map : OrderedMap κ α) (k : κ) (f : Option α → α) :
    OrderedMap κ α :=
  map.insert k (f map[k]?)

section Update

variable [LawfulEqOrd κ]

theorem getElem?_updateAt (map : OrderedMap κ α) (k a : κ)
    (f : Option α → α) :
    (updateAt map k f)[a]? = if a = k then some (f map[k]?) else map[a]? :=
  getElem?_insert_eq map k a _

theorem updateAt_comm (map : OrderedMap κ α) {k l : κ} {f g : Option α → α}
    (hcomm : k = l → ∀ value, g (some (f value)) = f (some (g value))) :
    updateAt (updateAt map k f) l g = updateAt (updateAt map l g) k f := by
  apply ExtTreeMap.ext_getElem?
  intro a
  simp only [getElem?_updateAt]
  by_cases hk : a = k <;> by_cases hl : a = l
  · subst hk
    subst hl
    simp [hcomm rfl]
  · simp [hk, show k ≠ l from fun h => hl (hk.trans h)]
  · simp [hl, show l ≠ k from fun h => hk (hl.trans h)]
  · simp [hk, hl]

/-- A loop of updates over distinct keys. -/
theorem foldl_updateAt_getElem? {β : Type*} (pairs : List (κ × β))
    (hnodup : (pairs.map Prod.fst).Nodup) (f : κ → β → Option α → α)
    (map : OrderedMap κ α) (a : κ) :
    (pairs.foldl
        (fun map pair => updateAt map pair.1 (f pair.1 pair.2)) map)[a]? =
      match pairs.lookup a with
      | some value => some (f a value map[a]?)
      | none => map[a]? := by
  induction pairs generalizing map with
  | nil => rfl
  | cons pair pairs ih =>
    obtain ⟨k, value⟩ := pair
    rw [List.map_cons, List.nodup_cons] at hnodup
    rw [List.foldl_cons, ih hnodup.2, getElem?_updateAt]
    by_cases ha : a = k
    · subst ha
      have hnone : pairs.lookup a = none := by
        rw [List.lookup_eq_none_iff]
        intro other hother
        have hmem : other.1 ∈ pairs.map Prod.fst :=
          List.mem_map_of_mem hother
        have hne : a ≠ other.1 := fun h => hnodup.1 (h ▸ hmem)
        simpa using hne
      simp [hnone]
    · simp [List.lookup_cons, ha, beq_eq_false_iff_ne.mpr ha]

theorem foldl_updateAt_filter {β : Type*} (key : β → κ)
    (f : β → Option α → α) (items : List β) (map : OrderedMap κ α) (k : κ) :
    (items.foldl (fun map item => updateAt map (key item) (f item)) map)[k]? =
      (items.filter (key · = k)).foldl
        (fun value item => some (f item value)) map[k]? := by
  induction items generalizing map with
  | nil => rfl
  | cons item items ih =>
    rw [List.foldl_cons, ih, getElem?_updateAt]
    by_cases hkey : k = key item
    · subst hkey
      simp
    · simp [hkey, Ne.symm hkey]

end Update

/-! ## Maps of some keys -/

/-- The map a loop over `keys` fills, when the turn for a key inserts at most
one value and nothing else reads the map. -/
def collect (keys : List κ) (f : κ → Option α) : OrderedMap κ α :=
  keys.foldl
    (fun map key =>
      match f key with
      | some value => map.insert key value
      | none => map) ∅

/-- The map after a loop that inserts every pair. -/
def insertAll (map : OrderedMap κ α) (pairs : List (κ × α)) :
    OrderedMap κ α :=
  pairs.foldl (fun map (key, value) => map.insert key value) map

section Lookup

variable [LawfulEqOrd κ]

theorem collect_getElem? (keys : List κ) (f : κ → Option α) (k : κ) :
    (collect keys f)[k]? = if k ∈ keys then f k else none := by
  have hfold : ∀ map : OrderedMap κ α, (keys.foldl
        (fun map key =>
          match f key with
          | some value => map.insert key value
          | none => map) map)[k]? =
        if k ∈ keys ∧ (f k).isSome then f k else map[k]? := by
    induction keys with
    | nil => simp
    | cons key keys ih =>
      intro map
      rw [List.foldl_cons, ih]
      cases hf : f key with
      | none =>
        by_cases h : k = key
        · subst h
          simp [hf]
        · simp [h]
      | some value =>
        by_cases h : k = key
        · subst h
          by_cases hmem : k ∈ keys <;>
            simp [hf, hmem]
        · simp [h, getElem?_insert_eq]
  rw [collect, hfold]
  by_cases hmem : k ∈ keys <;> cases hf : f k <;> simp [hmem]

theorem insertAll_getElem?_of_notMem {pairs : List (κ × α)} {k : κ}
    (hk : k ∉ pairs.map Prod.fst) (map : OrderedMap κ α) :
    (insertAll map pairs)[k]? = map[k]? := by
  induction pairs generalizing map with
  | nil => rfl
  | cons pair pairs ih =>
    simp only [List.map_cons, List.mem_cons, not_or] at hk
    change (insertAll (map.insert pair.1 pair.2) pairs)[k]? = _
    rw [ih hk.2, getElem?_insert_eq, if_neg hk.1]

theorem insertAll_getElem?_of_mem {pairs : List (κ × α)}
    (hnodup : (pairs.map Prod.fst).Nodup) {k : κ} {v : α}
    (hmem : (k, v) ∈ pairs) (map : OrderedMap κ α) :
    (insertAll map pairs)[k]? = some v := by
  induction pairs generalizing map with
  | nil => simp at hmem
  | cons pair pairs ih =>
    rw [List.map_cons, List.nodup_cons] at hnodup
    change (insertAll (map.insert pair.1 pair.2) pairs)[k]? = _
    rcases List.mem_cons.mp hmem with rfl | hmem
    · rw [insertAll_getElem?_of_notMem hnodup.1, getElem?_insert_eq, if_pos rfl]
    · exact ih hnodup.2 hmem _

end Lookup

theorem nodup_keys_toList (map : OrderedMap κ α) :
    (map.toList.map Prod.fst).Nodup := by
  rw [List.nodup_iff_pairwise_ne, List.pairwise_map]
  exact (pairwise_lt_toList map).imp fun h => h.ne

theorem mem_keys_toList_iff [LawfulEqOrd κ] {map : OrderedMap κ α} {k : κ} :
    k ∈ map.toList.map Prod.fst ↔ map[k]?.isSome = true := by
  rw [List.mem_map, Option.isSome_iff_exists]
  constructor
  · rintro ⟨⟨k, v⟩, hmem, rfl⟩
    exact ⟨v, mem_toList_iff.mp hmem⟩
  · rintro ⟨v, hv⟩
    exact ⟨(k, v), mem_toList_iff.mpr hv, rfl⟩

theorem lookup_toList [LawfulEqOrd κ] (map : OrderedMap κ α) (k : κ) :
    map.toList.lookup k = map[k]? := by
  cases hget : map[k]? with
  | some v =>
    obtain ⟨front, back, hsplit⟩ := List.append_of_mem
      (mem_toList_iff.mpr hget)
    refine List.lookup_eq_some_iff.mpr ⟨front, back, hsplit, ?_⟩
    intro entry hentry
    have hsorted := pairwise_lt_toList map
    rw [hsplit, List.pairwise_append] at hsorted
    have hlt := hsorted.2.2 entry hentry (k, v) (by simp)
    simpa using hlt.ne'
  | none =>
    rw [List.lookup_eq_none_iff]
    intro entry hentry
    have hne : k ≠ entry.1 := by
      rintro rfl
      have hsome := mem_toList_iff.mp hentry
      simp [hget] at hsome
    simpa using hne

theorem map_toList_congr [LawfulEqOrd κ] {β γ : Type*}
    {left : OrderedMap κ α} {right : OrderedMap κ β} {f : κ → α → γ}
    {g : κ → β → γ}
    (himages : ∀ k, left[k]?.map (f k) = right[k]?.map (g k)) :
    left.toList.map (fun entry => f entry.1 entry.2) =
      right.toList.map fun entry => g entry.1 entry.2 := by
  have hkeyed : keyedImages left f = keyedImages right g := by
    apply eq_of_pairwise_lt_fst (pairwise_lt_keyedImages left f)
      (pairwise_lt_keyedImages right g)
    intro k image
    rw [mem_keyedImages_iff, mem_keyedImages_iff, himages]
  have hsnd := congrArg (List.map Prod.snd) hkeyed
  rw [keyedImages, keyedImages, List.map_map, List.map_map] at hsnd
  exact hsnd

theorem foldl_updateAt_toList {β : Type*} [LawfulEqOrd κ]
    (entries : OrderedMap κ β) (f : κ → β → Option α → α)
    (map : OrderedMap κ α) (a : κ) :
    (entries.toList.foldl
        (fun map entry => updateAt map entry.1 (f entry.1 entry.2)) map)[a]? =
      match entries[a]? with
      | some value => some (f a value map[a]?)
      | none => map[a]? := by
  rw [foldl_updateAt_getElem? _ (nodup_keys_toList entries), lookup_toList]

end Bomwerk.Support
