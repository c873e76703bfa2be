import Mathlib.Data.List.Destutter
import Mathlib.Data.List.Sort
import Mathlib.Data.List.TakeWhile
import Mathlib.Order.Basic

/-!
# Tables sorted by a key

`std::lower_bound` on a table in increasing order of distinct keys: it finds
the entry of a key when the table has one.
-/

namespace Bomwerk.Support

variable {α κ : Type*} [LinearOrder κ] {key : α → κ}

/-- The first entry that is not below the key. -/
def lowerBound (key : α → κ) (table : List α) (k : κ) : Option α :=
  (table.dropWhile fun entry => key entry < k).head?

theorem mem_of_lowerBound {table : List α} {k : κ} {entry : α}
    (h : lowerBound key table k = some entry) : entry ∈ table :=
  (List.dropWhile_sublist _).subset (List.mem_of_head? h)

theorem lowerBound_of_mem {table : List α}
    (hsorted : table.Pairwise fun left right => key left < key right)
    {entry : α} (hentry : entry ∈ table) :
    lowerBound key table (key entry) = some entry := by
  induction table with
  | nil => simp at hentry
  | cons first table ih =>
    obtain ⟨hfirst, hrest⟩ := List.pairwise_cons.mp hsorted
    rcases List.mem_cons.mp hentry with rfl | hmem
    · simp [lowerBound]
    · have hlt : key first < key entry := hfirst entry hmem
      rw [lowerBound, List.dropWhile_cons_of_pos (by simpa using hlt)]
      exact ih hrest hmem

end Bomwerk.Support

/-!
## Sorting and dropping neighbours

`std::stable_sort` followed by `std::unique`, over a sort relation and a key.
The sort relation may be finer than the key, which then decides only which of
several elements with one key is kept: the first one in sort order.
-/

namespace Bomwerk.Support

variable {α κ : Type*}

/-- `std::unique` for elements of equal key. -/
def uniqueBy [DecidableEq κ] (key : α → κ) (xs : List α) : List α :=
  xs.destutter (fun a b => key a ≠ key b)

/-- `std::stable_sort` by `le`, then `std::unique` by `key`. -/
def sortUnique [DecidableEq κ] (le : α → α → Prop) [DecidableRel le]
    (key : α → κ) (xs : List α) : List α :=
  uniqueBy key (xs.insertionSort le)

section Unique

variable [DecidableEq κ] {key : α → κ}

theorem uniqueBy_sublist (xs : List α) : (uniqueBy key xs).Sublist xs :=
  List.destutter_sublist _ xs

theorem mem_of_mem_uniqueBy {xs : List α} {x : α}
    (hx : x ∈ uniqueBy key xs) : x ∈ xs :=
  (uniqueBy_sublist xs).subset hx

theorem exists_mem_destutter' (xs : List α) (a : α) :
    ∀ x ∈ a :: xs,
      ∃ y ∈ xs.destutter' (fun a b => key a ≠ key b) a, key y = key x := by
  induction xs generalizing a with
  | nil => simp
  | cons b xs ih =>
    intro x hx
    by_cases hab : key a = key b
    · rw [List.destutter'_cons_neg _ (by simpa using hab)]
      rcases List.mem_cons.mp hx with rfl | hx
      · exact ih x x (by simp)
      · rcases List.mem_cons.mp hx with rfl | hx
        · obtain ⟨y, hy, hkey⟩ := ih a a (by simp)
          exact ⟨y, hy, hkey.trans hab⟩
        · exact ih a x (List.mem_cons_of_mem a hx)
    · rw [List.destutter'_cons_pos _ (by simpa using hab)]
      rcases List.mem_cons.mp hx with rfl | hx
      · exact ⟨x, by simp, rfl⟩
      · obtain ⟨y, hy, hkey⟩ := ih b x hx
        exact ⟨y, List.mem_cons_of_mem a hy, hkey⟩

theorem exists_mem_uniqueBy {xs : List α} {x : α} (hx : x ∈ xs) :
    ∃ y ∈ uniqueBy key xs, key y = key x := by
  cases xs with
  | nil => simp at hx
  | cons a xs => exact exists_mem_destutter' xs a x hx

theorem map_key_mem_uniqueBy_iff {xs : List α} {k : κ} :
    k ∈ (uniqueBy key xs).map key ↔ k ∈ xs.map key := by
  simp only [List.mem_map]
  constructor
  · rintro ⟨x, hx, rfl⟩
    exact ⟨x, mem_of_mem_uniqueBy hx, rfl⟩
  · rintro ⟨x, hx, rfl⟩
    exact exists_mem_uniqueBy hx

theorem uniqueBy_eq_self {xs : List α}
    (hxs : xs.Pairwise fun a b => key a ≠ key b) : uniqueBy key xs = xs :=
  List.destutter_of_isChain _ _ hxs.isChain

end Unique

section Sorted

variable [LinearOrder κ] {key : α → κ} {le : α → α → Prop} [DecidableRel le]

theorem pairwise_lt_destutter' (xs : List α) (a : α)
    (hsorted : (a :: xs).Pairwise fun a b => key a ≤ key b) :
    (xs.destutter' (fun a b => key a ≠ key b) a).Pairwise
      (fun a b => key a < key b) := by
  induction xs generalizing a with
  | nil => simp
  | cons b xs ih =>
    by_cases hab : key a = key b
    · rw [List.destutter'_cons_neg _ (by simpa using hab)]
      exact ih a (hsorted.sublist ((List.sublist_cons_self b xs).cons_cons a))
    · rw [List.destutter'_cons_pos _ (by simpa using hab)]
      have htail := (List.pairwise_cons.mp hsorted).2
      refine List.pairwise_cons.mpr ⟨?_, ih b htail⟩
      intro x hx
      have hmem := (List.destutter'_sublist xs _ b).subset hx
      have hab' : key a < key b :=
        lt_of_le_of_ne ((List.pairwise_cons.mp hsorted).1 b (by simp)) hab
      rcases List.mem_cons.mp hmem with rfl | hmem
      · exact hab'
      · exact hab'.trans_le ((List.pairwise_cons.mp htail).1 x hmem)

theorem pairwise_lt_uniqueBy {xs : List α}
    (hsorted : xs.Pairwise fun a b => key a ≤ key b) :
    (uniqueBy key xs).Pairwise fun a b => key a < key b := by
  cases xs with
  | nil => simp [uniqueBy]
  | cons a xs => exact pairwise_lt_destutter' xs a hsorted

variable [Std.Total le] [IsTrans α le]

theorem pairwise_lt_sortUnique (hle : ∀ a b, le a b → key a ≤ key b)
    (xs : List α) :
    (sortUnique le key xs).Pairwise fun a b => key a < key b :=
  pairwise_lt_uniqueBy
    ((List.pairwise_insertionSort le xs).imp fun h => hle _ _ h)

omit [Std.Total le] [IsTrans α le] in
theorem mem_of_mem_sortUnique {xs : List α} {x : α}
    (hx : x ∈ sortUnique le key xs) : x ∈ xs :=
  (List.mem_insertionSort le).mp (mem_of_mem_uniqueBy hx)

omit [Std.Total le] [IsTrans α le] in
theorem map_key_mem_sortUnique_iff {xs : List α} {k : κ} :
    k ∈ (sortUnique le key xs).map key ↔ k ∈ xs.map key := by
  rw [sortUnique, map_key_mem_uniqueBy_iff]
  simp

omit [Std.Total le] [IsTrans α le] in
theorem sortUnique_eq_self {xs : List α} (hsorted : xs.Pairwise le)
    (hdistinct : xs.Pairwise fun a b => key a ≠ key b) :
    sortUnique le key xs = xs := by
  rw [sortUnique, hsorted.insertionSort_eq, uniqueBy_eq_self hdistinct]

omit [DecidableRel le] [Std.Total le] in
theorem exists_le_mem_destutter' (xs : List α) (a : α)
    (hrefl : ∀ x, le x x) (hsorted : (a :: xs).Pairwise le) :
    ∀ x ∈ a :: xs, ∃ y ∈ xs.destutter' (fun a b => key a ≠ key b) a,
        key y = key x ∧ le y x := by
  induction xs generalizing a with
  | nil => simp [hrefl]
  | cons b xs ih =>
    have htail := (List.pairwise_cons.mp hsorted).2
    have hab : le a b := (List.pairwise_cons.mp hsorted).1 b (by simp)
    intro x hx
    by_cases hkey : key a = key b
    · rw [List.destutter'_cons_neg _ (by simpa using hkey)]
      have ih := ih a
        (hsorted.sublist ((List.sublist_cons_self b xs).cons_cons a))
      rcases List.mem_cons.mp hx with rfl | hx
      · exact ih x (by simp)
      rcases List.mem_cons.mp hx with rfl | hx
      · obtain ⟨y, hy, hya, hle⟩ := ih a (by simp)
        exact ⟨y, hy, hya.trans hkey, IsTrans.trans y a x hle hab⟩
      · exact ih x (List.mem_cons_of_mem a hx)
    · rw [List.destutter'_cons_pos _ (by simpa using hkey)]
      rcases List.mem_cons.mp hx with rfl | hx
      · exact ⟨x, by simp, rfl, hrefl x⟩
      · obtain ⟨y, hy, h⟩ := ih b htail x hx
        exact ⟨y, List.mem_cons_of_mem a hy, h⟩

theorem exists_le_mem_sortUnique {xs : List α} {x : α} (hx : x ∈ xs) :
    ∃ y ∈ sortUnique le key xs, key y = key x ∧ le y x := by
  have hmem : x ∈ xs.insertionSort le := (List.mem_insertionSort le).mpr hx
  have hsorted := List.pairwise_insertionSort le xs
  rw [sortUnique, uniqueBy]
  cases hlist : xs.insertionSort le with
  | nil => simp [hlist] at hmem
  | cons a rest =>
    rw [hlist] at hmem hsorted
    have hrefl : ∀ x, le x x := fun x => (Std.Total.total x x).elim id id
    exact exists_le_mem_destutter' rest a hrefl hsorted x hmem

variable [Std.Antisymm le]

/-- What is kept is exactly what is least among the elements of its key. -/
theorem mem_sortUnique_iff (hle : ∀ a b, le a b → key a ≤ key b)
    {xs : List α} {x : α} :
    x ∈ sortUnique le key xs ↔ x ∈ xs ∧ ∀ y ∈ xs, key y = key x → le x y := by
  have hnodup : ((sortUnique le key xs).map key).Nodup :=
    (List.pairwise_map.mpr (pairwise_lt_sortUnique hle xs)).imp fun h => h.ne
  constructor
  · intro hx
    refine ⟨mem_of_mem_sortUnique hx, ?_⟩
    intro y hy hkey
    obtain ⟨z, hz, hzy, hlezy⟩ : ∃ z ∈ sortUnique le key xs,
        key z = key y ∧ le z y := exists_le_mem_sortUnique hy
    have hsame : z = x :=
      List.inj_on_of_nodup_map hnodup hz hx (hzy.trans hkey)
    exact hsame ▸ hlezy
  · rintro ⟨hx, hleast⟩
    obtain ⟨y, hy, hkey, hleyx⟩ : ∃ y ∈ sortUnique le key xs,
        key y = key x ∧ le y x := exists_le_mem_sortUnique hx
    have hlexy := hleast y (mem_of_mem_sortUnique hy) hkey
    exact Std.Antisymm.antisymm y x hleyx hlexy ▸ hy

/-- Lists with the same least elements are normalised alike. -/
theorem sortUnique_congr (hle : ∀ a b, le a b → key a ≤ key b)
    {xs ys : List α}
    (hleast : ∀ x, (x ∈ xs ∧ ∀ y ∈ xs, key y = key x → le x y) ↔
      x ∈ ys ∧ ∀ y ∈ ys, key y = key x → le x y) :
    sortUnique le key xs = sortUnique le key ys := by
  have hxs := pairwise_lt_sortUnique hle xs
  have hys := pairwise_lt_sortUnique hle ys
  have hne : ∀ {a b : α}, key a < key b → a ≠ b := by
    rintro a _ hlt rfl
    exact lt_irrefl _ hlt
  have hperm : (sortUnique le key xs).Perm (sortUnique le key ys) := by
    rw [List.perm_ext_iff_of_nodup (hxs.imp hne) (hys.imp hne)]
    intro x
    rw [mem_sortUnique_iff hle, mem_sortUnique_iff hle]
    exact hleast x
  refine hperm.eq_of_pairwise ?_ hxs hys
  intro a b _ _ hab hba
  exact absurd hab (lt_asymm hba)

theorem sortUnique_perm (hle : ∀ a b, le a b → key a ≤ key b)
    {xs ys : List α} (hperm : xs.Perm ys) :
    sortUnique le key xs = sortUnique le key ys := by
  apply sortUnique_congr hle
  intro x
  simp only [hperm.mem_iff]

/-- What was normalised already may be normalised again with the rest. -/
theorem sortUnique_sortUnique_append (hle : ∀ a b, le a b → key a ≤ key b)
    (xs ys : List α) :
    sortUnique le key (sortUnique le key xs ++ ys) =
      sortUnique le key (xs ++ ys) := by
  apply sortUnique_congr hle
  intro x
  simp only [List.mem_append]
  constructor
  · rintro ⟨hx, hleast⟩
    refine ⟨hx.imp_left mem_of_mem_sortUnique, ?_⟩
    rintro y (hy | hy) hkey
    · obtain ⟨z, hz, hzy, hlezy⟩ : ∃ z ∈ sortUnique le key xs,
          key z = key y ∧ le z y := exists_le_mem_sortUnique hy
      exact IsTrans.trans x z y (hleast z (Or.inl hz) (hzy.trans hkey)) hlezy
    · exact hleast y (Or.inr hy) hkey
  · rintro ⟨hx, hleast⟩
    refine ⟨hx.imp_left fun hx => ?_, ?_⟩
    · exact (mem_sortUnique_iff hle).mpr
        ⟨hx, fun y hy => hleast y (Or.inl hy)⟩
    · rintro y (hy | hy) hkey
      · exact hleast y (Or.inl (mem_of_mem_sortUnique hy)) hkey
      · exact hleast y (Or.inr hy) hkey

end Sorted
end Bomwerk.Support
