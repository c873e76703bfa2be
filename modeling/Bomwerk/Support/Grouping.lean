import Bomwerk.Support.OrderedMap
import Mathlib.Data.List.Induction

/-!
# Groups and the largest of them

Elements collected in a map under their keys, in the order of the list, and the
loop that looks for the largest element of a list: an element takes the lead
only when it is strictly larger, so among equals the first one stays.
-/

namespace Bomwerk.Support

section Groups

variable {α κ : Type*} [LinearOrder κ] [Std.TransOrd κ]

/-- `groups[key(item)].push_back(item)` for each item. -/
def groupInto (key : α → κ) (items : List α) : OrderedMap κ (List α) :=
  items.foldl
    (fun groups item =>
      updateAt groups (key item) fun group => group.getD [] ++ [item]) ∅

variable [Std.LawfulEqOrd κ]

theorem foldl_append_some (items group : List α) :
    items.foldl (fun group item => some (group.getD [] ++ [item]))
      (some group) = some (group ++ items) := by
  induction items generalizing group with
  | nil => simp
  | cons item items ih => simp [ih]

theorem groupInto_getElem? (key : α → κ) (items : List α) (k : κ) :
    (groupInto key items)[k]? =
      if items.filter (key · = k) = [] then none
      else some (items.filter (key · = k)) := by
  rw [groupInto, foldl_updateAt_filter key
    (fun item group => group.getD [] ++ [item])]
  rw [Std.ExtTreeMap.getElem?_empty]
  cases items.filter (key · = k) with
  | nil => rfl
  | cons item group =>
    rw [if_neg (by simp), List.foldl_cons]
    exact foldl_append_some group [item]

theorem mem_toList_groupInto_iff {key : α → κ} {items group : List α} {k : κ} :
    (k, group) ∈ (groupInto key items).toList ↔
      group = items.filter (key · = k) ∧ group ≠ [] := by
  rw [mem_toList_iff, groupInto_getElem?]
  split_ifs with hempty
  · constructor
    · intro h
      exact absurd h (by simp)
    · rintro ⟨rfl, hne⟩
      exact absurd hempty hne
  · rw [Option.some.injEq]
    constructor
    · rintro rfl
      exact ⟨rfl, hempty⟩
    · rintro ⟨rfl, -⟩
      rfl

omit [Std.LawfulEqOrd κ] in
theorem mem_foldl_insert_iff (imageOf : α → κ) (items : List α)
    (set : OrderedSet κ) (image : κ) :
    image ∈ items.foldl (fun set item => set.insert (imageOf item)) set ↔
      image ∈ set ∨ ∃ item ∈ items, imageOf item = image := by
  induction items generalizing set with
  | nil => simp
  | cons item items ih =>
    rw [List.foldl_cons, ih, Std.ExtTreeSet.mem_insert, compare_eq_iff_eq,
      List.exists_mem_cons_iff]
    tauto

end Groups

/-! ## The largest element -/

section Largest

variable {α ν : Type*} [LinearOrder ν]

/-- The loop over `entries` that starts with `winner` in the lead. -/
def firstLargest (size : α → ν) (winner : α) (entries : List α) : α :=
  entries.foldl
    (fun winner entry => if size winner < size entry then entry else winner)
    winner

def IsFirstLargest (size : α → ν) (entries : List α) (winner : α) : Prop :=
  ∃ before after, entries = before ++ winner :: after ∧
    (∀ entry ∈ before, size entry < size winner) ∧
    ∀ entry ∈ after, size entry ≤ size winner

theorem IsFirstLargest.mem {size : α → ν} {entries : List α} {winner : α}
    (h : IsFirstLargest size entries winner) : winner ∈ entries := by
  obtain ⟨before, after, rfl, -, -⟩ := h
  simp

theorem IsFirstLargest.le {size : α → ν} {entries : List α} {winner : α}
    (h : IsFirstLargest size entries winner) :
    ∀ entry ∈ entries, size entry ≤ size winner := by
  obtain ⟨before, after, rfl, hbefore, hafter⟩ := h
  intro entry hentry
  rcases List.mem_append.mp hentry with hentry | hentry
  · exact (hbefore entry hentry).le
  · rcases List.mem_cons.mp hentry with rfl | hentry
    · exact le_rfl
    · exact hafter entry hentry

theorem IsFirstLargest.eq_or_earlier {earlier : α → α → Prop} {size : α → ν}
    {entries : List α} {winner entry : α}
    (h : IsFirstLargest size entries winner)
    (hentries : entries.Pairwise earlier) (hentry : entry ∈ entries)
    (hsize : size entry = size winner) : entry = winner ∨ earlier winner entry := by
  obtain ⟨before, after, rfl, hbefore, -⟩ := h
  rcases List.mem_append.mp hentry with hentry | hentry
  · exact absurd hsize (hbefore entry hentry).ne
  · rcases List.mem_cons.mp hentry with rfl | hentry
    · exact Or.inl rfl
    · right
      have htail := (List.pairwise_append.mp hentries).2.1
      exact (List.pairwise_cons.mp htail).1 entry hentry

theorem isFirstLargest_firstLargest (size : α → ν) (winner : α)
    (entries : List α) :
    IsFirstLargest size (winner :: entries)
      (firstLargest size winner entries) := by
  induction entries generalizing winner with
  | nil => exact ⟨[], [], rfl, by simp, by simp⟩
  | cons next entries ih =>
    rw [firstLargest, List.foldl_cons, ← firstLargest]
    split_ifs with hlt
    · obtain ⟨before, after, heq, hbefore, hafter⟩ := ih next
      have hnext : size next ≤ size (firstLargest size next entries) :=
        (ih next).le next List.mem_cons_self
      refine ⟨winner :: before, after, by rw [heq, List.cons_append], ?_,
        hafter⟩
      rw [List.forall_mem_cons]
      exact ⟨hlt.trans_le hnext, hbefore⟩
    · obtain ⟨before, after, heq, hbefore, hafter⟩ := ih winner
      have hwinner : size winner ≤ size (firstLargest size winner entries) :=
        (ih winner).le winner List.mem_cons_self
      have hnext : size next ≤ size winner := not_lt.mp hlt
      cases before with
      | nil =>
        obtain ⟨hhead, rfl⟩ := List.cons.inj heq
        refine ⟨[], next :: entries, by rw [← hhead]; rfl, by simp, ?_⟩
        rw [List.forall_mem_cons]
        exact ⟨hnext.trans hwinner, hafter⟩
      | cons first before =>
        obtain ⟨rfl, hrest⟩ := List.cons.inj heq
        obtain ⟨hfirst, hbefore⟩ := List.forall_mem_cons.mp hbefore
        refine ⟨winner :: next :: before, after, ?_, ?_, hafter⟩
        · exact congrArg (fun rest => winner :: next :: rest) hrest
        · rw [List.forall_mem_cons, List.forall_mem_cons]
          exact ⟨hfirst, hnext.trans_lt hfirst, hbefore⟩

theorem firstLargest_cons_self (size : α → ν) (winner : α) (entries : List α) :
    firstLargest size winner (winner :: entries) =
      firstLargest size winner entries := by
  rw [firstLargest, List.foldl_cons, if_neg (lt_irrefl _), ← firstLargest]

/-- The loop that keeps every largest element it has seen. -/
def allLargest (size : α → ν) (entries : List α) : List α :=
  entries.foldl
    (fun best entry =>
      match best with
      | [] => [entry]
      | lead :: _ =>
        if size entry < size lead then best
        else if size lead < size entry then [entry]
        else best ++ [entry]) []

theorem allLargest_concat (size : α → ν) (entries : List α) (entry : α) :
    allLargest size (entries ++ [entry]) =
      match allLargest size entries with
      | [] => [entry]
      | lead :: rest =>
        if size entry < size lead then lead :: rest
        else if size lead < size entry then [entry]
        else lead :: rest ++ [entry] := by
  rw [allLargest, List.foldl_append, ← allLargest]
  cases allLargest size entries <;> rfl

theorem exists_largest (size : α → ν) {entries : List α} (hne : entries ≠ []) :
    ∃ entry ∈ entries, ∀ other ∈ entries, size other ≤ size entry := by
  obtain ⟨first, rest, rfl⟩ := List.exists_cons_of_ne_nil hne
  have h := isFirstLargest_firstLargest size first rest
  exact ⟨_, h.mem, h.le⟩

/-- The loop keeps the largest elements, in their order. -/
theorem allLargest_eq_filter (size : α → ν) (entries : List α) :
    allLargest size entries =
      entries.filter fun entry => ∀ other ∈ entries, size other ≤ size entry := by
  induction entries using List.reverseRec with
  | nil => rfl
  | append_singleton entries entry ih =>
    rw [allLargest_concat, List.filter_append]
    cases hbest : allLargest size entries with
    | nil =>
      have hempty : entries = [] := by
        by_contra hne
        obtain ⟨largest, hmem, hlargest⟩ := exists_largest size hne
        have hkept : largest ∈ allLargest size entries := by
          rw [ih]
          exact List.mem_filter.mpr ⟨hmem, by simpa using hlargest⟩
        rw [hbest] at hkept
        exact absurd hkept List.not_mem_nil
      simp [hempty]
    | cons lead rest =>
      rw [hbest] at ih
      obtain ⟨hmem, hlead⟩ : lead ∈ entries ∧
          ∀ other ∈ entries, size other ≤ size lead := by
        have hkept : lead ∈ lead :: rest := List.mem_cons_self
        rw [ih] at hkept
        obtain ⟨hmem, hlargest⟩ := List.mem_filter.mp hkept
        exact ⟨hmem, by simpa using hlargest⟩
      have hsplit : ∀ size', (∀ other ∈ entries ++ [entry],
          size other ≤ size') ↔
            (∀ other ∈ entries, size other ≤ size') ∧ size entry ≤ size' := by
        intro size'
        simp [or_imp, forall_and]
      simp only [hsplit]
      have hkeep : size entry ≤ size lead → entries.filter (fun e =>
            (∀ other ∈ entries, size other ≤ size e) ∧
              size entry ≤ size e) = lead :: rest := by
        intro hle
        rw [ih]
        apply List.filter_congr
        intro e _
        apply decide_eq_decide.mpr
        exact and_iff_left_of_imp fun h => hle.trans (h lead hmem)
      by_cases hless : size entry < size lead
      · rw [hkeep hless.le]
        simp only [if_pos hless]
        rw [List.filter_eq_nil_iff.mpr, List.append_nil]
        intro e he
        obtain rfl := List.mem_singleton.mp he
        simp only [decide_eq_true_eq, not_and]
        intro h
        exact absurd (h lead hmem) (not_le.mpr hless)
      by_cases hmore : size lead < size entry
      · have hnone : entries.filter (fun e =>
            (∀ other ∈ entries, size other ≤ size e) ∧
              size entry ≤ size e) = [] := by
          rw [List.filter_eq_nil_iff]
          intro e he
          simp only [decide_eq_true_eq, not_and, not_le]
          exact fun _ => (hlead e he).trans_lt hmore
        rw [hnone]
        simp only [if_neg hless, if_pos hmore]
        rw [List.nil_append, List.filter_eq_self.mpr]
        intro e he
        obtain rfl := List.mem_singleton.mp he
        simp only [decide_eq_true_eq, le_refl, and_true]
        exact fun other hother => (hlead other hother).trans hmore.le
      · have hsame : size entry = size lead :=
          le_antisymm (not_lt.mp hmore) (not_lt.mp hless)
        rw [hkeep hsame.le]
        simp only [if_neg hless, if_neg hmore]
        rw [List.filter_eq_self.mpr]
        intro e he
        obtain rfl := List.mem_singleton.mp he
        simp only [decide_eq_true_eq, le_refl, and_true]
        exact fun other hother => (hlead other hother).trans hsame.ge

end Largest
end Bomwerk.Support
