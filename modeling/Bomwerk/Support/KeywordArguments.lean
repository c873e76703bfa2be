import Mathlib.Data.List.Basic
import Mathlib.Data.List.Nodup

/-!
# Keyword arguments

A list of keywords, each with its value behind it, read by looking for a keyword
among all arguments: a value that spells the keyword is taken for it.
-/

namespace Bomwerk.Support

variable {α κ : Type*}

/-- What stands behind the first argument that spells the keyword. -/
def valueBehind (spells : α → Bool) : List α → Option α
  | argument :: value :: rest =>
    if spells argument then some value else valueBehind spells (value :: rest)
  | _ => none

/-- The pairs, one argument behind the other. -/
def flattened (pairs : List (α × α)) : List α :=
  pairs.flatMap fun pair => [pair.1, pair.2]

/-- The value that is paired with the keyword. -/
def paired (spells : α → Bool) (pairs : List (α × α)) : Option α :=
  (pairs.find? fun pair => spells pair.1).map Prod.snd

/-- What is taken for the value of the keyword without being paired with it: an
argument or a value in front of its pair spells it, and this is the keyword of
the pair behind that. -/
def stray (spells : α → Bool) : Option α → List (α × α) → Option α
  | _, [] => none
  | front, (key, value) :: pairs =>
    if front.any spells then some key
    else if spells key then none
    else stray spells (some value) pairs

theorem flattened_cons (key value : α) (pairs : List (α × α)) :
    flattened ((key, value) :: pairs) = key :: value :: flattened pairs := rfl

theorem mem_flattened_iff {argument : α} {pairs : List (α × α)} :
    argument ∈ flattened pairs ↔
      ∃ pair ∈ pairs, argument = pair.1 ∨ argument = pair.2 := by
  simp [flattened]

/-- Reading the flat list: a stray value first, or else the pair's own. -/
theorem valueBehind_flattened (spells : α → Bool) (front : Option α)
    (pairs : List (α × α)) :
    valueBehind spells (front.toList ++ flattened pairs) =
      (stray spells front pairs).or (paired spells pairs) := by
  induction pairs generalizing front with
  | nil => cases front <;> rfl
  | cons pair pairs ih =>
    obtain ⟨key, value⟩ := pair
    have hbehind := ih (some value)
    rw [Option.toList_some, List.singleton_append] at hbehind
    -- the pair itself, once nothing in front of it is taken
    have hpair : valueBehind spells (key :: value :: flattened pairs) =
        (if spells key then none
          else stray spells (some value) pairs).or
            (paired spells ((key, value) :: pairs)) := by
      rw [valueBehind, hbehind]
      by_cases hkey : spells key = true
      · simp [hkey, paired]
      · simp [hkey, paired]
    cases front with
    | none => simpa [flattened_cons, stray] using hpair
    | some argument =>
      rw [flattened_cons, Option.toList_some, List.singleton_append,
        valueBehind, hpair, stray]
      by_cases hargument : spells argument = true
      · simp [hargument]
      · simp [hargument]

theorem exists_of_stray {spells : α → Bool} {front : Option α}
    {pairs : List (α × α)} {key : α}
    (h : stray spells front pairs = some key) :
    ∃ pair ∈ pairs, pair.1 = key := by
  induction pairs generalizing front with
  | nil => simp [stray] at h
  | cons pair pairs ih =>
    rw [stray] at h
    split_ifs at h
    · exact ⟨pair, by simp, Option.some.inj h⟩
    · obtain ⟨other, hmem, hkey⟩ := ih h
      exact ⟨other, by simp [hmem], hkey⟩

/-- At most one of the pairs has a keyword that is spelled so. -/
def SpelledOnce (spells : α → Bool) (pairs : List (α × α)) : Prop :=
  ∀ left ∈ pairs, ∀ right ∈ pairs,
    spells left.1 = true → spells right.1 = true → left = right

theorem paired_eq_some_iff {spells : α → Bool} {pairs : List (α × α)}
    (honce : SpelledOnce spells pairs) {value : α} :
    paired spells pairs = some value ↔
      ∃ pair ∈ pairs, spells pair.1 = true ∧ pair.2 = value := by
  rw [paired, Option.map_eq_some_iff]
  constructor
  · rintro ⟨pair, hfind, rfl⟩
    have hspells := List.find?_some hfind
    exact ⟨pair, List.mem_of_find?_eq_some hfind, hspells, rfl⟩
  · rintro ⟨pair, hmem, hspells, rfl⟩
    cases hfind : pairs.find? fun pair => spells pair.1 with
    | none => exact absurd hspells (List.find?_eq_none.mp hfind pair hmem)
    | some found =>
      have hfound := List.find?_some hfind
      obtain rfl := honce pair hmem found (List.mem_of_find?_eq_some hfind)
        hspells hfound
      exact ⟨pair, rfl, rfl⟩

theorem paired_congr_perm {spells : α → Bool} {pairs others : List (α × α)}
    (hperm : pairs.Perm others) (honce : SpelledOnce spells others) :
    paired spells pairs = paired spells others := by
  have honce' : SpelledOnce spells pairs := fun left hleft right hright =>
    honce left (hperm.mem_iff.mp hleft) right (hperm.mem_iff.mp hright)
  ext value
  rw [paired_eq_some_iff honce', paired_eq_some_iff honce]
  simp only [hperm.mem_iff]

theorem spelledOnce_of_nodup {fold : α → κ} {spells : α → Bool}
    {pairs : List (α × α)} (hnodup : (pairs.map fun pair => fold pair.1).Nodup)
    (hspells : ∀ left right, spells left = true → spells right = true →
      fold left = fold right) :
    SpelledOnce spells pairs := fun left hleft right hright hl hr =>
  List.inj_on_of_nodup_map hnodup hleft hright (hspells left.1 right.1 hl hr)

/-! ## Several keywords of one field -/

variable {β γ : Type*} {strayOf pairedOf : β → Option α}

/-- The keywords of a field in order: the first stray value, in front of the
first keyword that is paired. -/
def firstStray (strayOf pairedOf : β → Option α) : List β → Option (β × α)
  | [] => none
  | row :: rows =>
    match strayOf row with
    | some value => some (row, value)
    | none =>
      if (pairedOf row).isSome then none
      else firstStray strayOf pairedOf rows

def firstValue (read : β → Option α) (rows : List β) : Option (β × α) :=
  rows.findSome? fun row => (read row).map fun value => (row, value)

theorem firstValue_or (rows : List β) :
    firstValue (fun row => (strayOf row).or (pairedOf row)) rows =
      (firstStray strayOf pairedOf rows).or (firstValue pairedOf rows) := by
  induction rows with
  | nil => rfl
  | cons row rows ih =>
    simp only [firstValue, List.findSome?_cons] at ih ⊢
    rw [firstStray, ih]
    cases strayOf row with
    | some value => rfl
    | none =>
      cases pairedOf row with
      | some value => rfl
      | none => rfl

theorem mem_of_firstStray {rows : List β} {row : β} {value : α}
    (h : firstStray strayOf pairedOf rows = some (row, value)) :
    row ∈ rows ∧ strayOf row = some value := by
  induction rows with
  | nil => simp [firstStray] at h
  | cons first rows ih =>
    rw [firstStray] at h
    cases hstray : strayOf first with
    | some other =>
      rw [hstray] at h
      obtain ⟨rfl, rfl⟩ := Prod.mk.inj (Option.some.inj h)
      exact ⟨List.mem_cons_self, hstray⟩
    | none =>
      rw [hstray] at h
      simp only at h
      split_ifs at h
      exact ⟨List.mem_cons_of_mem _ (ih h).1, (ih h).2⟩

theorem mem_of_firstValue {read : β → Option α} {rows : List β} {row : β}
    {value : α} (h : firstValue read rows = some (row, value)) :
    row ∈ rows ∧ read row = some value := by
  obtain ⟨found, hmem, hfound⟩ := List.exists_of_findSome?_eq_some h
  obtain ⟨_, hread, heq⟩ := Option.map_eq_some_iff.mp hfound
  obtain ⟨rfl, rfl⟩ := Prod.mk.inj heq
  exact ⟨hmem, hread⟩

theorem getD_or_eq_iff {first second : Option γ} {default : γ} :
    (first.or second).getD default = second.getD default ↔
      ∀ value, first = some value → second.getD default = value := by
  cases first with
  | none => simp
  | some value => simp [eq_comm]

end Bomwerk.Support
