import Mathlib.Data.List.Perm.Lattice

/-!
# Filling what is empty

A value that is empty is replaced by the next one.  Filling a value from a list
keeps the first one that is not empty; the order of the list matters only where
two of its values disagree.
-/

namespace Bomwerk.Support

variable {β : Type*} (empty : β → Prop) [DecidablePred empty]

/-- The destination, or the source when the destination is empty. -/
def fill (destination source : β) : β :=
  if empty destination then source else destination

/-- Two values that are both empty, or both not, are the same. -/
def Agrees (left right : β) : Prop :=
  (empty left ↔ empty right) → left = right

instance [DecidableEq β] (left right : β) :
    Decidable (Agrees empty left right) :=
  inferInstanceAs (Decidable ((empty left ↔ empty right) → left = right))

theorem foldl_fill_of_not_empty {first : β} (hfirst : ¬ empty first)
    (rest : List β) : rest.foldl (fill empty) first = first := by
  induction rest with
  | nil => rfl
  | cons value rest ih => rw [List.foldl_cons, fill, if_neg hfirst, ih]

theorem foldl_fill_of_empty {first : β} (hfirst : empty first) (next : β)
    (rest : List β) :
    (next :: rest).foldl (fill empty) first = rest.foldl (fill empty) next := by
  rw [List.foldl_cons, fill, if_pos hfirst]

theorem foldl_fill_mem (first : β) (rest : List β) :
    rest.foldl (fill empty) first ∈ first :: rest := by
  induction rest generalizing first with
  | nil => simp
  | cons value rest ih =>
    by_cases hfirst : empty first
    · rw [foldl_fill_of_empty empty hfirst]
      exact List.mem_cons_of_mem first (ih value)
    · rw [foldl_fill_of_not_empty empty hfirst]
      exact List.mem_cons_self

theorem empty_foldl_fill_iff (first : β) (rest : List β) :
    empty (rest.foldl (fill empty) first) ↔
      ∀ value ∈ first :: rest, empty value := by
  induction rest generalizing first with
  | nil => simp
  | cons value rest ih =>
    by_cases hfirst : empty first
    · rw [foldl_fill_of_empty empty hfirst, ih]
      simp [hfirst]
    · rw [foldl_fill_of_not_empty empty hfirst]
      simp [hfirst]

theorem foldl_fill_perm {first first' : β} {rest rest' : List β}
    (hagrees : ∀ left ∈ first :: rest, ∀ right ∈ first :: rest,
      Agrees empty left right)
    (hperm : (first :: rest).Perm (first' :: rest')) :
    rest.foldl (fill empty) first = rest'.foldl (fill empty) first' := by
  refine hagrees _ (foldl_fill_mem empty first rest) _
    (hperm.mem_iff.mpr (foldl_fill_mem empty first' rest')) ?_
  refine (empty_foldl_fill_iff empty first rest).trans
    (Iff.trans ?_ (empty_foldl_fill_iff empty first' rest').symm)
  simp only [hperm.mem_iff]

end Bomwerk.Support
