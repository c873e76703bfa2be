import Mathlib.Order.Lattice
import Mathlib.Order.BoundedOrder.Basic

/-!
# What several sources say of one value

A value is unknown, known, or told in two ways.  What two sources say together
is their least upper bound: nothing is added by a source that says nothing or
the same, and two different values are a conflict that no further source
resolves.
-/

namespace Bomwerk.Support

/-- What is said of a value. -/
inductive Knowledge (α : Type*)
  | unknown
  | known (value : α)
  | conflicting
  deriving DecidableEq

namespace Knowledge

variable {α : Type*} [DecidableEq α]

def combine : Knowledge α → Knowledge α → Knowledge α
  | unknown, right => right
  | left, unknown => left
  | known left, known right => if left = right then known left else conflicting
  | conflicting, _ => conflicting
  | _, conflicting => conflicting

theorem combine_comm (left right : Knowledge α) :
    left.combine right = right.combine left := by
  cases left with
  | unknown => cases right <;> rfl
  | conflicting => cases right <;> rfl
  | known value =>
    cases right with
    | unknown => rfl
    | conflicting => rfl
    | known other =>
      by_cases h : value = other
      · rw [h]
      · rw [combine, combine, if_neg h, if_neg (Ne.symm h)]

theorem combine_assoc (first second third : Knowledge α) :
    (first.combine second).combine third =
      first.combine (second.combine third) := by
  cases first with
  | unknown => cases second <;> cases third <;> rfl
  | conflicting => cases second <;> cases third <;> simp [combine]; split_ifs <;> rfl
  | known value =>
    cases second with
    | unknown => cases third <;> rfl
    | conflicting => cases third <;> rfl
    | known other =>
      cases third with
      | unknown => simp only [combine]; split_ifs <;> rfl
      | conflicting => simp only [combine]; split_ifs <;> rfl
      | known last =>
        by_cases h : value = other <;> by_cases h' : other = last
        · simp [combine, h, h']
        · simp [combine, h, h']
        · simp [combine, h', show value ≠ last from h' ▸ h]
        · simp [combine, h, h']

theorem combine_self (knowledge : Knowledge α) :
    knowledge.combine knowledge = knowledge := by
  cases knowledge with
  | known value => exact if_pos rfl
  | _ => rfl

instance : Max (Knowledge α) := ⟨combine⟩

instance : SemilatticeSup (Knowledge α) :=
  SemilatticeSup.mk' combine_comm combine_assoc combine_self

instance : OrderBot (Knowledge α) where
  bot := unknown
  bot_le knowledge := (rfl : unknown.combine knowledge = knowledge)

@[simp] theorem unknown_sup (knowledge : Knowledge α) :
    unknown ⊔ knowledge = knowledge :=
  rfl

@[simp] theorem conflicting_sup (knowledge : Knowledge α) :
    conflicting ⊔ knowledge = conflicting := by
  cases knowledge <;> rfl

theorem known_sup_known (value other : α) :
    known value ⊔ known other =
      if value = other then known value else conflicting :=
  rfl

theorem le_conflicting (knowledge : Knowledge α) : knowledge ≤ conflicting := by
  rw [← sup_eq_right, sup_comm, conflicting_sup]

theorem eq_conflicting_of_known_le {value other : α} {knowledge : Knowledge α}
    (hne : value ≠ other) (hvalue : known value ≤ knowledge)
    (hother : known other ≤ knowledge) : knowledge = conflicting := by
  apply le_antisymm (le_conflicting knowledge)
  calc
    conflicting = known value ⊔ known other := by
      rw [known_sup_known, if_neg hne]
    _ ≤ knowledge := sup_le hvalue hother

theorem eq_conflicting_of_le {knowledge : Knowledge α}
    (h : conflicting ≤ knowledge) : knowledge = conflicting :=
  le_antisymm (le_conflicting knowledge) h

end Knowledge

/-! ## Joins of lists -/

section Joins

variable {α β : Type*} [SemilatticeSup α] [OrderBot α]

/-- The least upper bound of what each element says. -/
def joinOf (said : β → α) (sources : List β) : α :=
  (sources.map said).foldr (· ⊔ ·) ⊥

@[simp] theorem joinOf_nil (said : β → α) : joinOf said [] = ⊥ := rfl

@[simp] theorem joinOf_cons (said : β → α) (source : β) (sources : List β) :
    joinOf said (source :: sources) = said source ⊔ joinOf said sources :=
  rfl

theorem joinOf_le_iff {said : β → α} {sources : List β} {bound : α} :
    joinOf said sources ≤ bound ↔ ∀ source ∈ sources, said source ≤ bound := by
  induction sources with
  | nil => simp
  | cons source sources ih => simp [ih]

theorem le_joinOf {said : β → α} {sources : List β} {source : β}
    (hsource : source ∈ sources) : said source ≤ joinOf said sources :=
  joinOf_le_iff.mp le_rfl source hsource

theorem joinOf_mono {said : β → α} {left right : List β}
    (hsubset : left ⊆ right) : joinOf said left ≤ joinOf said right :=
  joinOf_le_iff.mpr fun _ hsource => le_joinOf (hsubset hsource)

theorem joinOf_append (said : β → α) (left right : List β) :
    joinOf said (left ++ right) = joinOf said left ⊔ joinOf said right := by
  induction left with
  | nil => simp
  | cons source left ih => simp [ih, sup_assoc]

theorem held_foldl {σ : Type*} (held : σ → α) {turn : σ → β → σ} {said : β → α}
    {sources : List β}
    (hturn : ∀ state, ∀ source ∈ sources,
      held (turn state source) = held state ⊔ said source)
    (state : σ) :
    held (sources.foldl turn state) = held state ⊔ joinOf said sources := by
  induction sources generalizing state with
  | nil => simp
  | cons source sources ih =>
    rw [List.foldl_cons,
      ih fun state other hother => hturn state other (by simp [hother]),
      hturn state source (by simp), joinOf_cons, sup_assoc]

end Joins
end Bomwerk.Support
