import Mathlib.Algebra.BigOperators.Group.Finset.Basic
import Mathlib.Data.List.Induction
import Mathlib.Data.List.Perm.Basic

/-!
# Loops that accumulate

A loop over records, each of which makes a list of changes to one state.  When
any two changes commute, the order of the records does not matter.
-/

namespace Bomwerk.Support

variable {σ ε ρ : Type*}

/-- The state after the changes of every record. -/
def accumulate (changes : ρ → List ε) (apply : σ → ε → σ) (start : σ)
    (records : List ρ) : σ :=
  records.foldl (fun state record => (changes record).foldl apply state) start

section

variable {changes : ρ → List ε} {apply : σ → ε → σ} {start : σ}

theorem accumulate_eq_foldl (records : List ρ) :
    accumulate changes apply start records =
      (records.flatMap changes).foldl apply start :=
  List.foldl_flatMap.symm

theorem accumulate_perm
    (hcomm : ∀ state a b, apply (apply state a) b = apply (apply state b) a)
    {records reordered : List ρ} (hperm : records.Perm reordered) :
    accumulate changes apply start records =
      accumulate changes apply start reordered := by
  rw [accumulate_eq_foldl, accumulate_eq_foldl]
  exact (hperm.flatMap_right changes).foldl_eq'
    (fun a _ b _ state => hcomm state a b) start

/-- A relation between the changes made so far and the state, kept by every
change, holds at the end. -/
theorem accumulate_induction {motive : List ε → σ → Prop}
    (hstart : motive [] start)
    (hstep : ∀ made state change,
      motive made state → motive (made ++ [change]) (apply state change))
    (records : List ρ) :
    motive (records.flatMap changes)
      (accumulate changes apply start records) := by
  rw [accumulate_eq_foldl]
  generalize records.flatMap changes = all
  induction all using List.reverseRecOn with
  | nil => exact hstart
  | append_singleton made change ih =>
    rw [List.foldl_append]
    exact hstep made _ change ih

end
end Bomwerk.Support

/-!
## Counters that a loop bumps

A loop over a list whose turns bump counters is described by the marks that an
element leaves: how often each counter is bumped for it.  Everything is counted
once exactly when there are as many marks as elements.
-/

namespace Bomwerk.Support

variable {σ α κ : Type*}

theorem tally_foldl [DecidableEq κ] (tally : σ → κ → Nat) {turn : σ → α → σ}
    {marks : α → List κ}
    (hturn : ∀ state element counter, tally (turn state element) counter =
      tally state counter + (marks element).count counter)
    (state : σ) (elements : List α) (counter : κ) :
    tally (elements.foldl turn state) counter =
      tally state counter + (elements.flatMap marks).count counter := by
  induction elements generalizing state with
  | nil => simp
  | cons element elements ih =>
    rw [List.foldl_cons, ih, hturn, List.flatMap_cons, List.count_append,
      Nat.add_assoc]

/-- A counter that some elements bump once. -/
theorem counted_foldl (counted : σ → Nat) {turn : σ → α → σ}
    {counts : α → Bool}
    (hturn : ∀ state element, counted (turn state element) =
      counted state + if counts element then 1 else 0)
    (state : σ) (elements : List α) :
    counted (elements.foldl turn state) =
      counted state + (elements.filter counts).length := by
  induction elements generalizing state with
  | nil => rfl
  | cons element elements ih =>
    rw [List.foldl_cons, ih, hturn]
    by_cases hcounts : counts element = true
    · rw [if_pos hcounts, List.filter_cons_of_pos hcounts, List.length_cons]
      omega
    · rw [if_neg hcounts, List.filter_cons_of_neg hcounts, Nat.add_zero]

theorem collected_foldl {β : Type*} (collected : σ → List β) {turn : σ → α → σ}
    {piece : α → List β}
    (hturn : ∀ state element,
      collected (turn state element) = collected state ++ piece element)
    (state : σ) (elements : List α) :
    collected (elements.foldl turn state) =
      collected state ++ elements.flatMap piece := by
  induction elements generalizing state with
  | nil => simp
  | cons element elements ih =>
    rw [List.foldl_cons, ih, hturn, List.flatMap_cons, List.append_assoc]

theorem mapped_foldl {β : Type*} (collected : σ → List β) {turn : σ → α → σ}
    {value : α → β}
    (hturn : ∀ state element,
      collected (turn state element) = collected state ++ [value element])
    (state : σ) (elements : List α) :
    collected (elements.foldl turn state) =
      collected state ++ elements.map value := by
  rw [collected_foldl collected hturn, List.map_eq_flatMap]

theorem kept_foldl {β : Type*} (kept : σ → β) {turn : σ → α → σ}
    (hturn : ∀ state element, kept (turn state element) = kept state)
    (state : σ) (elements : List α) :
    kept (elements.foldl turn state) = kept state := by
  induction elements generalizing state with
  | nil => rfl
  | cons element elements ih => rw [List.foldl_cons, ih, hturn]

theorem sum_count_eq_length [Fintype κ] [DecidableEq κ] (marks : List κ) :
    ∑ counter, marks.count counter = marks.length := by
  have h := Multiset.sum_count_eq_card (s := Finset.univ)
    (m := (marks : Multiset κ)) fun _ _ => Finset.mem_univ _
  simpa using h

theorem length_le_length_flatMap {marks : α → List κ} {elements : List α}
    (hmarked : ∀ element ∈ elements, marks element ≠ []) :
    elements.length ≤ (elements.flatMap marks).length := by
  induction elements with
  | nil => simp
  | cons element elements ih =>
    obtain ⟨hhead, htail⟩ := List.forall_mem_cons.mp hmarked
    have hpos := List.length_pos_of_ne_nil hhead
    have hrest := ih htail
    rw [List.flatMap_cons, List.length_append, List.length_cons]
    omega

/-- Where every element leaves a mark, there are as many marks as elements only
if each leaves one. -/
theorem length_flatMap_eq_iff {marks : α → List κ} {elements : List α}
    (hmarked : ∀ element ∈ elements, marks element ≠ []) :
    (elements.flatMap marks).length = elements.length ↔
      ∀ element ∈ elements, (marks element).length = 1 := by
  induction elements with
  | nil => simp
  | cons element elements ih =>
    obtain ⟨hhead, htail⟩ := List.forall_mem_cons.mp hmarked
    have hpos := List.length_pos_of_ne_nil hhead
    have hrest := length_le_length_flatMap htail
    rw [List.flatMap_cons, List.length_append, List.length_cons,
      List.forall_mem_cons, ← ih htail]
    omega

theorem count_flatMap_append [DecidableEq κ] (first second : α → List κ)
    (elements : List α) (counter : κ) :
    (elements.flatMap fun element => first element ++ second element).count
        counter =
      (elements.flatMap first).count counter +
        (elements.flatMap second).count counter := by
  induction elements with
  | nil => rfl
  | cons element elements ih =>
    simp only [List.flatMap_cons, List.count_append, ih]
    omega

theorem flatMap_filter_of_eq_nil {marks : α → List κ} {keep : α → Bool}
    (hmarks : ∀ element, ¬ keep element = true → marks element = [])
    (elements : List α) :
    elements.flatMap marks = (elements.filter keep).flatMap marks := by
  induction elements with
  | nil => rfl
  | cons element elements ih =>
    by_cases hkeep : keep element = true
    · rw [List.filter_cons_of_pos hkeep, List.flatMap_cons,
        List.flatMap_cons, ih]
    · rw [List.filter_cons_of_neg hkeep, List.flatMap_cons,
        hmarks element hkeep, List.nil_append, ih]

end Bomwerk.Support
