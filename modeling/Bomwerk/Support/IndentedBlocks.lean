import Mathlib.Data.List.Induction
import Mathlib.Order.Nat

/-!
# Blocks by indentation

A scan over lines that skips whatever is indented deeper than the line that
opened a block.  A blank line has no indentation.
-/

namespace Bomwerk.Support

variable {Line : Type*} (isBlank : Line → Bool) (indentation : Line → Nat)
  (opens : Line → Bool)

/-- One line; the state is the indentation of the block that is skipped. -/
def blockStep (state : Option Nat) (line : Line) : Option Nat :=
  if isBlank line then state
  else if state.any (· < indentation line) then state
  else if opens line then some (indentation line)
  else none

def outsideBlocks : Option Nat → List Line → List Line
  | _, [] => []
  | state, line :: lines =>
    (if state.any (· < indentation line) then [] else [line]) ++
      outsideBlocks (blockStep isBlank indentation opens state line) lines

/-- A line at `column` opens a block that nothing has closed so far. -/
def IsOpenBlock (lines : List Line) (column : Nat) : Prop :=
  ∃ front opening behind, lines = front ++ opening :: behind ∧
    isBlank opening = false ∧ opens opening = true ∧
      indentation opening = column ∧
        ∀ line ∈ behind, isBlank line = true ∨ column < indentation line

/-- What stands at `column` behind these lines is inside a block. -/
def IsInBlock (lines : List Line) (column : Nat) : Prop :=
  ∃ opened < column, IsOpenBlock isBlank indentation opens lines opened

variable {isBlank indentation opens}

theorem outsideBlocks_append (state : Option Nat) (front back : List Line) :
    outsideBlocks isBlank indentation opens state (front ++ back) =
      outsideBlocks isBlank indentation opens state front ++
        outsideBlocks isBlank indentation opens
          (front.foldl (blockStep isBlank indentation opens) state) back := by
  induction front generalizing state with
  | nil => rfl
  | cons line front ih =>
    rw [List.cons_append, outsideBlocks, outsideBlocks, List.foldl_cons, ih,
      List.append_assoc]

/-- Lines inside a block leave it open and are skipped. -/
theorem outsideBlocks_of_deeper {column : Nat} {lines : List Line}
    (hdeeper : ∀ line ∈ lines, column < indentation line) :
    outsideBlocks isBlank indentation opens (some column) lines = [] ∧
      lines.foldl (blockStep isBlank indentation opens) (some column) =
        some column := by
  induction lines with
  | nil => exact ⟨rfl, rfl⟩
  | cons line lines ih =>
    rw [List.forall_mem_cons] at hdeeper
    obtain ⟨hline, hlines⟩ := hdeeper
    have hstep : blockStep isBlank indentation opens (some column) line =
        some column := by
      simp [blockStep, hline]
    rw [outsideBlocks, List.foldl_cons, hstep]
    simpa [hline] using ih hlines

theorem isOpenBlock_concat {lines : List Line} {line : Line} {column : Nat} :
    IsOpenBlock isBlank indentation opens (lines ++ [line]) column ↔
      (isBlank line = false ∧ opens line = true ∧ indentation line = column) ∨
        (IsOpenBlock isBlank indentation opens lines column ∧
          (isBlank line = true ∨ column < indentation line)) := by
  constructor
  · rintro ⟨front, opening, behind, hlines, hblank, hopens, hcolumn, hdeeper⟩
    rcases List.eq_nil_or_concat behind with rfl | ⟨more, last, rfl⟩
    · obtain ⟨-, hline⟩ := List.append_inj' hlines rfl
      obtain rfl := List.singleton_inj.mp hline
      exact Or.inl ⟨hblank, hopens, hcolumn⟩
    · have hsplit : lines ++ [line] = (front ++ opening :: more) ++ [last] := by
        simpa using hlines
      obtain ⟨hfront, hline⟩ := List.append_inj' hsplit rfl
      obtain rfl := List.singleton_inj.mp hline
      refine Or.inr ⟨⟨front, opening, more, hfront, hblank, hopens, hcolumn,
        ?_⟩, hdeeper line (by simp)⟩
      intro other hother
      exact hdeeper other (by simp [hother])
  · rintro (⟨hblank, hopens, hcolumn⟩ |
      ⟨⟨front, opening, behind, rfl, hblank, hopens, hcolumn, hdeeper⟩, hline⟩)
    · exact ⟨lines, line, [], rfl, hblank, hopens, hcolumn, by simp⟩
    · refine ⟨front, opening, behind ++ [line], by simp, hblank, hopens,
        hcolumn, ?_⟩
      intro other hother
      rcases List.mem_append.mp hother with hother | hother
      · exact hdeeper other hother
      · obtain rfl := List.mem_singleton.mp hother
        exact hline

/-- The state is the outermost open block. -/
theorem foldl_blockStep_isLeast (lines : List Line) :
    (∀ opened, lines.foldl (blockStep isBlank indentation opens) none =
        some opened →
      IsOpenBlock isBlank indentation opens lines opened) ∧
    ∀ column, IsOpenBlock isBlank indentation opens lines column →
      ∃ opened ≤ column,
        lines.foldl (blockStep isBlank indentation opens) none =
          some opened := by
  induction lines using List.reverseRecOn with
  | nil =>
    constructor
    · intro opened h
      cases h
    · rintro column ⟨front, opening, behind, hlines, -⟩
      exact absurd hlines (by simp)
  | append_singleton lines line ih =>
    obtain ⟨hopen, hleast⟩ := ih
    rw [List.foldl_append, List.foldl_cons, List.foldl_nil]
    generalize lines.foldl (blockStep isBlank indentation opens) none =
      state at hopen hleast ⊢
    simp only [isOpenBlock_concat, blockStep]
    by_cases hblank : isBlank line = true
    · simpa [hblank] using ⟨hopen, hleast⟩
    rw [Bool.not_eq_true] at hblank
    by_cases hdeeper : state.any (· < indentation line) = true
    · obtain ⟨opened, rfl, hlt⟩ : ∃ opened, state = some opened ∧
          opened < indentation line := by
        simpa using (Option.any_eq_true _ _).mp hdeeper
      simp only [hblank, Bool.false_eq_true, if_false, hdeeper, if_true]
      constructor
      · rintro _ ⟨rfl⟩
        exact Or.inr ⟨hopen opened rfl, Or.inr hlt⟩
      · rintro column (⟨-, -, rfl⟩ | ⟨hcolumn, -⟩)
        · exact ⟨opened, hlt.le, rfl⟩
        · exact hleast column hcolumn
    · have hnone : ∀ column,
          IsOpenBlock isBlank indentation opens lines column →
            indentation line ≤ column := by
        intro column hcolumn
        obtain ⟨opened, hle, rfl⟩ := hleast column hcolumn
        have hge : indentation line ≤ opened := by
          simpa using hdeeper
        exact hge.trans hle
      simp only [hblank, Bool.false_eq_true, if_false, hdeeper, false_or,
        true_and]
      by_cases hopens : opens line = true
      · simp only [hopens, if_true, true_and]
        constructor
        · rintro _ ⟨rfl⟩
          exact Or.inl rfl
        · rintro column (rfl | ⟨hcolumn, hlt⟩)
          · exact ⟨_, le_rfl, rfl⟩
          · exact absurd hlt (hnone column hcolumn).not_gt
      · simp only [hopens, Bool.false_eq_true, if_false, false_and, false_or]
        constructor
        · intro opened h
          cases h
        · rintro column ⟨hcolumn, hlt⟩
          exact absurd hlt (hnone column hcolumn).not_gt

theorem any_foldl_blockStep_iff (lines : List Line) (column : Nat) :
    (lines.foldl (blockStep isBlank indentation opens) none).any
        (· < column) = true ↔
      IsInBlock isBlank indentation opens lines column := by
  obtain ⟨hopen, hleast⟩ :=
    @foldl_blockStep_isLeast _ isBlank indentation opens lines
  constructor
  · intro h
    obtain ⟨opened, hstate, hlt⟩ := (Option.any_eq_true _ _).mp h
    exact ⟨opened, of_decide_eq_true hlt, hopen opened hstate⟩
  · rintro ⟨opened, hlt, hopened⟩
    obtain ⟨least, hle, hstate⟩ := hleast opened hopened
    rw [hstate]
    simpa using hle.trans_lt hlt

end Bomwerk.Support
