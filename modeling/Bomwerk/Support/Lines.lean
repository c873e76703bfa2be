import Mathlib.Data.List.Basic

/-!
# Terminated pieces

A list of pieces joined with a terminator behind each of them is read back in
one way only, as long as no piece contains the terminator.
-/

namespace Bomwerk.Support

variable {α : Type*} {terminator : α}

/-- The pieces, each with the terminator behind it. -/
def joinTerminated (terminator : α) (pieces : List (List α)) : List α :=
  pieces.flatMap fun piece => piece ++ [terminator]

/-- The first terminator ends the first piece. -/
theorem append_terminator_inj {left right rest rest' : List α}
    (hleft : terminator ∉ left) (hright : terminator ∉ right)
    (h : left ++ terminator :: rest = right ++ terminator :: rest') :
    left = right ∧ rest = rest' := by
  induction left generalizing right with
  | nil =>
    cases right with
    | nil => exact ⟨rfl, (List.cons.inj h).2⟩
    | cons value right =>
      exact absurd ((List.cons.inj h).1 ▸ List.mem_cons_self) hright
  | cons value left ih =>
    cases right with
    | nil => exact absurd ((List.cons.inj h).1 ▸ List.mem_cons_self) hleft
    | cons value' right =>
      simp only [List.mem_cons, not_or] at hleft hright
      rw [List.cons_append, List.cons_append, List.cons.injEq] at h
      obtain ⟨rfl, hrest⟩ := ih hleft.2 hright.2 h.2
      exact ⟨h.1 ▸ rfl, hrest⟩

theorem joinTerminated_injective {left right : List (List α)}
    (hleft : ∀ piece ∈ left, terminator ∉ piece)
    (hright : ∀ piece ∈ right, terminator ∉ piece)
    (hjoined : joinTerminated terminator left =
      joinTerminated terminator right) : left = right := by
  induction left generalizing right with
  | nil =>
    cases right with
    | nil => rfl
    | cons piece right => simp [joinTerminated] at hjoined
  | cons piece left ih =>
    cases right with
    | nil => simp [joinTerminated] at hjoined
    | cons piece' right =>
      simp only [joinTerminated, List.flatMap_cons, List.append_assoc,
        List.singleton_append] at hjoined
      obtain ⟨rfl, hrest⟩ := append_terminator_inj
        (hleft piece List.mem_cons_self)
        (hright piece' List.mem_cons_self) hjoined
      rw [ih (fun other hother => hleft other (List.mem_cons_of_mem _ hother))
        (fun other hother => hright other (List.mem_cons_of_mem _ hother))
        hrest]

theorem splitOn_joinTerminated [BEq α] [LawfulBEq α]
    {pieces : List (List α)} (hpieces : ∀ piece ∈ pieces, terminator ∉ piece) :
    (joinTerminated terminator pieces).splitOn terminator = pieces ++ [[]] := by
  induction pieces with
  | nil => simp [joinTerminated]
  | cons piece pieces ih =>
    rw [List.forall_mem_cons] at hpieces
    have hjoin : joinTerminated terminator (piece :: pieces) =
        piece ++ terminator :: joinTerminated terminator pieces := by
      simp [joinTerminated]
    rw [hjoin, List.splitOn_append_cons_self_of_not_mem hpieces.1,
      ih hpieces.2, List.cons_append]

/-- No piece of a split holds the terminator. -/
theorem not_mem_of_mem_splitOn [BEq α] [LawfulBEq α] {text : List α} :
    ∀ piece ∈ text.splitOn terminator, terminator ∉ piece := by
  induction text with
  | nil => simp [List.splitOn_nil]
  | cons c text ih =>
    rw [List.splitOn_cons_eq_if_modifyHead]
    by_cases hc : c = terminator
    · subst c
      simpa using ih
    · obtain ⟨first, rest, hsplit⟩ :=
        List.exists_cons_of_ne_nil (List.splitOn_ne_nil terminator text)
      rw [hsplit] at ih ⊢
      have hfirst : terminator ∉ first := ih first (by simp)
      intro piece hpiece
      simp only [beq_iff_eq, hc, if_false, List.modifyHead_cons,
        List.mem_cons] at hpiece
      rcases hpiece with rfl | hpiece
      · simp [hfirst, Ne.symm hc]
      · exact ih piece (by simp [hpiece])

/-- A pattern without the terminator stands within one piece. -/
theorem infix_of_infix_joinTerminated {pattern : List α}
    (hne : pattern ≠ []) (hpattern : terminator ∉ pattern)
    {pieces : List (List α)}
    (hoccurs : pattern <:+: joinTerminated terminator pieces) :
    ∃ piece ∈ pieces, pattern <:+: piece := by
  induction pieces with
  | nil =>
    rw [joinTerminated, List.flatMap_nil, List.infix_nil] at hoccurs
    exact absurd hoccurs hne
  | cons piece pieces ih =>
    rw [joinTerminated, List.flatMap_cons, List.append_assoc,
      List.infix_append_iff] at hoccurs
    rcases hoccurs with hpiece | hlater | ⟨front, back, rfl, hfront, hback⟩
    · exact ⟨piece, by simp, hpiece⟩
    · rw [List.singleton_append, List.infix_cons_iff] at hlater
      rcases hlater with hstart | hrest
      · cases pattern with
        | nil => exact absurd rfl hne
        | cons value pattern =>
          have hvalue := (List.cons_prefix_cons.mp hstart).1
          exact absurd (hvalue ▸ List.mem_cons_self) hpattern
      · obtain ⟨other, hother, h⟩ := ih hrest
        exact ⟨other, by simp [hother], h⟩
    · cases back with
      | nil =>
        rw [List.append_nil]
        exact ⟨piece, by simp, hfront.isInfix⟩
      | cons value back =>
        rw [List.singleton_append] at hback
        have hvalue := (List.cons_prefix_cons.mp hback).1
        exact absurd (by simp [hvalue]) hpattern

/-- A word that ends with the terminator ends with the first one, or stands
behind it. -/
theorem infix_append_terminator_iff {word front rest : List α}
    (hword : terminator ∉ word) (hfront : terminator ∉ front) :
    (word ++ [terminator]) <:+: (front ++ terminator :: rest) ↔
      word <:+ front ∨ (word ++ [terminator]) <:+: rest := by
  constructor
  · rintro ⟨before, behind, heq⟩
    rw [List.append_assoc, List.append_assoc, List.singleton_append,
      ← List.append_assoc] at heq
    by_cases hbefore : terminator ∈ before
    · obtain ⟨first, more, rfl, hfirst⟩ :=
        List.eq_append_cons_of_mem hbefore
      simp only [List.append_assoc, List.cons_append] at heq
      obtain ⟨-, hrest⟩ := append_terminator_inj hfirst hfront heq
      refine Or.inr ⟨more, behind, ?_⟩
      simpa using hrest
    · have hnone : terminator ∉ before ++ word := by
        simp [hbefore, hword]
      obtain ⟨hline, -⟩ := append_terminator_inj hnone hfront heq
      exact Or.inl ⟨before, hline⟩
  · rintro (⟨before, rfl⟩ | ⟨before, behind, rfl⟩)
    · exact ⟨before, rest, by simp⟩
    · exact ⟨front ++ terminator :: before, behind, by simp⟩

theorem not_infix_of_notMem {word text : List α} (htext : terminator ∉ text) :
    ¬ (word ++ [terminator]) <:+: text := by
  intro hword
  exact htext (hword.subset (by simp))

end Bomwerk.Support
