import Mathlib.Data.List.DropRight

/-!
# Segments behind separators

A path read as segments, each with the separator in front of it, and what is
left of a text when the separators at its end are dropped.
-/

namespace Bomwerk.Support

variable {α : Type*} {separator : α}

/-- The segments, each with the separator in front of it. -/
def ledSegments (separator : α) (segments : List (List α)) : List α :=
  segments.flatMap fun segment => separator :: segment

@[simp] theorem ledSegments_nil : ledSegments separator [] = [] := rfl

@[simp] theorem ledSegments_cons (segment : List α)
    (segments : List (List α)) :
    ledSegments separator (segment :: segments) =
      separator :: (segment ++ ledSegments separator segments) := by
  simp [ledSegments]

theorem ledSegments_append (front back : List (List α)) :
    ledSegments separator (front ++ back) =
      ledSegments separator front ++ ledSegments separator back := by
  simp [ledSegments]

theorem ledSegments_replicate_nil (count : Nat) :
    ledSegments separator (List.replicate count []) =
      List.replicate count separator := by
  induction count with
  | zero => rfl
  | succ count ih =>
    rw [List.replicate_succ, ledSegments_cons, ih, List.nil_append,
      List.replicate_succ]

theorem append_ledSegments (separator : α) (segment : List α)
    (segments : List (List α)) :
    segment ++ ledSegments separator segments =
      [separator].intercalate (segment :: segments) := by
  induction segments generalizing segment with
  | nil => simp
  | cons next segments ih =>
    rw [ledSegments_cons, ih next, List.intercalate_cons_cons]
    simp

theorem cons_intercalate {segments : List (List α)} (hne : segments ≠ []) :
    separator :: [separator].intercalate segments =
      ledSegments separator segments := by
  obtain ⟨segment, segments, rfl⟩ := List.exists_cons_of_ne_nil hne
  rw [← append_ledSegments, ledSegments_cons]

/-- What a joined text holds is the separator or stands in a piece. -/
theorem exists_mem_of_mem_intercalate {c : α} {pieces : List (List α)}
    (hmem : c ∈ [separator].intercalate pieces) (hne : c ≠ separator) :
    ∃ piece ∈ pieces, c ∈ piece := by
  induction pieces with
  | nil => simp [List.intercalate_nil] at hmem
  | cons piece pieces ih =>
    cases pieces with
    | nil =>
      rw [List.intercalate_singleton] at hmem
      exact ⟨piece, List.mem_cons_self, hmem⟩
    | cons next pieces =>
      rw [List.intercalate_cons_cons, List.mem_append, List.mem_append,
        List.mem_singleton] at hmem
      rcases hmem with (hmem | hmem) | hmem
      · exact ⟨piece, List.mem_cons_self, hmem⟩
      · exact absurd hmem hne
      · obtain ⟨found, hfound, hin⟩ := ih hmem
        exact ⟨found, List.mem_cons_of_mem _ hfound, hin⟩

theorem length_le_length_ledSegments (separator : α)
    (segments : List (List α)) :
    segments.length ≤ (ledSegments separator segments).length := by
  induction segments with
  | nil => rfl
  | cons segment segments ih =>
    rw [ledSegments_cons, List.length_cons, List.length_cons,
      List.length_append]
    omega

theorem eq_nil_of_length_ledSegments_singleton (separator : α)
    {segment : List α}
    (hlength : (ledSegments separator [segment]).length ≤ 1) :
    segment = [] := by
  rw [ledSegments_cons, ledSegments_nil, List.append_nil,
    List.length_cons] at hlength
  exact List.eq_nil_of_length_eq_zero (by omega)

theorem takeWhile_append_of_stop (p : α → Bool) (front rest : List α)
    (hfront : ∀ x ∈ front, p x = true)
    (hrest : ∀ x ∈ rest.head?, p x = false) :
    (front ++ rest).takeWhile p = front ∧
      (front ++ rest).dropWhile p = rest := by
  rw [List.takeWhile_append_of_pos hfront, List.dropWhile_append_of_pos hfront]
  cases rest with
  | nil => simp
  | cons x rest =>
    have hx : p x = false := hrest x rfl
    simp [hx]

theorem takeWhile_append_mark [DecidableEq α] {mark : α} {front : List α}
    (hfront : mark ∉ front) (rest : List α) :
    (front ++ mark :: rest).takeWhile (· ≠ mark) = front ∧
      (front ++ mark :: rest).dropWhile (· ≠ mark) = mark :: rest := by
  apply takeWhile_append_of_stop
  · intro x hx
    have hne : x ≠ mark := fun heq => hfront (heq ▸ hx)
    simpa using hne
  · intro x hx
    obtain rfl := Option.some.inj hx
    simp

theorem rdropWhile_append (p : α → Bool) (left right : List α) :
    (left ++ right).rdropWhile p =
      if right.rdropWhile p = [] then left.rdropWhile p
      else left ++ right.rdropWhile p := by
  induction right using List.reverseRecOn with
  | nil => simp
  | append_singleton right x ih =>
    rw [← List.append_assoc]
    by_cases hx : p x
    · rw [List.rdropWhile_concat_pos _ _ _ hx,
        List.rdropWhile_concat_pos _ _ _ hx, ih]
    · rw [List.rdropWhile_concat_neg _ _ _ hx,
        List.rdropWhile_concat_neg _ _ _ hx, if_neg (by simp)]
      simp

theorem rdropWhile_append_replicate [DecidableEq α] (separator : α)
    (text : List α) :
    text.rdropWhile (· = separator) ++
      List.replicate (text.rtakeWhile (· = separator)).length separator =
      text := by
  have hall : text.rtakeWhile (· = separator) =
      List.replicate (text.rtakeWhile (· = separator)).length separator := by
    rw [List.eq_replicate_iff]
    refine ⟨rfl, fun c hc => ?_⟩
    simpa using List.mem_rtakeWhile_imp hc
  rw [← hall, List.rdropWhile_append_rtakeWhile]

theorem getLast?_rdropWhile_ne [DecidableEq α] (separator : α)
    (text : List α) :
    (text.rdropWhile (· = separator)).getLast? ≠ some separator := by
  intro hlast
  have hne : text.rdropWhile (· = separator) ≠ [] := by
    intro hnil
    simp [hnil] at hlast
  rw [List.getLast?_eq_some_getLast hne, Option.some_inj] at hlast
  exact List.rdropWhile_last_not _ _ hne (by simp [hlast])

end Bomwerk.Support
