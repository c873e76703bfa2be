import Bomwerk.Support.CDirectivePlaces

/-!
# Replacements of directives

What trimming a replacement keeps, and that a string literal on a line is read
up to its first quote exactly when no backslash takes that quote.
-/

namespace Bomwerk.Support.CDirectives

theorem trimmed_blanks {blanks : List UInt8}
    (h : ∀ character ∈ blanks, isBlank character = true) (text : List UInt8) :
    trimmed (blanks ++ text) = trimmed text := by
  rw [trimmed, List.dropWhile_append_of_pos h, trimmed]

/-- What starts and ends with no blank stays, and the blanks behind it go. -/
theorem trimmed_append {text : List UInt8} (hne : text ≠ [])
    (hfront : ∀ character ∈ text.head?, isBlank character = false)
    (hback : ∀ character ∈ text.getLast?, isBlank character = false)
    (rest : List UInt8) :
    trimmed (text ++ rest) =
      text ++ (rest.reverse.dropWhile isBlank).reverse := by
  have hkeeps : (text ++ rest).dropWhile isBlank = text ++ rest := by
    cases text with
    | nil => exact absurd rfl hne
    | cons first text => simp [hfront first rfl]
  have hend : text.reverse.dropWhile isBlank = text.reverse := by
    rcases List.eq_nil_or_concat text with rfl | ⟨front, last, rfl⟩
    · exact absurd rfl hne
    · have hlast := hback last (by simp)
      simp [hlast]
  rw [trimmed, hkeeps, List.reverse_append, List.dropWhile_append, hend]
  by_cases hrest : (rest.reverse.dropWhile isBlank).isEmpty = true
  · rw [if_pos hrest, List.isEmpty_iff.mp hrest]
    simp
  · rw [if_neg hrest]
    simp

theorem trimmed_append_eq_iff {text : List UInt8} (hne : text ≠ [])
    (hfront : ∀ character ∈ text.head?, isBlank character = false)
    (hback : ∀ character ∈ text.getLast?, isBlank character = false)
    {rest : List UInt8} :
    trimmed (text ++ rest) = text ↔
      ∀ character ∈ rest, isBlank character = true := by
  rw [trimmed_append hne hfront hback]
  simp

theorem joiner_output_held {items : List Placed}
    (h : ∀ item ∈ items, item.character ≠ newline) (state : Joining) :
    joiner.output state items ++ (joiner.after state items).held =
      state.held ++ items := by
  induction items generalizing state with
  | nil => simp [Transducer.output, Transducer.after]
  | cons item items ih =>
    have htail := ih (fun other hmem => h other (by simp [hmem]))
      (joiner.step state item).1
    rcases joiner_step state item with ⟨_, hnewline, _⟩ | ⟨_, hkept⟩
    · exact absurd hnewline (h item (by simp))
    · rw [Transducer.output, Transducer.after, List.append_assoc, htail,
        ← List.append_assoc, hkept]
      simp

theorem joiner_after_concat {items : List Placed} {item : Placed}
    (hbackslash : item.character ≠ '\\'.toUInt8)
    (hcarriage : item.character ≠ '\r'.toUInt8) (state : Joining) :
    joiner.after state (items ++ [item]) = .plain := by
  rw [joiner.after_append]
  exact joiner_step_plain _ hbackslash hcarriage

theorem joiner_after_placed {text : List UInt8}
    (h : ∀ character ∈ text.getLast?, character ≠ '\\'.toUInt8 ∧
      character ≠ '\r'.toUInt8) (offset : Nat) :
    joiner.after .plain (placed offset text) = .plain := by
  rcases List.eq_nil_or_concat text with rfl | ⟨front, last, rfl⟩
  · rfl
  · obtain ⟨hbackslash, hcarriage⟩ := h last (by simp)
    rw [List.concat_eq_append, placed_append]
    exact joiner_after_concat hbackslash hcarriage .plain

/-! ## String literals -/

/-- A literal passes on what is on its line and is not its delimiter. -/
theorem uncommenter_literal {delimiter : UInt8} {items : List Placed}
    (h : ∀ item ∈ items, item.character ≠ newline ∧
      item.character ≠ delimiter) {state : Reading}
    (hstate : state = .literal delimiter ∨ state = .escape delimiter) :
    uncommenter.output state items = items ∧
      (uncommenter.after state items = .literal delimiter ∨
        uncommenter.after state items = .escape delimiter) := by
  induction items generalizing state with
  | nil => exact ⟨rfl, hstate⟩
  | cons item items ih =>
    obtain ⟨hnewline, hdelimiter⟩ := h item (by simp)
    have htail := fun {state} => @ih
      (fun other hmem => h other (by simp [hmem])) state
    have hstep : (uncommenter.step state item).2 = [item] ∧
        ((uncommenter.step state item).1 = .literal delimiter ∨
          (uncommenter.step state item).1 = .escape delimiter) := by
      rcases hstate with rfl | rfl
      · by_cases hescape : item.character = '\\'.toUInt8
        · simp only [uncommenter, hnewline, hdelimiter, or_self, if_false,
            if_pos hescape]
          simp
        · simp [uncommenter, hnewline, hdelimiter, hescape]
      · simp [uncommenter, hnewline]
    obtain ⟨houtput, hafter⟩ := htail hstep.2
    exact ⟨by rw [Transducer.output, hstep.1, houtput]; rfl, hafter⟩

theorem output_quote {state : Reading}
    (h : state = .literal '"'.toUInt8 ∨ state = .escape '"'.toUInt8)
    (offset : Nat) :
    uncommenter.output state [⟨offset, '"'.toUInt8⟩] =
      [⟨offset, '"'.toUInt8⟩] := by
  rcases h with rfl | rfl <;> rfl

/-- A line with a text between two quotes shows it as it is. -/
theorem visibleLine_quoted {text : List UInt8}
    (h : ∀ character ∈ text, character ≠ newline ∧ character ≠ '"'.toUInt8)
    (offset : Nat) (rest : List UInt8) :
    ∃ behind, visibleLine offset
      ('"'.toUInt8 :: (text ++ '"'.toUInt8 :: rest)) =
        '"'.toUInt8 :: (text ++ '"'.toUInt8 :: behind) := by
  set literal := '"'.toUInt8 :: (text ++ ['"'.toUInt8]) with hliteral
  have hquote : '"'.toUInt8 ≠ newline := by decide
  have hline : ∀ character ∈ literal, character ≠ newline := by
    intro character hmem
    simp only [hliteral, List.mem_cons, List.mem_append, List.not_mem_nil,
      or_false] at hmem
    rcases hmem with rfl | hmem | rfl
    · exact hquote
    · exact (h character hmem).1
    · exact hquote
  have hlines : ∀ item ∈ placed offset literal, item.character ≠ newline :=
    fun item hmem => hline _ (mem_placed_character hmem)
  have hafter : joiner.after .plain (placed offset literal) = .plain := by
    apply joiner_after_placed
    intro character hlast
    rw [hliteral, ← List.cons_append, List.getLast?_concat] at hlast
    obtain rfl := Option.some.inj hlast
    exact ⟨by decide, by decide⟩
  have hjoined : joiner.output .plain (placed offset literal) =
      placed offset literal := by
    have hheld := joiner_output_held hlines .plain
    rw [hafter] at hheld
    simpa [Joining.held] using hheld
  have htext : ∀ item ∈ placed (offset + 1) text,
      item.character ≠ newline ∧ item.character ≠ '"'.toUInt8 :=
    fun item hmem => h _ (mem_placed_character hmem)
  obtain ⟨houtput, hstate⟩ :=
    uncommenter_literal htext (Or.inl (Eq.refl (Reading.literal '"'.toUInt8)))
  have hshown : uncommenter.output .code (placed offset literal) =
      placed offset literal := by
    rw [hliteral, placed, placed_append]
    have hstart : uncommenter.step .code ⟨offset, '"'.toUInt8⟩ =
        (.literal '"'.toUInt8, [⟨offset, '"'.toUInt8⟩]) := rfl
    rw [Transducer.output, hstart, uncommenter.output_append, houtput]
    simp only [placed]
    rw [output_quote hstate]
    rfl
  have hsplit : '"'.toUInt8 :: (text ++ '"'.toUInt8 :: rest) =
      literal ++ rest := by
    simp [hliteral]
  have hkeeps : ∀ item ∈ placed offset literal,
      decide (item.character ≠ newline) = true := by
    intro item hmem
    simpa using hlines item hmem
  rw [hsplit, visibleLine, placed_append, joiner.run_append, hjoined, hafter,
    uncommenter.run_append, hshown, List.takeWhile_append_of_pos hkeeps]
  simp only [characters, List.map_append]
  rw [← characters, characters_placed]
  exact ⟨_, by rw [hliteral]; simp; rfl⟩

/-- A literal ends at the first quote exactly when no backslash takes it. -/
theorem literalText_eq_iff {text : List UInt8} (h : '"'.toUInt8 ∉ text)
    (rest : List UInt8) :
    literalText (text ++ '"'.toUInt8 :: rest) = some text ↔
      EscapesPaired text := by
  induction text using EscapesPaired.induct with
  | case1 => cases rest <;> simp [literalText, EscapesPaired]
  | case2 character =>
    have hquote : character ≠ '"'.toUInt8 := by
      rintro rfl
      exact h (by simp)
    have hrest : literalText ('"'.toUInt8 :: rest) = some [] := by
      cases rest <;> simp [literalText]
    by_cases hescape : character = '\\'.toUInt8
    · rw [List.singleton_append, literalText, if_neg hquote, if_pos hescape]
      simp [EscapesPaired, hescape]
    · rw [List.singleton_append, literalText, if_neg hquote,
        if_neg hescape, hrest]
      simp [EscapesPaired, hescape]
  | case3 next text ih =>
    have hne : '\\'.toUInt8 ≠ '"'.toUInt8 := by decide
    have htail := ih fun hmem => h (by simp [hmem])
    rw [List.cons_append, List.cons_append, literalText, if_neg hne,
      if_pos rfl, EscapesPaired, if_pos rfl, ← htail]
    simp
  | case4 character next text hescape ih =>
    have hquote : character ≠ '"'.toUInt8 := by
      rintro rfl
      exact h (by simp)
    have htail := ih fun hmem => h (by simp [hmem])
    rw [List.cons_append, List.cons_append, literalText, if_neg hquote,
      if_neg hescape, EscapesPaired, if_neg hescape, ← htail]
    simp

end Bomwerk.Support.CDirectives
