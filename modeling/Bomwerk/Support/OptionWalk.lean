import Mathlib.Data.List.Basic

/-!
# Options and operands

A command line read from left to right: some tokens are options, some options
take the token behind them as their value, and what remains are operands.
-/

namespace Bomwerk.Support

variable {α : Type*} (isOption takesValue : α → Bool)

/-- The tokens that are neither options nor values. -/
def operands : List α → List α
  | [] => []
  | token :: rest =>
    if isOption token then
      if takesValue token then
        match rest with
        | [] => []
        | _ :: rest => operands rest
      else operands rest
    else token :: operands rest

/-- The tokens that are read as options. -/
def optionsOf : List α → List α
  | [] => []
  | token :: rest =>
    if isOption token then
      if takesValue token then
        match rest with
        | [] => [token]
        | _ :: rest => token :: optionsOf rest
      else token :: optionsOf rest
    else optionsOf rest

variable {isOption takesValue}

theorem operands_option_value {token value : α} {rest : List α}
    (hoption : isOption token = true) (htakes : takesValue token = true) :
    operands isOption takesValue (token :: value :: rest) =
      operands isOption takesValue rest := by
  rw [operands.eq_def]
  simp [hoption, htakes]

theorem operands_option_last {token : α} (hoption : isOption token = true) :
    operands isOption takesValue [token] = [] := by
  rw [operands.eq_def]
  by_cases htakes : takesValue token = true <;>
    simp [hoption, htakes, operands]

theorem operands_option {token : α} {rest : List α}
    (hoption : isOption token = true) (htakes : takesValue token = false) :
    operands isOption takesValue (token :: rest) =
      operands isOption takesValue rest := by
  rw [operands.eq_def]
  simp [hoption, htakes]

theorem operands_operand {token : α} {rest : List α}
    (hoption : isOption token = false) :
    operands isOption takesValue (token :: rest) =
      token :: operands isOption takesValue rest := by
  rw [operands.eq_def]
  simp [hoption]

theorem optionsOf_option_value {token value : α} {rest : List α}
    (hoption : isOption token = true) (htakes : takesValue token = true) :
    optionsOf isOption takesValue (token :: value :: rest) =
      token :: optionsOf isOption takesValue rest := by
  rw [optionsOf.eq_def]
  simp [hoption, htakes]

theorem optionsOf_option {token : α} {rest : List α}
    (hoption : isOption token = true) (htakes : takesValue token = false) :
    optionsOf isOption takesValue (token :: rest) =
      token :: optionsOf isOption takesValue rest := by
  rw [optionsOf.eq_def]
  simp [hoption, htakes]

theorem optionsOf_operand {token : α} {rest : List α}
    (hoption : isOption token = false) :
    optionsOf isOption takesValue (token :: rest) =
      optionsOf isOption takesValue rest := by
  rw [optionsOf.eq_def]
  simp [hoption]

theorem isOption_of_mem_optionsOf {token : α} :
    ∀ {tokens : List α}, token ∈ optionsOf isOption takesValue tokens →
      isOption token = true
  | [], hmem => by simp [optionsOf] at hmem
  | first :: rest, hmem => by
      rw [optionsOf.eq_def] at hmem
      by_cases hoption : isOption first = true
      · by_cases htakes : takesValue first = true
        · cases rest with
          | nil =>
            have hfirst : token = first := by
              simpa [hoption, htakes] using hmem
            rwa [hfirst]
          | cons value rest =>
            simp only [hoption, htakes, if_true, List.mem_cons] at hmem
            rcases hmem with rfl | hmem
            · exact hoption
            · exact isOption_of_mem_optionsOf hmem
        · simp only [hoption, htakes, if_true, Bool.false_eq_true, if_false,
            List.mem_cons] at hmem
          rcases hmem with rfl | hmem
          · exact hoption
          · exact isOption_of_mem_optionsOf hmem
      · simp only [hoption, Bool.false_eq_true, if_false] at hmem
        exact isOption_of_mem_optionsOf hmem

/-- Two readers that agree on every option of a line find the same operands. -/
theorem operands_congr {takesValue' : α → Bool} :
    ∀ {tokens : List α}, (∀ token ∈ optionsOf isOption takesValue tokens,
        takesValue token = takesValue' token) →
      operands isOption takesValue tokens = operands isOption takesValue' tokens
  | [], _ => by simp [operands]
  | first :: rest, hagree => by
      by_cases hoption : isOption first = true
      · cases rest with
        | nil => rw [operands_option_last hoption, operands_option_last hoption]
        | cons value rest =>
          by_cases htakes : takesValue first = true
          · rw [optionsOf_option_value hoption htakes] at hagree
            have hfirst := hagree first List.mem_cons_self
            rw [operands_option_value hoption htakes,
              operands_option_value hoption (hfirst ▸ htakes)]
            exact operands_congr fun token htoken =>
              hagree token (List.mem_cons_of_mem _ htoken)
          · have htakes' : takesValue first = false := by simpa using htakes
            rw [optionsOf_option hoption htakes'] at hagree
            have hfirst := hagree first List.mem_cons_self
            rw [operands_option hoption htakes',
              operands_option hoption (hfirst ▸ htakes')]
            exact operands_congr fun token htoken =>
              hagree token (List.mem_cons_of_mem _ htoken)
      · have hoption' : isOption first = false := by simpa using hoption
        rw [optionsOf_operand hoption'] at hagree
        rw [operands_operand hoption', operands_operand hoption',
          operands_congr hagree]

end Bomwerk.Support
