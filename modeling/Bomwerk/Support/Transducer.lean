import Mathlib.Data.List.Basic

/-!
# Transducers

A machine that reads items one by one and may put out something at each, and
something at the end.
-/

namespace Bomwerk.Support

structure Transducer (σ α β : Type*) where
  step : σ → α → σ × List β
  /-- What the machine still holds at the end. -/
  flush : σ → List β

namespace Transducer

variable {σ α β : Type*} (machine : Transducer σ α β)

def after (state : σ) : List α → σ
  | [] => state
  | item :: items => after (machine.step state item).1 items

def output (state : σ) : List α → List β
  | [] => []
  | item :: items =>
    (machine.step state item).2 ++ output (machine.step state item).1 items

def run (state : σ) (items : List α) : List β :=
  machine.output state items ++ machine.flush (machine.after state items)

theorem after_append (state : σ) (left right : List α) :
    machine.after state (left ++ right) =
      machine.after (machine.after state left) right := by
  induction left generalizing state with
  | nil => rfl
  | cons item left ih => exact ih (machine.step state item).1

theorem output_append (state : σ) (left right : List α) :
    machine.output state (left ++ right) = machine.output state left ++
        machine.output (machine.after state left) right := by
  induction left generalizing state with
  | nil => rfl
  | cons item left ih =>
    simp only [List.cons_append, output, after, ih, List.append_assoc]

theorem run_append (state : σ) (left right : List α) :
    machine.run state (left ++ right) = machine.output state left ++
        machine.run (machine.after state left) right := by
  simp only [run, output_append, after_append, List.append_assoc]

theorem run_cons (state : σ) (item : α) (items : List α) :
    machine.run state (item :: items) = (machine.step state item).2 ++
        machine.run (machine.step state item).1 items := by
  simp only [run, output, after, List.append_assoc]

/-- What holds of a state and of what was put out on the way to it. -/
theorem after_output_induction {motive : σ → List β → Prop} {state : σ}
    {items : List α} (hstart : motive state [])
    (hstep : ∀ item ∈ items, ∀ state put, motive state put →
      motive (machine.step state item).1
        (put ++ (machine.step state item).2)) :
    motive (machine.after state items) (machine.output state items) := by
  suffices hall : ∀ put state, motive state put →
      motive (machine.after state items) (put ++ machine.output state items) by
    simpa using hall [] state hstart
  clear hstart
  induction items with
  | nil =>
    intro put state hput
    simpa [after, output] using hput
  | cons item items ih =>
    intro put state hput
    have htail := ih (fun other hmem => hstep other (by simp [hmem])) _ _
      (hstep item (by simp) state put hput)
    rwa [List.append_assoc] at htail

/-- What holds of everything that a machine puts out and holds, when each step
keeps it. -/
theorem output_flush_forall (property : β → Prop) {state : σ} {items : List α}
    (hheld : ∀ held ∈ machine.flush state, property held)
    (hstep : ∀ item ∈ items, ∀ state,
      (∀ held ∈ machine.flush state, property held) →
        (∀ put ∈ (machine.step state item).2, property put) ∧
          ∀ held ∈ machine.flush (machine.step state item).1, property held) :
    (∀ put ∈ machine.output state items, property put) ∧
      ∀ held ∈ machine.flush (machine.after state items), property held := by
  apply machine.after_output_induction
    (motive := fun state put => (∀ value ∈ put, property value) ∧
      ∀ held ∈ machine.flush state, property held)
  · exact ⟨by simp, hheld⟩
  · rintro item hmem state put ⟨hput, hheld⟩
    obtain ⟨hnew, hlater⟩ := hstep item hmem state hheld
    refine ⟨?_, hlater⟩
    intro value hvalue
    rcases List.mem_append.mp hvalue with hold | hadded
    · exact hput value hold
    · exact hnew value hadded

theorem run_append_of_passes (tagged : α → List β) {state : σ}
    {items : List α} (h : ∀ item ∈ items,
      machine.step state item = (state, tagged item)) (rest : List α) :
    machine.run state (items ++ rest) =
      items.flatMap tagged ++ machine.run state rest := by
  induction items with
  | nil => rfl
  | cons item items ih =>
    have htail := ih fun other hmem => h other (by simp [hmem])
    rw [List.cons_append, run_cons, h item (by simp), htail]
    simp

end Transducer

end Bomwerk.Support
