import Mathlib.Data.List.Basic

/-!
# Computations with a trace

A computation that leaves a list of events beside its value.  What a program
does on the way, and not only what it answers, is then a statement about lists:
which events occur at all, and that the value is the one of the program without
a trace.
-/

namespace Bomwerk.Support

/-- A value, and the events on the way to it. -/
structure Traced (ε α : Type) where
  value : α
  events : List ε

namespace Traced

variable {ε α β γ : Type}

instance : Monad (Traced ε) where
  pure value := ⟨value, []⟩
  bind run next :=
    ⟨(next run.value).value, run.events ++ (next run.value).events⟩

def emit (event : ε) : Traced ε Unit := ⟨(), [event]⟩

/-- Every event is allowed, and the value is as promised. -/
structure Ensures (P : ε → Prop) (Q : α → Prop) (run : Traced ε α) : Prop where
  allowed : ∀ event ∈ run.events, P event
  promised : Q run.value

variable {P : ε → Prop} {Q : α → Prop} {R : β → Prop}

theorem ensures_pure {value : α} (hvalue : Q value) :
    (pure value : Traced ε α).Ensures P Q := by
  constructor
  · intro event hevent
    exact absurd hevent List.not_mem_nil
  · exact hvalue

theorem ensures_emit {event : ε} {Q : Unit → Prop} (hevent : P event)
    (hvalue : Q ()) : (emit event).Ensures P Q := by
  constructor
  · intro other hother
    rwa [List.mem_singleton.mp hother]
  · exact hvalue

theorem Ensures.imp {run : Traced ε α} {weaker : α → Prop}
    (hrun : run.Ensures P Q) (hweaker : ∀ value, Q value → weaker value) :
    run.Ensures P weaker :=
  ⟨hrun.allowed, hweaker _ hrun.promised⟩

theorem ensures_bind {run : Traced ε α} {next : α → Traced ε β}
    (hrun : run.Ensures P Q) (hnext : ∀ value, Q value → (next value).Ensures P R) :
    (run >>= next).Ensures P R := by
  obtain ⟨hevents, hvalue⟩ := hnext run.value hrun.promised
  constructor
  · intro event hevent
    rcases List.mem_append.mp hevent with hrunEvent | hnextEvent
    · exact hrun.allowed event hrunEvent
    · exact hevents event hnextEvent
  · exact hvalue

theorem ensures_emit_bind {event : ε} {next : Unit → Traced ε β}
    (hevent : P event) (hnext : (next ()).Ensures P R) :
    (emit event >>= next).Ensures P R := by
  apply ensures_bind (ensures_emit (Q := fun _ => True) hevent trivial)
  rintro ⟨⟩ -
  exact hnext

theorem ensures_bind_option {run : Traced ε (Option α)} {expected : Option γ}
    {related : α → γ → Prop} {next : Option α → Traced ε β}
    (hrun : run.Ensures P (Option.Rel related · expected))
    (hnone : expected = none → (next none).Ensures P R)
    (hsome : ∀ value other, expected = some other → related value other →
      (next (some value)).Ensures P R) :
    (run >>= next).Ensures P R := by
  apply ensures_bind hrun
  intro found hfound
  cases hfound with
  | none => exact hnone rfl
  | some hrelated => exact hsome _ _ rfl hrelated

/-- A loop over values, its answers in order. -/
def forEach (values : List β) (body : β → Traced ε α) : Traced ε (List α) :=
  match values with
  | [] => pure []
  | value :: values => do
      let answer ← body value
      let answers ← forEach values body
      pure (answer :: answers)

/-- A loop over values up to the first answer. -/
def findSome (values : List β) (body : β → Traced ε (Option α)) :
    Traced ε (Option α) :=
  match values with
  | [] => pure none
  | value :: values => do
      match ← body value with
      | some answer => pure (some answer)
      | none => findSome values body

theorem ensures_forEach {values : List β} {body : β → Traced ε α}
    {answer : β → α}
    (hbody : ∀ value ∈ values, (body value).Ensures P (· = answer value)) :
    (forEach values body).Ensures P (· = values.map answer) := by
  induction values with
  | nil => exact ensures_pure rfl
  | cons value values ih =>
    rw [forEach]
    apply ensures_bind (hbody value List.mem_cons_self)
    rintro _ rfl
    have hrest := ih fun other hother =>
      hbody other (List.mem_cons_of_mem _ hother)
    apply ensures_bind hrest
    rintro _ rfl
    exact ensures_pure rfl

theorem ensures_findSome {values : List β} {body : β → Traced ε (Option α)}
    {answer : β → Option γ} {related : α → γ → Prop}
    (hbody : ∀ value ∈ values,
      (body value).Ensures P (Option.Rel related · (answer value))) :
    (findSome values body).Ensures P
      (Option.Rel related · (values.findSome? answer)) := by
  induction values with
  | nil => exact ensures_pure Option.Rel.none
  | cons value values ih =>
    rw [findSome, List.findSome?_cons]
    apply ensures_bind (hbody value List.mem_cons_self)
    intro found hfound
    have hrest := ih fun other hother =>
      hbody other (List.mem_cons_of_mem _ hother)
    generalize answer value = expected at hfound
    cases hfound with
    | none => exact hrest
    | some hrelated => exact ensures_pure (Option.Rel.some hrelated)

end Traced

end Bomwerk.Support
