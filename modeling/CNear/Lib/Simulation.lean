import Mathlib.Tactic.Common

/-! Refinement of one failing computation by another: both stop with the same error, or both
finish, in results that are related. -/

namespace Simulation
variable {ε α β γ δ ι : Type}

inductive Refines (R : α → β → Prop) : Except ε α → Except ε β → Prop where
  | ok {result : α} {spec : β} (related : R result spec) : Refines R (.ok result) (.ok spec)
  | error (e : ε) : Refines R (.error e) (.error e)

namespace Refines
variable {R : α → β → Prop} {S : γ → δ → Prop}

/-- A refinement is a refinement of what comes next. -/
theorem bind {run : Except ε α} {spec : Except ε β} {next : α → Except ε γ}
    {specNext : β → Except ε δ} (first : Refines R run spec)
    (later : ∀ result specResult, R result specResult →
      Refines S (next result) (specNext specResult)) :
    Refines S (run >>= next) (spec >>= specNext) := by
  cases first with
  | ok related => exact later _ _ related
  | error e => exact .error e

/-- A loop refines a loop when every turn does. -/
theorem foldlM {turn : α → ι → Except ε α} {specTurn : β → ι → Except ε β} (items : List ι)
    (step : ∀ item ∈ items, ∀ state spec, R state spec →
      Refines R (turn state item) (specTurn spec item))
    {state : α} {spec : β} (start : R state spec) :
    Refines R (items.foldlM turn state) (items.foldlM specTurn spec) := by
  induction items generalizing state spec with
  | nil => exact .ok start
  | cons item items ih =>
    rw [List.foldlM_cons, List.foldlM_cons]
    apply bind (step item List.mem_cons_self state spec start)
    intro next specNext related
    exact ih (fun other member => step other (List.mem_cons_of_mem _ member)) related

theorem of_ok {run : Except ε α} {result : β} (refines : Refines R run (.ok result)) :
    ∃ final, run = .ok final ∧ R final result := by
  cases refines with
  | ok related => exact ⟨_, rfl, related⟩

/-- A refinement up to equality is an equation. -/
theorem eq {run spec : Except ε α} (refines : Refines Eq run spec) : run = spec := by
  cases refines with
  | ok related => rw [related]
  | error e => rfl

end Refines

end Simulation
