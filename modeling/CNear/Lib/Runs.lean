import Mathlib.Data.List.Basic

/-! Runs of a transition system whose steps carry labels, with what can be said of the labels
up to now: that each met a condition on those before it, or that something happened and
nothing has undone it since. -/

namespace CNear.Runs
variable {State Label : Type*}

/-- The states that a run from `start` can be in, with the labels of its steps so far. -/
inductive Reaches (step : State → Label → State → Prop) (start : State) :
    List Label → State → Prop
  | start : Reaches step start [] start
  | next {history : List Label} {label : Label} {before after : State}
      (earlier : Reaches step start history before) (taken : step before label after) :
      Reaches step start (history ++ [label]) after

namespace Reaches
variable {step : State → Label → State → Prop} {start : State}

/-- The invariant may speak of the labels so far. -/
theorem invariant {holds : List Label → State → Prop} (initial : holds [] start)
    (kept : ∀ history before label after, holds history before → step before label after →
      holds (history ++ [label]) after)
    {history : List Label} {state : State} (run : Reaches step start history state) :
    holds history state := by
  induction run with
  | start => exact initial
  | next earlier taken ih => exact kept _ _ _ _ ih taken

end Reaches

/-! ## The labels so far -/

/-- Every label meets the condition, which may speak of the labels before it. -/
def Each (condition : List Label → Label → Prop) (history : List Label) : Prop :=
  ∀ before label after, history = before ++ label :: after → condition before label

/-- Some label was an `event`, and all later ones were `quiet`. -/
def Since (event quiet : Label → Prop) (history : List Label) : Prop :=
  ∃ before label after, history = before ++ label :: after ∧ event label ∧
    ∀ later ∈ after, quiet later

/-- A label of a longer history is the new one or was there before. -/
theorem split_concat {history before after : List Label} {label last : Label} :
    history ++ [last] = before ++ label :: after ↔
      (history = before ∧ last = label ∧ after = []) ∨
        ∃ rest, after = rest ++ [last] ∧ history = before ++ label :: rest := by
  constructor
  · intro same
    rcases List.eq_nil_or_concat after with rfl | ⟨rest, other, rfl⟩
    · left
      obtain ⟨front, back⟩ := List.append_inj' same rfl
      exact ⟨front, (List.cons.inj back).1, rfl⟩
    · right
      rw [List.concat_eq_append, ← List.cons_append, ← List.append_assoc] at same
      obtain ⟨front, back⟩ := List.append_inj' same rfl
      obtain rfl := (List.cons.inj back).1
      exact ⟨rest, List.concat_eq_append, front⟩
  · intro ways
    rcases ways with ⟨rfl, rfl, rfl⟩ | ⟨rest, rfl, rfl⟩
    · rfl
    · simp

theorem each_nil (condition : List Label → Label → Prop) : Each condition [] := by
  intro before label after same
  simp at same

theorem each_concat {condition : List Label → Label → Prop} {history : List Label}
    {last : Label} :
    Each condition (history ++ [last]) ↔ Each condition history ∧ condition history last := by
  constructor
  · intro all
    refine ⟨?_, all history last [] rfl⟩
    intro before label after same
    exact all before label (after ++ [last]) (split_concat.mpr (Or.inr ⟨after, rfl, same⟩))
  · rintro ⟨earlier, new⟩ before label after same
    rcases split_concat.mp same with ⟨rfl, rfl, -⟩ | ⟨rest, -, split⟩
    · exact new
    · exact earlier before label rest split

theorem since_concat {event quiet : Label → Prop} {history : List Label} {last : Label} :
    Since event quiet (history ++ [last]) ↔
      event last ∨ (Since event quiet history ∧ quiet last) := by
  constructor
  · intro since
    obtain ⟨before, label, after, same, happened, silent⟩ := since
    rcases split_concat.mp same with ⟨-, rfl, -⟩ | ⟨rest, rfl, split⟩
    · exact Or.inl happened
    · right
      refine ⟨⟨before, label, rest, split, happened, ?_⟩, silent last (by simp)⟩
      intro later member
      exact silent later (List.mem_append_left [last] member)
  · intro ways
    rcases ways with happened | ⟨⟨before, label, after, same, happened, silent⟩, still⟩
    · exact ⟨history, last, [], rfl, happened, by simp⟩
    · refine ⟨before, label, after ++ [last], split_concat.mpr (Or.inr ⟨after, rfl, same⟩),
        happened, ?_⟩
      intro later member
      rcases List.mem_append.mp member with earlier | new
      · exact silent later earlier
      · rw [List.mem_singleton.mp new]
        exact still

/-- A weaker event and a weaker silence. -/
theorem Since.mono {event quiet event' quiet' : Label → Prop} {history : List Label}
    (since : Since event quiet history) (weaker : ∀ label, event label → event' label)
    (quieter : ∀ label, quiet label → quiet' label) : Since event' quiet' history := by
  obtain ⟨before, label, after, same, happened, silent⟩ := since
  exact ⟨before, label, after, same, weaker label happened,
    fun later member => quieter later (silent later member)⟩

/-! ## Loops that count -/

/-- What holds before each turn of a loop holds after the last one. -/
theorem fold_invariant {α : Type} (holds : Nat → α → Prop) {n : Nat}
    {f : (i : Nat) → i < n → α → α} {init : α} (start : holds 0 init)
    (turn : ∀ i bound a, holds i a → holds (i + 1) (f i bound a)) : holds n (Nat.fold n f init) := by
  induction n with
  | zero => exact start
  | succ n ih =>
    rw [Nat.fold_succ]
    exact turn n (Nat.lt_succ_self n) _ (ih fun i bound a => turn i (Nat.lt_succ_of_lt bound) a)

end CNear.Runs
