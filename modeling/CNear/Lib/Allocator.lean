import Mathlib.Tactic.Common

/-! Programs that ask an allocator. The allocator is a stream of answers, one for each
request; a program consumes one answer a request and stops at the first refusal that it
checks. `Needs` says what an all-or-nothing program does under every stream. -/

/-- An allocator's answers to the requests to come. -/
abbrev Answers := Nat → Bool

namespace Answers

/-- The answers that are left after `count` requests. -/
def drop (answers : Answers) (count : Nat) : Answers := fun i => answers (count + i)

@[simp] theorem drop_apply (answers : Answers) (count i : Nat) :
    answers.drop count i = answers (count + i) := rfl

@[simp] theorem drop_zero (answers : Answers) : answers.drop 0 = answers := by
  funext i
  simp

@[simp] theorem drop_drop (answers : Answers) (m n : Nat) :
    (answers.drop m).drop n = answers.drop (m + n) := by
  funext i
  simp [Nat.add_assoc]

/-- The next `count` requests are all granted. -/
def Grants (answers : Answers) (count : Nat) : Prop := ∀ i < count, answers i = true

instance (answers : Answers) (count : Nat) : Decidable (answers.Grants count) :=
  inferInstanceAs (Decidable (∀ i < count, answers i = true))

theorem grants_add (answers : Answers) (m n : Nat) :
    answers.Grants (m + n) ↔ answers.Grants m ∧ (answers.drop m).Grants n := by
  constructor
  · intro all
    exact ⟨fun i bound => all i (by omega), fun i bound => all (m + i) (by omega)⟩
  · rintro ⟨first, second⟩ i bound
    by_cases early : i < m
    · exact first i early
    · have late := second (i - m) (by omega)
      rwa [drop_apply, Nat.add_sub_cancel' (by omega)] at late

end Answers

/-- A program that may give up, together with the answers it leaves. -/
def Alloc (α : Type) := Answers → Option α × Answers

namespace Alloc
variable {α β : Type}

instance : Monad Alloc where
  pure value := fun answers => (some value, answers)
  bind first next := fun answers =>
    match first answers with
    | (none, rest) => (none, rest)
    | (some value, rest) => next value rest

/-- One request, checked. -/
def request : Alloc Unit := fun answers =>
  (if answers 0 then some () else none, answers.drop 1)

/-- Giving up without a request. -/
def fail : Alloc α := fun answers => (none, answers)

@[simp] theorem pure_apply (value : α) (answers : Answers) :
    (pure value : Alloc α) answers = (some value, answers) := rfl

theorem bind_apply (first : Alloc α) (next : α → Alloc β) (answers : Answers) :
    (first >>= next) answers =
      match first answers with
      | (none, rest) => (none, rest)
      | (some value, rest) => next value rest := rfl

/-- Exactly `count` requests lead to `value`; a refusal among them leads to nothing. -/
structure Needs (program : Alloc α) (count : Nat) (value : α) : Prop where
  granted : ∀ answers : Answers, answers.Grants count →
    program answers = (some value, answers.drop count)
  refused : ∀ answers : Answers, ¬ answers.Grants count → (program answers).1 = none

/-- The program gives up under every stream of answers. -/
def Fails (program : Alloc α) : Prop := ∀ answers, (program answers).1 = none

theorem needs_pure (value : α) : Needs (pure value) 0 value where
  granted := by
    intro answers _
    simp
  refused := by
    intro answers refused
    exact absurd (fun i bound => absurd bound (Nat.not_lt_zero i)) refused

theorem needs_request : Needs request 1 () where
  granted := by
    intro answers grants
    simp [request, grants 0 (by decide)]
  refused := by
    intro answers refused
    have first : ¬ answers 0 = true := by
      intro yes
      exact refused fun i bound => by
        obtain rfl : i = 0 := by omega
        exact yes
    simp [request, first]

/-- What follows a granted program runs on its value. -/
theorem Needs.bind_granted {first : Alloc α} {count : Nat} {middle : α}
    (needs : Needs first count middle) (next : α → Alloc β) {answers : Answers}
    (grants : answers.Grants count) :
    (first >>= next) answers = next middle (answers.drop count) := by
  rw [bind_apply, needs.granted answers grants]

/-- After a refusal nothing follows. -/
theorem Needs.bind_refused {first : Alloc α} {count : Nat} {middle : α}
    (needs : Needs first count middle) (next : α → Alloc β) {answers : Answers}
    (refused : ¬ answers.Grants count) : ((first >>= next) answers).1 = none := by
  have stopped := needs.refused answers refused
  rw [bind_apply]
  rcases run : first answers with ⟨outcome, rest⟩
  rw [run] at stopped
  cases stopped
  rfl

theorem Needs.bind {first : Alloc α} {next : α → Alloc β} {m n : Nat} {middle : α} {value : β}
    (left : Needs first m middle) (right : Needs (next middle) n value) :
    Needs (first >>= next) (m + n) value where
  granted := by
    intro answers grants
    obtain ⟨early, late⟩ := (answers.grants_add m n).mp grants
    rw [left.bind_granted next early, right.granted _ late, Answers.drop_drop]
  refused := by
    intro answers refused
    by_cases early : answers.Grants m
    · have late : ¬ (answers.drop m).Grants n := fun late =>
        refused ((answers.grants_add m n).mpr ⟨early, late⟩)
      rw [left.bind_granted next early]
      exact right.refused _ late
    · exact left.bind_refused next early

theorem fails_fail : Fails (fail : Alloc α) := fun _ => rfl

theorem Fails.bind {first : Alloc α} (stops : Fails first) (next : α → Alloc β) :
    Fails (first >>= next) := by
  intro answers
  have stopped := stops answers
  rw [bind_apply]
  rcases run : first answers with ⟨outcome, rest⟩
  rw [run] at stopped
  cases stopped
  rfl

/-- What comes after a program that may give up fails, so the whole does. -/
theorem Fails.after {next : α → Alloc β} (stops : ∀ value, Fails (next value))
    (first : Alloc α) : Fails (first >>= next) := by
  intro answers
  rw [bind_apply]
  rcases first answers with ⟨outcome, rest⟩
  cases outcome with
  | none => rfl
  | some value => exact stops value rest

end Alloc
