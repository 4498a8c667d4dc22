import CNear.Lib.Allocator

/-! Appending pieces to a growing store whose every growth may be refused. A field is a
run of pieces that is left at the first reported failure; a refused piece is skipped and
reported unless it was empty. The store ends up complete exactly when no growth for a
non-empty piece was refused. -/

namespace FallibleAppend
variable {α : Type}

structure Store (α : Type) where
  data : List α
  answers : Answers

/-- One growth. The report compares the written length with the piece's, so refusing an
empty piece goes unnoticed. -/
def put (piece : List α) (store : Store α) : Bool × Store α :=
  if store.answers 0 then (true, ⟨store.data ++ piece, store.answers.drop 1⟩)
  else (piece.isEmpty, ⟨store.data, store.answers.drop 1⟩)

/-- The pieces of one field, up to the first reported failure. -/
def putField : List (List α) → Store α → Store α
  | [], store => store
  | piece :: rest, store =>
      if (put piece store).1 then putField rest (put piece store).2 else (put piece store).2

/-- Field after field, whatever the reports say. -/
def putFields (fields : List (List (List α))) (store : Store α) : Store α :=
  fields.foldl (fun store field => putField field store) store

/-- Every growth for a non-empty piece is granted. -/
def Granted (pieces : List (List α)) (answers : Answers) : Prop :=
  ∀ i piece, pieces[i]? = some piece → answers i = true ∨ piece = []

theorem granted_nil (answers : Answers) : Granted ([] : List (List α)) answers := by
  simp [Granted]

theorem granted_cons (piece : List α) (rest : List (List α)) (answers : Answers) :
    Granted (piece :: rest) answers ↔
      (answers 0 = true ∨ piece = []) ∧ Granted rest (answers.drop 1) := by
  constructor
  · intro granted
    refine ⟨granted 0 piece rfl, ?_⟩
    intro i other found
    have later := granted (i + 1) other (by simpa using found)
    rwa [Nat.add_comm] at later
  · rintro ⟨first, later⟩ i other found
    cases i with
    | zero =>
      cases found
      exact first
    | succ i =>
      have tail := later i other (by simpa using found)
      rwa [Answers.drop_apply, Nat.add_comm] at tail

theorem granted_append (first second : List (List α)) (answers : Answers) :
    Granted (first ++ second) answers ↔
      Granted first answers ∧ Granted second (answers.drop first.length) := by
  induction first generalizing answers with
  | nil => simp [granted_nil]
  | cons piece rest ih =>
    simp only [List.cons_append, granted_cons, ih, List.length_cons, Answers.drop_drop,
      Nat.add_comm 1]
    tauto

theorem put_granted {piece : List α} {store : Store α}
    (granted : store.answers 0 = true ∨ piece = []) :
    put piece store = (true, ⟨store.data ++ piece, store.answers.drop 1⟩) := by
  by_cases yes : store.answers 0 = true
  · simp [put, yes]
  · have empty : piece = [] := granted.resolve_left yes
    simp [put, yes, empty]

theorem put_refused {piece : List α} {store : Store α}
    (refused : ¬ (store.answers 0 = true ∨ piece = [])) :
    put piece store = (false, ⟨store.data, store.answers.drop 1⟩) := by
  obtain ⟨no, nonempty⟩ := not_or.mp refused
  simp [put, no, nonempty]

theorem putField_granted {pieces : List (List α)} {store : Store α}
    (granted : Granted pieces store.answers) :
    putField pieces store = ⟨store.data ++ pieces.flatten, store.answers.drop pieces.length⟩ := by
  induction pieces generalizing store with
  | nil => simp [putField]
  | cons piece rest ih =>
    obtain ⟨first, later⟩ := (granted_cons piece rest store.answers).mp granted
    have written := put_granted first
    simp only [putField, written, ↓reduceIte]
    rw [ih later]
    simp [Nat.add_comm]

/-- A field whose pieces are not all granted ends up short. -/
theorem putField_refused {pieces : List (List α)} {store : Store α}
    (refused : ¬ Granted pieces store.answers) :
    (putField pieces store).data.length < store.data.length + pieces.flatten.length := by
  induction pieces generalizing store with
  | nil => exact absurd (granted_nil _) refused
  | cons piece rest ih =>
    by_cases first : store.answers 0 = true ∨ piece = []
    · have later : ¬ Granted rest (store.answers.drop 1) := fun later =>
        refused ((granted_cons piece rest store.answers).mpr ⟨first, later⟩)
      have short : (putField rest ⟨store.data ++ piece, store.answers.drop 1⟩).data.length <
          (store.data ++ piece).length + rest.flatten.length := ih later
      simp only [putField, put_granted first, ↓reduceIte, List.flatten_cons, List.length_append]
        at short ⊢
      omega
    · have nonempty : 0 < piece.length :=
        List.length_pos_iff.mpr fun empty => first (Or.inr empty)
      simp only [putField, put_refused first, Bool.false_eq_true, ↓reduceIte, List.flatten_cons,
        List.length_append]
      omega

theorem putField_length_le (pieces : List (List α)) (store : Store α) :
    (putField pieces store).data.length ≤ store.data.length + pieces.flatten.length := by
  by_cases granted : Granted pieces store.answers
  · simp [putField_granted granted]
  · exact Nat.le_of_lt (putField_refused granted)

theorem putFields_cons (field : List (List α)) (fields : List (List (List α))) (store : Store α) :
    putFields (field :: fields) store = putFields fields (putField field store) := rfl

theorem putFields_append (first second : List (List (List α))) (store : Store α) :
    putFields (first ++ second) store = putFields second (putFields first store) :=
  List.foldl_append

theorem putFields_granted {fields : List (List (List α))} {store : Store α}
    (granted : Granted fields.flatten store.answers) :
    putFields fields store =
      ⟨store.data ++ fields.flatten.flatten, store.answers.drop fields.flatten.length⟩ := by
  induction fields generalizing store with
  | nil => simp [putFields]
  | cons field fields ih =>
    obtain ⟨first, later⟩ := (granted_append field fields.flatten store.answers).mp granted
    rw [putFields_cons, putField_granted first, ih later]
    simp

theorem putFields_length_le (fields : List (List (List α))) (store : Store α) :
    (putFields fields store).data.length ≤ store.data.length + fields.flatten.flatten.length := by
  induction fields generalizing store with
  | nil => simp [putFields]
  | cons field fields ih =>
    have head := putField_length_le field store
    have tail := ih (putField field store)
    simp only [putFields_cons, List.flatten_cons, List.flatten_append, List.length_append]
    omega

/-- Nothing that comes later makes up for a refused piece. -/
theorem putFields_refused {fields : List (List (List α))} {store : Store α}
    (refused : ¬ Granted fields.flatten store.answers) :
    (putFields fields store).data.length < store.data.length + fields.flatten.flatten.length := by
  induction fields generalizing store with
  | nil => exact absurd (granted_nil _) refused
  | cons field fields ih =>
    simp only [putFields_cons, List.flatten_cons, List.flatten_append, List.length_append]
    by_cases first : Granted field store.answers
    · have later : ¬ Granted fields.flatten (store.answers.drop field.length) := fun later =>
        refused ((granted_append field fields.flatten store.answers).mpr ⟨first, later⟩)
      have short : (putFields fields
          ⟨store.data ++ field.flatten, store.answers.drop field.length⟩).data.length <
          (store.data ++ field.flatten).length + fields.flatten.flatten.length := ih later
      rw [putField_granted first]
      simp only [List.length_append] at short
      omega
    · have head := putField_refused first
      have tail := putFields_length_le fields (putField field store)
      omega

section Realized
variable {σ β γ : Type}

/-- A program over its own state appends `fields`, seen through `view`. -/
def Appends (view : σ → Store α) (program : StateM σ β) (fields : List (List (List α))) : Prop :=
  ∀ state, view (program.run state).2 = putFields fields (view state)

variable {view : σ → Store α}

theorem Appends.bind {first : StateM σ β} {next : β → StateM σ γ}
    {fields more : List (List (List α))} (head : Appends view first fields)
    (tail : ∀ report, Appends view (next report) more) :
    Appends view (first >>= next) (fields ++ more) := by
  intro state
  rw [putFields_append, ← head state]
  exact tail (first.run state).1 (first.run state).2

theorem Appends.map {program : StateM σ β} {fields : List (List (List α))}
    (appends : Appends view program fields) (f : β → γ) :
    Appends view (program >>= fun report => pure (f report)) fields := by
  intro state
  exact appends state

end Realized

end FallibleAppend
