import CNear.Lib.Allocator

/-! Programs that allocate and free. A run either halts at an access, a free or a turn that it
has no right to, or ends with a value. `Owns` counts blocks: what a program is handed, and what
it hands on with each of its values; nothing in between is lost or freed twice. -/

/-- Every request to come is granted. -/
def Answers.Plenty (answers : Answers) : Prop := ∀ i, answers i = true

theorem Answers.Plenty.drop {answers : Answers} (plenty : answers.Plenty) (count : Nat) :
    (answers.drop count).Plenty := fun i => plenty (count + i)

/-- Why a run goes no further. -/
inductive Halt where
  | read
  | write
  | free
  | turns
  deriving DecidableEq

/-- The answers to the requests to come, and the number of blocks in use. -/
structure Heap where
  answers : Answers
  live : Nat

abbrev Run (α : Type) := StateT Heap (Except Halt) α

namespace Run
variable {α β : Type}

/-- A request; whether it was granted. -/
def allocate : Run Bool := fun heap =>
  if heap.answers 0 then .ok (true, ⟨heap.answers.drop 1, heap.live + 1⟩)
  else .ok (false, ⟨heap.answers.drop 1, heap.live⟩)

/-- A request for another size of a block in use, which stays in use either way. -/
def reallocate : Run Bool := fun heap =>
  if 1 ≤ heap.live then .ok (heap.answers 0, ⟨heap.answers.drop 1, heap.live⟩) else .error .free

/-- `count` blocks are freed. -/
def release (count : Nat) : Run Unit := fun heap =>
  if count ≤ heap.live then .ok ((), ⟨heap.answers, heap.live - count⟩) else .error .free

/-- A computation that does not touch the heap. -/
def lift (value : Except Halt α) : Run α := fun heap => value.map fun value => (value, heap)

theorem pure_apply (value : α) (heap : Heap) : (pure value : Run α) heap = .ok (value, heap) := rfl

theorem bind_apply {first : Run α} {next : α → Run β} {heap after : Heap} {value : α}
    (ran : first heap = .ok (value, after)) : (first >>= next) heap = next value after := by
  change (first heap >>= fun pair => next pair.1 pair.2) = _
  rw [ran]
  rfl

theorem lift_bind (value : α) (next : α → Run β) : (lift (.ok value) >>= next) = next value := rfl

/-! ## Ownership -/

/-- Handed `before` blocks, the program ends with a value that `post` holds of, and hands on
`after` blocks with it. -/
def Owns (before : Nat) (program : Run α) (after : α → Nat) (post : α → Prop) : Prop :=
  ∀ heap : Heap, before ≤ heap.live → ∃ value final, program heap = .ok (value, final) ∧
    post value ∧ final.live + before = heap.live + after value

section Owns
variable {before : Nat} {program : Run α} {after : α → Nat} {post : α → Prop}

theorem owns_pure {value : α} (holds : post value) (count : after value = before) :
    Owns before (pure value) after post := by
  intro heap _
  exact ⟨value, heap, rfl, holds, by rw [count]⟩

theorem owns_allocate :
    Owns 0 allocate (fun granted => if granted then 1 else 0) fun _ => True := by
  intro heap _
  cases answer : heap.answers 0 with
  | true => exact ⟨true, _, if_pos answer, trivial, rfl⟩
  | false => exact ⟨false, _, if_neg (by simp [answer]), trivial, rfl⟩

theorem owns_reallocate : Owns 1 reallocate (fun _ => 1) fun _ => True :=
  fun _ enough => ⟨_, _, if_pos enough, trivial, rfl⟩

theorem owns_release (count : Nat) : Owns count (release count) (fun _ => 0) fun _ => True := by
  intro heap enough
  refine ⟨(), _, if_pos enough, trivial, ?_⟩
  change heap.live - count + count = heap.live + 0
  omega

/-- What is left of the heap is enough for what follows. -/
theorem Owns.room (owns : Owns before program after post) {heap final : Heap} {value : α}
    (enough : before ≤ heap.live) (ran : program heap = .ok (value, final)) :
    after value ≤ final.live := by
  obtain ⟨value', final', ran', -, count⟩ := owns heap enough
  rw [ran] at ran'
  cases ran'
  omega

theorem Owns.bind {next : α → Run β} {last : β → Nat} {goal : β → Prop}
    (head : Owns before program after post)
    (tail : ∀ value, post value → Owns (after value) (next value) last goal) :
    Owns before (program >>= next) last goal := by
  intro heap enough
  obtain ⟨value, between, ran, holds, count⟩ := head heap enough
  obtain ⟨result, final, ended, goal, total⟩ := tail value holds between (by omega)
  refine ⟨result, final, ?_, goal, by omega⟩
  rw [bind_apply ran]
  exact ended

/-- Blocks that a program is not handed stay as they are. -/
theorem Owns.beside (owns : Owns 0 program after post) (others : Nat) :
    Owns others program (fun value => others + after value) post := by
  intro heap _
  obtain ⟨value, final, ran, holds, count⟩ := owns heap (Nat.zero_le _)
  refine ⟨value, final, ran, holds, ?_⟩
  change final.live + others = heap.live + (others + after value)
  omega

theorem Owns.weaken {goal : α → Prop} (owns : Owns before program after post)
    (implies : ∀ value, post value → goal value) : Owns before program after goal := by
  intro heap enough
  obtain ⟨value, final, ran, holds, count⟩ := owns heap enough
  exact ⟨value, final, ran, implies value holds, count⟩

theorem owns_release_then {value : α} (holds : post value) (none : after value = 0) :
    Owns before (release before >>= fun _ => pure value) after post :=
  (owns_release before).bind fun _ _ => owns_pure holds none

end Owns

/-! ## Requests -/

/-- The program ends with this value, whatever the answers. -/
def Ends (before : Nat) (program : Run α) (value : α) : Prop :=
  ∀ heap : Heap, before ≤ heap.live → ∃ final, program heap = .ok (value, final)

theorem ends_pure (before : Nat) (value : α) : Ends before (pure value) value :=
  fun heap _ => ⟨heap, rfl⟩

theorem ends_release_then (count : Nat) (value : α) :
    Ends count (release count >>= fun _ => pure value) value :=
  fun _ enough => ⟨_, bind_apply (if_pos enough)⟩

/-- With the next `count` requests granted the program ends with `value`, and otherwise with
`otherwise`. -/
structure Takes (before : Nat) (program : Run α) (count : Nat) (value otherwise : α) : Prop where
  granted : ∀ heap : Heap, before ≤ heap.live → heap.answers.Grants count →
    ∃ final, program heap = .ok (value, final) ∧ final.answers = heap.answers.drop count
  refused : ∀ heap : Heap, before ≤ heap.live → ¬ heap.answers.Grants count →
    ∃ final, program heap = .ok (otherwise, final)

theorem takes_pure (before : Nat) (value otherwise : α) :
    Takes before (pure value) 0 value otherwise where
  granted := by
    intro heap _ _
    exact ⟨heap, rfl, (Answers.drop_zero _).symm⟩
  refused := by
    intro heap _ refused
    exact absurd (fun i bound => absurd bound (Nat.not_lt_zero i)) refused

/-- Blocks beside those that it is handed. -/
theorem Takes.beside {count : Nat} {program : Run α} {value otherwise : α}
    (takes : Takes 0 program count value otherwise) (others : Nat) :
    Takes others program count value otherwise where
  granted := fun heap _ => takes.granted heap (Nat.zero_le _)
  refused := fun heap _ => takes.refused heap (Nat.zero_le _)

theorem takes_allocate : Takes 0 allocate 1 true false where
  granted := by
    intro heap _ grants
    exact ⟨_, if_pos (grants 0 (by decide)), rfl⟩
  refused := by
    intro heap _ refused
    have no : ¬ heap.answers 0 = true := by
      intro yes
      apply refused
      intro i bound
      obtain rfl : i = 0 := by omega
      exact yes
    exact ⟨_, if_neg no⟩

/-- A program that stops at a refusal goes on after the requests that were granted. -/
theorem Takes.bind {before m n : Nat} {first : Run α} {next : α → Run β} {middle : α → Nat}
    {post : α → Prop} {good bad : α} {value otherwise : β} (owns : Owns before first middle post)
    (head : Takes before first m good bad)
    (tail : Takes (middle good) (next good) n value otherwise)
    (stop : Ends (middle bad) (next bad) otherwise) :
    Takes before (first >>= next) (m + n) value otherwise where
  granted := by
    intro heap enough grants
    obtain ⟨early, late⟩ := (heap.answers.grants_add m n).mp grants
    obtain ⟨between, ran, rest⟩ := head.granted heap enough early
    have room := owns.room enough ran
    obtain ⟨final, ended, answers⟩ := tail.granted between room (by rw [rest]; exact late)
    refine ⟨final, ?_, ?_⟩
    · rw [bind_apply ran]
      exact ended
    · rw [answers, rest, Answers.drop_drop]
  refused := by
    intro heap enough refused
    by_cases early : heap.answers.Grants m
    · obtain ⟨between, ran, rest⟩ := head.granted heap enough early
      have late : ¬ between.answers.Grants n := by
        intro late
        rw [rest] at late
        exact refused ((heap.answers.grants_add m n).mpr ⟨early, late⟩)
      have room := owns.room enough ran
      rw [bind_apply ran]
      exact tail.refused between room late
    · obtain ⟨between, ran⟩ := head.refused heap enough early
      have room := owns.room enough ran
      rw [bind_apply ran]
      exact stop between room

/-- What comes of a program, and how many blocks are in use behind it. -/
theorem Takes.outcome {before count : Nat} {program : Run α} {after : α → Nat} {post : α → Prop}
    {good bad : α} (owns : Owns before program after post)
    (takes : Takes before program count good bad) (heap : Heap) (enough : before ≤ heap.live) :
    ∃ value final, program heap = .ok (value, final) ∧
      (heap.answers.Grants count → value = good ∧ final.live + before = heap.live + after good) ∧
      (¬ heap.answers.Grants count → value = bad ∧ final.live + before = heap.live + after bad) := by
  obtain ⟨value, final, ran, -, live⟩ := owns heap enough
  refine ⟨value, final, ran, ?_, ?_⟩
  · intro grants
    obtain ⟨final', ran', -⟩ := takes.granted heap enough grants
    rw [ran] at ran'
    cases ran'
    exact ⟨rfl, live⟩
  · intro refused
    obtain ⟨final', ran'⟩ := takes.refused heap enough refused
    rw [ran] at ran'
    cases ran'
    exact ⟨rfl, live⟩

/-! ## Enough memory -/

/-- Answers of this kind begin with a granted one and go on in the same way. -/
def Generous (supply : Answers → Prop) : Prop :=
  ∀ answers, supply answers → answers 0 = true ∧ supply (answers.drop 1)

theorem generous_plenty : Generous Answers.Plenty :=
  fun _ plenty => ⟨plenty 0, plenty.drop 1⟩

/-- With answers of this kind the program ends with a value that `good` holds of. -/
def Thrives (supply : Answers → Prop) (before : Nat) (program : Run α) (good : α → Prop) : Prop :=
  ∀ heap : Heap, before ≤ heap.live → supply heap.answers → ∃ value final,
    program heap = .ok (value, final) ∧ good value ∧ supply final.answers

section Thrives
variable {supply : Answers → Prop} {before : Nat} {program : Run α} {good : α → Prop}

theorem thrives_pure {value : α} (holds : good value) :
    Thrives supply before (pure value) good :=
  fun heap _ supplied => ⟨value, heap, rfl, holds, supplied⟩

theorem thrives_allocate (generous : Generous supply) :
    Thrives supply 0 allocate fun granted => granted = true := by
  intro heap _ supplied
  obtain ⟨first, rest⟩ := generous heap.answers supplied
  exact ⟨true, _, if_pos first, rfl, rest⟩

theorem thrives_reallocate (generous : Generous supply) :
    Thrives supply 1 reallocate fun granted => granted = true := by
  intro heap enough supplied
  obtain ⟨first, rest⟩ := generous heap.answers supplied
  exact ⟨_, _, if_pos enough, first, rest⟩

theorem Thrives.bind {after : α → Nat} {post : α → Prop} {next : α → Run β} {goal : β → Prop}
    (owns : Owns before program after post) (head : Thrives supply before program good)
    (tail : ∀ value, post value → good value → Thrives supply (after value) (next value) goal) :
    Thrives supply before (program >>= next) goal := by
  intro heap enough supplied
  obtain ⟨value, between, ran, holds, more⟩ := head heap enough supplied
  obtain ⟨value', between', ran', fact, -⟩ := owns heap enough
  have same := ran.symm.trans ran'
  cases same
  obtain ⟨result, final, ended, goal, rest⟩ := tail value fact holds between (owns.room enough ran) more
  refine ⟨result, final, ?_, goal, rest⟩
  rw [bind_apply ran]
  exact ended

end Thrives

end Run
