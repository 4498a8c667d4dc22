import CNear.Lib.Runs
import CNear.Lib.SecureHash
import CNear.Sha2

/-! The transform keeps sixteen words of the schedule, each in the place of the one that it no longer
needs; unrolled or not, it is the compression of the standard. -/

namespace CNear.Sha2

/-- The algorithm of a variant: its functions, its constants, and a counter of bits as wide as the
length field. -/
structure Conforms (v : Algorithm) (f : SecureHash.Variant v.wordBytes) where
  total : v.Count → Nat
  rounds : v.rounds = f.rounds
  bigSigma0 : ∀ x, v.bigSigma0 x = f.bigSigma0 x
  bigSigma1 : ∀ x, v.bigSigma1 x = f.bigSigma1 x
  smallSigma0 : ∀ x, v.smallSigma0 x = f.smallSigma0 x
  smallSigma1 : ∀ x, v.smallSigma1 x = f.smallSigma1 x
  k : ∀ (t : Nat) (bound : t < v.rounds), v.k[t] = SecureHash.roundConstant v.wordBytes t
  initial : ∀ (i : Nat) (bound : i < 8), v.initial[i] = SecureHash.initialWord v.wordBytes i
  reverse : ∀ bytes : List UInt8, bytes.length = v.wordBytes →
    v.reverse (BitVec.ofNat _ (LittleEndian.value bytes)) =
      BitVec.ofNat _ (LittleEndian.value bytes.reverse)
  four_le : 4 ≤ v.wordBytes
  wordBytes_dvd : v.wordBytes ∣ 2 ^ 56
  total_lt : ∀ count, total count < 2 ^ (16 * v.wordBytes)
  total_zero : total v.zero = 0
  total_add : ∀ count bits, bits < 2 ^ 64 →
    total (v.add count bits) = (total count + bits) % 2 ^ (16 * v.wordBytes)
  low : ∀ count, v.low count = total count % 2 ^ 64
  lengthWords : ∀ count, v.lengthWords count =
    (BitVec.ofNat _ (total count / 2 ^ (8 * v.wordBytes)), BitVec.ofNat _ (total count))

section Cells
variable {v : Algorithm}

theorem masked (i : Nat) : i &&& 0x0f = i % 16 := Nat.and_two_pow_sub_one_eq_mod i 4

theorem cell_congr (w : Vector v.Word 16) {i j : Nat} (same : i % 16 = j % 16) :
    cell v w i = cell v w j := by
  simp only [cell, masked, same]

theorem cell_small (w : Vector v.Word 16) {i : Nat} (small : i < 16) : cell v w i = w[i] := by
  simp only [cell, masked, Nat.mod_eq_of_lt small]
  rfl

theorem cell_setCell (w : Vector v.Word 16) (i j : Nat) (word : v.Word) :
    cell v (setCell v w i word) j = if i % 16 = j % 16 then word else cell v w j := by
  simp only [cell, setCell, masked]
  exact Vector.getElem_set _ _

end Cells

/-! ## Rounds -/

namespace Registers

def toVariables {wordBytes : Nat} (r : Registers (8 * wordBytes)) : SecureHash.Variables wordBytes :=
  ⟨r.a, r.b, r.c, r.d, r.e, r.f, r.g, r.h⟩

end Registers

def toVariables {v : Algorithm} (state : Vector v.Word 8) : SecureHash.Variables v.wordBytes :=
  (start v state).registers.toVariables

theorem toVariables_addRegisters {v : Algorithm} (state : Vector v.Word 8)
    (r : Registers (8 * v.wordBytes)) :
    toVariables (addRegisters v state r) = (toVariables state).add r.toVariables := rfl

/-- Where a transform is before round `j`. -/
structure Before {v : Algorithm} (f : SecureHash.Variant v.wordBytes) (block : Nat → v.Word)
    (state : Vector v.Word 8) (j : Nat) (s : Working v) : Prop where
  registers : s.registers.toVariables = SecureHash.rounds f block (toVariables state) j
  /-- The last sixteen words of the schedule. -/
  words : ∀ t, t < j → j ≤ t + 16 → cell v s.w t = SecureHash.schedule f block t

section Rounds
variable {v : Algorithm} {f : SecureHash.Variant v.wordBytes} {block : Nat → v.Word}
  {state : Vector v.Word 8} {j : Nat} {s : Working v}

theorem before_start : Before f block state 0 (start v state) where
  registers := rfl
  words := fun _ below => absurd below (Nat.not_lt_zero _)

/-- A round with the next word of the schedule. -/
theorem Before.round (before : Before f block state j s) (conforms : Conforms v f)
    (bound : j < v.rounds) {word : v.Word} (scheduled : word = SecureHash.schedule f block j) :
    Before f block state (j + 1) (Sha2.round v j bound word s) where
  registers := by
    rw [SecureHash.rounds, ← before.registers, ← scheduled]
    simp only [Sha2.round, SecureHash.round, Registers.toVariables, conforms.bigSigma0,
      conforms.bigSigma1, conforms.k]
    rfl
  words := by
    intro t below recent
    simp only [Sha2.round, cell_setCell]
    split
    · have last : t = j := by omega
      rw [last, scheduled]
    · exact before.words t (by omega) (by omega)

/-- The words of the block come first. -/
theorem schedule_block {data : Vector v.Word 16} (reads : ∀ i (bound : i < 16), data[i] = block i)
    (small : j < 16) : cell v data j = SecureHash.schedule f block j := by
  rw [cell_small data small, reads j small, SecureHash.schedule, if_pos small]

/-- Four of the words that are kept make the next one. -/
theorem Before.expanded (before : Before f block state j s) (conforms : Conforms v f)
    (later : 16 ≤ j) : Sha2.expanded v s.w j = SecureHash.schedule f block j := by
  have kept (back : Nat) (positive : 0 < back) (recent : back ≤ 16) {i : Nat}
      (same : i % 16 = (j - back) % 16) :
      cell v s.w i = SecureHash.schedule f block (j - back) := by
    rw [cell_congr s.w same]
    exact before.words (j - back) (by omega) (by omega)
  rw [Sha2.expanded, kept 16 (by decide) (by decide) (by omega : j % 16 = (j - 16) % 16),
    kept 2 (by decide) (by decide) (by omega : (j + 14) % 16 = (j - 2) % 16),
    kept 7 (by decide) (by decide) (by omega : (j + 9) % 16 = (j - 7) % 16),
    kept 15 (by decide) (by decide) (by omega : (j + 1) % 16 = (j - 15) % 16),
    conforms.smallSigma0, conforms.smallSigma1]
  conv_rhs => rw [SecureHash.schedule, if_neg (Nat.not_lt.mpr later)]
  exact BitVec.add_comm _ _

/-- After all rounds the variables are added to the state. -/
theorem Before.finish (before : Before f block state v.rounds s) (conforms : Conforms v f) :
    toVariables (addRegisters v state s.registers) =
      (toVariables state).add (SecureHash.rounds f block (toVariables state) f.rounds) := by
  rw [toVariables_addRegisters, before.registers, conforms.rounds]

theorem transform_eq (conforms : Conforms v f) {data : Vector v.Word 16}
    (reads : ∀ i (bound : i < 16), data[i] = block i) :
    toVariables (transform v state data) =
      (toVariables state).add (SecureHash.rounds f block (toVariables state) f.rounds) := by
  have enough := v.enough
  have first := Runs.fold_invariant (Before f block state) before_start
    (fun j (bound : j < 16) s before => before.round conforms (bound.trans_le enough)
      (schedule_block reads bound))
  have second := Runs.fold_invariant (fun i s => Before f block state (16 + i) s) first
    (fun i (bound : i < v.rounds - 16) s before => before.round conforms
      (Nat.add_lt_of_lt_sub' bound) (before.expanded conforms (Nat.le_add_right 16 i)))
  rw [Nat.add_sub_cancel' enough] at second
  exact second.finish conforms

/-! ## Unrolled rounds -/

/-- The variables stay, and their names move on. -/
theorem round_of_unrolled {bound : j < v.rounds} {fetch : Vector v.Word 16 → Nat → v.Word}
    {w w' : Vector v.Word 16} {a b c d e f g h d' h' : v.Word}
    (unrolled : unrolledRound v j bound fetch w a b c d e f g h = (d', h', w')) :
    Sha2.round v j bound (fetch w j) ⟨⟨a, b, c, d, e, f, g, h⟩, w⟩ =
      ⟨⟨h', a, b, c, d', e, f, g⟩, w'⟩ := by
  simp only [unrolledRound, Prod.mk.injEq] at unrolled
  obtain ⟨rfl, rfl, rfl⟩ := unrolled
  simp only [Sha2.round, BitVec.add_assoc]

/-- What a call of the loop's body reads is the next word of the schedule. -/
theorem Before.unrolledRound (conforms : Conforms v f) {bound : j < v.rounds}
    {fetch : Vector v.Word 16 → Nat → v.Word} {w w' : Vector v.Word 16}
    {a b c d e g h x d' h' : v.Word}
    (before : Before f block state j ⟨⟨a, b, c, d, e, x, g, h⟩, w⟩)
    (fetched : ∀ s, Before f block state j s → fetch s.w j = SecureHash.schedule f block j)
    (unrolled : Sha2.unrolledRound v j bound fetch w a b c d e x g h = (d', h', w')) :
    Before f block state (j + 1) ⟨⟨h', a, b, c, d', e, x, g⟩, w'⟩ := by
  rw [← round_of_unrolled unrolled]
  exact before.round conforms bound (fetched _ before)

theorem Before.eightRounds (before : Before f block state j s) (conforms : Conforms v f)
    (bound : j + 8 ≤ v.rounds) {fetch : Vector v.Word 16 → Nat → v.Word}
    (fetched : ∀ i s, j ≤ i → i < j + 8 → Before f block state i s →
      fetch s.w i = SecureHash.schedule f block i) :
    Before f block state (j + 8) (Sha2.eightRounds v j bound fetch s) := by
  obtain ⟨⟨a, b, c, d, e, x, g, h⟩, w⟩ := s
  rcases first : Sha2.unrolledRound v j (by omega) fetch w a b c d e x g h with ⟨d, h, w⟩
  have before := before.unrolledRound conforms (fun s => fetched j s (by omega) (by omega)) first
  rcases second : Sha2.unrolledRound v (j + 1) (by omega) fetch w h a b c d e x g with ⟨c, g, w⟩
  have before := before.unrolledRound conforms (fun s => fetched _ s (by omega) (by omega)) second
  rcases third : Sha2.unrolledRound v (j + 2) (by omega) fetch w g h a b c d e x with ⟨b, x, w⟩
  have before := before.unrolledRound conforms (fun s => fetched _ s (by omega) (by omega)) third
  rcases fourth : Sha2.unrolledRound v (j + 3) (by omega) fetch w x g h a b c d e with ⟨a, e, w⟩
  have before := before.unrolledRound conforms (fun s => fetched _ s (by omega) (by omega)) fourth
  rcases fifth : Sha2.unrolledRound v (j + 4) (by omega) fetch w e x g h a b c d with ⟨h, d, w⟩
  have before := before.unrolledRound conforms (fun s => fetched _ s (by omega) (by omega)) fifth
  rcases sixth : Sha2.unrolledRound v (j + 5) (by omega) fetch w d e x g h a b c with ⟨g, c, w⟩
  have before := before.unrolledRound conforms (fun s => fetched _ s (by omega) (by omega)) sixth
  rcases seventh : Sha2.unrolledRound v (j + 6) (by omega) fetch w c d e x g h a b with ⟨x, b, w⟩
  have before := before.unrolledRound conforms (fun s => fetched _ s (by omega) (by omega)) seventh
  rcases eighth : Sha2.unrolledRound v (j + 7) (by omega) fetch w b c d e x g h a with ⟨e, a, w⟩
  have before := before.unrolledRound conforms (fun s => fetched _ s (by omega) (by omega)) eighth
  simp only [Sha2.eightRounds, first, second, third, fourth, fifth, sixth, seventh, eighth]
  exact before

theorem unrolledTransform_eq (conforms : Conforms v f) (whole : 8 ∣ v.rounds)
    {data : Vector v.Word 16} (reads : ∀ i (bound : i < 16), data[i] = block i) :
    toVariables (unrolledTransform v state data) =
      (toVariables state).add (SecureHash.rounds f block (toVariables state) f.rounds) := by
  have enough := v.enough
  have first : Before f block state (8 * 2) (Nat.fold 2 (fun i bound s =>
      eightRounds v (8 * i) (by omega) (fun _ j => cell v data j) s) (start v state)) := by
    refine Runs.fold_invariant (fun i s => Before f block state (8 * i) s) before_start ?_
    intro i bound s before
    exact before.eightRounds conforms (by omega)
      fun j _ low high _ => schedule_block reads (by omega : j < 16)
  have all : 16 + 8 * ((v.rounds - 16) / 8) = v.rounds := by omega
  have second : Before f block state (16 + 8 * ((v.rounds - 16) / 8))
      (Nat.fold ((v.rounds - 16) / 8) (fun i bound s =>
        eightRounds v (16 + 8 * i) (by omega) (expanded v) s) (Nat.fold 2 (fun i bound s =>
          eightRounds v (8 * i) (by omega) (fun _ j => cell v data j) s) (start v state))) := by
    refine Runs.fold_invariant (fun i s => Before f block state (16 + 8 * i) s) first ?_
    intro i bound s before
    exact before.eightRounds conforms (by omega)
      fun j s low high before => before.expanded conforms (by omega)
  rw [all] at second
  exact second.finish conforms

end Rounds

end CNear.Sha2
