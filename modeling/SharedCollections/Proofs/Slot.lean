import Mathlib.Data.Nat.Bitwise
import SharedCollections.Slot
/-!
# Reading slots

What the steps of writers, takers and readers do to the flags of a slot and to its count of readers.
The flags are the lowest two bits of the word, and the count is what stands above them.
-/

namespace SharedCollections.Slot

theorem markWritten_empty : empty.markWritten = written := by decide

theorem isWritten_written : written.isWritten = true := by decide

theorem isRead_written : written.isRead = false := by decide

theorem isTaken_written : written.isTaken = false := by decide

variable (s : Slot)

/-- A word with one bit left is zero unless the bit is set. -/
theorem and_ne_zero (w : UInt64) (flag : UInt64) {i : Nat} (bit : flag.toNat = 2 ^ i) :
    (w &&& flag != 0) = w.toNat.testBit i := by
  have zero : (w &&& flag = 0) ↔ w.toNat &&& flag.toNat = 0 := by
    rw [← UInt64.toNat_inj, UInt64.toNat_and]
    rfl
  rw [Bool.eq_iff_iff, bne_iff_ne, ne_eq, zero, bit, Nat.and_two_pow]
  cases w.toNat.testBit i <;> simp

theorem isWritten_eq : s.isWritten = s.word.toNat.testBit 0 := and_ne_zero _ _ (by decide)

theorem isTaken_eq : s.isTaken = s.word.toNat.testBit 1 := and_ne_zero _ _ (by decide)

theorem isRead_iff : s.isRead = true ↔ 0 < s.readers := by
  rw [isRead, decide_eq_true_iff, UInt64.le_iff_toNat_le, readers]
  change 4 ≤ _ ↔ 0 < _ / 4
  omega

/-! ## Flags -/

theorem testBit_or {n flag : Nat} {i j : Nat} (bit : flag = 2 ^ j) :
    (n ||| flag).testBit i = (n.testBit i || decide (j = i)) := by
  rw [Nat.testBit_or, bit, Nat.testBit_two_pow]

@[simp] theorem isWritten_markWritten : s.markWritten.isWritten = true := by
  rw [isWritten_eq, markWritten, UInt64.toNat_or, testBit_or (j := 0) (by decide)]
  simp

@[simp] theorem isTaken_markWritten : s.markWritten.isTaken = s.isTaken := by
  rw [isTaken_eq, isTaken_eq, markWritten, UInt64.toNat_or, testBit_or (j := 0) (by decide)]
  simp

@[simp] theorem isTaken_markTaken : s.markTaken.isTaken = true := by
  rw [isTaken_eq, markTaken, UInt64.toNat_or, testBit_or (j := 1) (by decide)]
  simp

@[simp] theorem isWritten_markTaken : s.markTaken.isWritten = s.isWritten := by
  rw [isWritten_eq, isWritten_eq, markTaken, UInt64.toNat_or, testBit_or (j := 1) (by decide)]
  simp

theorem toNat_arrive : s.arrive.word.toNat = (s.word.toNat + 4) % 2 ^ 64 := UInt64.toNat_add _ _

theorem toNat_leave : s.leave.word.toNat = (2 ^ 64 - 4 + s.word.toNat) % 2 ^ 64 :=
  UInt64.toNat_sub _ _

/-- Readers that come and go do not touch the flags, even if there are too many to count. -/
theorem testBit_of_mod_four {n n' i : Nat} (same : n' % 4 = n % 4) (flag : i < 2) :
    n'.testBit i = n.testBit i := by
  have bit (n : Nat) : n.testBit i = (n % 2 ^ 2).testBit i := by
    rw [Nat.testBit_mod_two_pow]
    simp [flag]
  rw [bit, bit n]
  exact congrArg (Nat.testBit · i) same

theorem arrive_mod_four : s.arrive.word.toNat % 4 = s.word.toNat % 4 := by
  rw [toNat_arrive]
  omega

theorem leave_mod_four : s.leave.word.toNat % 4 = s.word.toNat % 4 := by
  rw [toNat_leave]
  omega

@[simp] theorem isWritten_arrive : s.arrive.isWritten = s.isWritten := by
  rw [isWritten_eq, isWritten_eq, testBit_of_mod_four s.arrive_mod_four (by decide)]

@[simp] theorem isTaken_arrive : s.arrive.isTaken = s.isTaken := by
  rw [isTaken_eq, isTaken_eq, testBit_of_mod_four s.arrive_mod_four (by decide)]

@[simp] theorem isWritten_leave : s.leave.isWritten = s.isWritten := by
  rw [isWritten_eq, isWritten_eq, testBit_of_mod_four s.leave_mod_four (by decide)]

@[simp] theorem isTaken_leave : s.leave.isTaken = s.isTaken := by
  rw [isTaken_eq, isTaken_eq, testBit_of_mod_four s.leave_mod_four (by decide)]

/-- A taker goes on waiting or is done. -/
theorem Taking.step_eq (point : Taking) :
    (point.step s).1 = .next .waiting ∨ (point.step s).1 = .done () := by
  cases point <;> cases read : s.isRead <;> simp [Taking.step, read]

/-! ## Readers -/

theorem readers_eq : s.readers = s.word.toNat / 4 := rfl

theorem or_div_four {n flag : Nat} (low : flag / 4 = 0) : (n ||| flag) / 4 = n / 4 := by
  have shift := Nat.shiftRight_or_distrib (a := n) (b := flag) (i := 2)
  rw [Nat.shiftRight_eq_div_pow, Nat.shiftRight_eq_div_pow, Nat.shiftRight_eq_div_pow] at shift
  rw [show 4 = 2 ^ 2 from rfl, shift, show flag / 2 ^ 2 = 0 from low, Nat.or_zero]

@[simp] theorem readers_markWritten : s.markWritten.readers = s.readers := by
  rw [readers_eq, markWritten, UInt64.toNat_or]
  exact or_div_four (by decide)

@[simp] theorem readers_markTaken : s.markTaken.readers = s.readers := by
  rw [readers_eq, markTaken, UInt64.toNat_or]
  exact or_div_four (by decide)

theorem isRead_markWritten : s.markWritten.isRead = s.isRead := by
  rw [Bool.eq_iff_iff, isRead_iff, isRead_iff, readers_markWritten]

theorem isRead_markTaken : s.markTaken.isRead = s.isRead := by
  rw [Bool.eq_iff_iff, isRead_iff, isRead_iff, readers_markTaken]

theorem readers_arrive (room : s.readers + 1 < 2 ^ 62) : s.arrive.readers = s.readers + 1 := by
  rw [readers_eq] at room ⊢
  rw [toNat_arrive, readers_eq]
  omega

theorem readers_leave (read : 0 < s.readers) : s.leave.readers = s.readers - 1 := by
  have bound := s.word.toNat_lt
  rw [readers_eq] at read ⊢
  rw [toNat_leave, readers_eq]
  omega

theorem word_iterate_arrive (n : Nat) : (arrive^[n] s).word = s.word + UInt64.ofNat (4 * n) := by
  induction n with
  | zero => exact (UInt64.add_zero _).symm
  | succ n ih =>
    rw [Function.iterate_succ_apply', arrive, ih, Nat.mul_succ, UInt64.ofNat_add,
      ← UInt64.add_assoc]
    rfl

theorem iterate_arrive_eq_self {n : Nat} (full : UInt64.ofNat (4 * n) = 0) : arrive^[n] s = s := by
  have word := s.word_iterate_arrive n
  rw [full, UInt64.add_zero] at word
  exact congrArg Slot.mk word

/-- The word has no room for more readers: with `2 ^ 62` of them it is as it was without any. -/
theorem iterate_arrive_two_pow : arrive^[2 ^ 62] s = s := s.iterate_arrive_eq_self (by decide)

end SharedCollections.Slot
