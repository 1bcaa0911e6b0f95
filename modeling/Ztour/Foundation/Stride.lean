import Mathlib.Algebra.BigOperators.Group.Finset.Basic
import Mathlib.Algebra.Order.BigOperators.Group.Finset
import Mathlib.Algebra.Order.Ring.Nat
import Mathlib.Order.Monotone.Basic
import Mathlib.Tactic

/-!
# Walks with strides

A walk over the numbers that starts at 0 and whose strides may differ.  It
cannot step over as many numbers in a row as its strides are long.
-/

namespace Ztour.Foundation

open Finset

/-- Where a walk stands before its `n`-th step. -/
def walked (stride : Nat → Nat) (n : Nat) : Nat := ∑ i ∈ range n, stride i

variable {stride : Nat → Nat}

@[simp] theorem walked_zero : walked stride 0 = 0 := rfl

theorem walked_succ (n : Nat) :
    walked stride (n + 1) = walked stride n + stride n :=
  sum_range_succ stride n

theorem walked_mono : Monotone (walked stride) := by
  apply monotone_nat_of_le_succ
  intro n
  rw [walked_succ]
  exact Nat.le_add_right _ _

theorem walked_add_const {n len c : Nat}
    (h : ∀ i, n ≤ i → i < n + len → stride i = c) :
    walked stride (n + len) = walked stride n + len * c := by
  induction len with
  | zero => simp
  | succ len ih =>
      rw [← Nat.add_assoc, walked_succ,
        ih fun i hlow hhigh => h i hlow (by omega),
        h (n + len) (by omega) (by omega), Nat.succ_mul, Nat.add_assoc]

theorem le_walked (hpos : ∀ i, 0 < stride i) (n : Nat) : n ≤ walked stride n := by
  induction n with
  | zero => exact Nat.zero_le _
  | succ n ih =>
      have hstride := hpos n
      rw [walked_succ]
      omega

/-- The walk steps on one of `gap` numbers in a row, if no stride before them
is longer than that. -/
theorem exists_walked_in_gap (hpos : ∀ i, 0 < stride i) {n gap : Nat}
    (hgap : 0 < gap) (hstride : ∀ i, walked stride i < n → stride i ≤ gap) :
    ∃ i, n ≤ walked stride i ∧ walked stride i < n + gap := by
  classical
  have hreach : ∃ i, n ≤ walked stride i := ⟨n, le_walked hpos n⟩
  refine ⟨Nat.find hreach, Nat.find_spec hreach, ?_⟩
  -- the step before the first number of the gap is not long enough to leave it
  cases hfirst : Nat.find hreach with
  | zero =>
      rw [walked_zero]
      omega
  | succ i =>
      have hbefore : walked stride i < n :=
        not_le.mp (Nat.find_min hreach (by omega))
      have hstep := hstride i hbefore
      rw [walked_succ]
      omega

end Ztour.Foundation
