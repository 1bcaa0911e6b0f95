import Ztour.Foundation.ByteMemory

/-!
# Machines that read a known part of their memory

What a step does depends on the cells that it reads and on no others.  Two
memories that differ only in a region from which no step of a run reads give
the same run.
-/

namespace Ztour.Foundation

variable {w : Nat} {β σ : Type}

abbrev Stores (w : Nat) (β : Type) := List (BitVec w × β)

def Memory.store (m : Memory w β) (stores : Stores w β) : Memory w β :=
  stores.foldl (fun m cell => Function.update m cell.1 (some cell.2)) m

theorem Memory.store_congr {m m' : Memory w β} {x : BitVec w}
    (stores : Stores w β) (h : m' x = m x) :
    m'.store stores x = m.store stores x := by
  induction stores generalizing m m' with
  | nil => exact h
  | cons cell stores ih =>
      apply ih
      change Function.update m' cell.1 (some cell.2) x =
        Function.update m cell.1 (some cell.2) x
      by_cases hx : x = cell.1
      · subst hx
        rw [Function.update_self, Function.update_self]
      · rw [Function.update_of_ne hx, Function.update_of_ne hx, h]

/-- A machine whose own state is `σ`; a step that faults gives nothing. -/
structure MemoryMachine (w : Nat) (β σ : Type) where
  step : σ → Memory w β → Option (σ × Stores w β)
  reads : σ → Memory w β → Set (BitVec w)
  step_congr : ∀ {s m m'}, Set.EqOn m' m (reads s m) → step s m' = step s m

namespace MemoryMachine

variable (machine : MemoryMachine w β σ)

/-- What at most `n` steps do: the states that they reach and the stores that
they make. -/
def trace : Nat → σ → Memory w β → List (σ × Stores w β)
  | 0, _, _ => []
  | n + 1, s, m =>
      match machine.step s m with
      | none => []
      | some (s', stores) => (s', stores) :: trace n s' (m.store stores)

def Along (P : σ → Memory w β → Prop) : Nat → σ → Memory w β → Prop
  | 0, _, _ => True
  | n + 1, s, m =>
      P s m ∧
        match machine.step s m with
        | none => True
        | some (s', stores) => Along P n s' (m.store stores)

variable {machine}

theorem Along.mono {P Q : σ → Memory w β → Prop} (hPQ : ∀ s m, P s m → Q s m)
    {n : Nat} {s : σ} {m : Memory w β} (h : machine.Along P n s m) :
    machine.Along Q n s m := by
  induction n generalizing s m with
  | zero => trivial
  | succ n ih =>
      unfold Along at h ⊢
      refine ⟨hPQ _ _ h.1, ?_⟩
      cases hstep : machine.step s m with
      | none => trivial
      | some next =>
          have hnext := h.2
          rw [hstep] at hnext
          exact ih hnext

theorem Along.trace_eq {region : Set (BitVec w)} {n : Nat} {s : σ}
    {m m' : Memory w β}
    (h : machine.Along (fun s m => Disjoint (machine.reads s m) region) n s m)
    (hagree : Set.EqOn m' m regionᶜ) :
    machine.trace n s m' = machine.trace n s m := by
  induction n generalizing s m m' with
  | zero => rfl
  | succ n ih =>
      unfold Along at h
      have hstep : machine.step s m' = machine.step s m :=
        machine.step_congr (hagree.mono h.1.subset_compl_right)
      unfold trace
      rw [hstep]
      cases hnext : machine.step s m with
      | none => rfl
      | some next =>
          have hrest := h.2
          rw [hnext] at hrest
          dsimp only
          rw [ih hrest fun x hx => Memory.store_congr next.2 (hagree hx)]

end MemoryMachine

end Ztour.Foundation
