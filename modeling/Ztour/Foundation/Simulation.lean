import Ztour.Foundation.Footprint

/-!
# Simulation between machines

A machine simulates another one if it answers each step of it with one or more
steps of its own that make the same stores.  Runs that keep a condition are
then followed from related states to related states, and a fault is followed
by a fault.
-/

namespace Ztour.Foundation

variable {w : Nat} {β σ τ : Type}

@[simp] theorem Memory.store_nil (m : Memory w β) : m.store [] = m := rfl

@[simp] theorem Memory.store_append (m : Memory w β)
    (stores later : Stores w β) :
    m.store (stores ++ later) = (m.store stores).store later :=
  List.foldl_append

theorem Memory.store_of_not_mem {m : Memory w β} {x : BitVec w}
    {stores : Stores w β} (h : ∀ cell ∈ stores, cell.1 ≠ x) :
    m.store stores x = m x := by
  induction stores generalizing m with
  | nil => rfl
  | cons cell stores ih =>
      obtain ⟨hcell, hstores⟩ := List.forall_mem_cons.mp h
      exact (ih hstores).trans (Function.update_of_ne hcell.symm _ _)

theorem Memory.eqOn_store {m : Memory w β} {region : Set (BitVec w)}
    {stores : Stores w β} (h : ∀ cell ∈ stores, cell.1 ∉ region) :
    Set.EqOn (m.store stores) m region := by
  intro x hx
  refine Memory.store_of_not_mem fun cell hcell heq => ?_
  exact h cell hcell (heq ▸ hx)

namespace MemoryMachine

variable (A : MemoryMachine w β σ) (B : MemoryMachine w β τ)

def exec : Nat → σ → Memory w β → Option (σ × Stores w β)
  | 0, s, _ => some (s, [])
  | n + 1, s, m => do
      let (s', stores) ← A.step s m
      let (s'', later) ← exec n s' (m.store stores)
      some (s'', stores ++ later)

def FaultsAfter (s : σ) (m : Memory w β) (stores : Stores w β) : Prop :=
  ∃ n s', A.exec n s m = some (s', stores) ∧ A.step s' (m.store stores) = none

variable {A B}

theorem exec_succ {n : Nat} {s s'' : σ} {m : Memory w β}
    {stores : Stores w β} :
    A.exec (n + 1) s m = some (s'', stores) ↔
      ∃ s' first later, A.step s m = some (s', first) ∧
        A.exec n s' (m.store first) = some (s'', later) ∧
        stores = first ++ later := by
  simp only [exec, Option.bind_eq_bind, Option.bind_eq_some_iff,
    Option.some.injEq, Prod.mk.injEq, Prod.exists]
  constructor
  · rintro ⟨s', first, hstep, t, later, hlater, rfl, rfl⟩
    exact ⟨s', first, later, hstep, hlater, rfl⟩
  · rintro ⟨s', first, later, hstep, hlater, rfl⟩
    exact ⟨s', first, hstep, s'', later, hlater, rfl, rfl⟩

theorem exec_one {s s' : σ} {m : Memory w β} {stores : Stores w β}
    (h : A.step s m = some (s', stores)) : A.exec 1 s m = some (s', stores) :=
  exec_succ.mpr ⟨s', stores, [], h, rfl, (List.append_nil _).symm⟩

theorem exec_append {k n : Nat} {s s' s'' : σ} {m : Memory w β}
    {first later : Stores w β} (h : A.exec k s m = some (s', first))
    (h' : A.exec n s' (m.store first) = some (s'', later)) :
    A.exec (k + n) s m = some (s'', first ++ later) := by
  induction k generalizing s m first with
  | zero =>
      cases h
      rw [Nat.zero_add]
      exact h'
  | succ k ih =>
      obtain ⟨s₁, stores, rest, hstep, hrest, rfl⟩ := exec_succ.mp h
      rw [Memory.store_append] at h'
      rw [Nat.succ_add, List.append_assoc]
      exact exec_succ.mpr ⟨s₁, stores, _, hstep, ih hrest h', rfl⟩

/-- A run that stops early stops in front of a step that faults. -/
theorem exec_eq_none {n : Nat} {s : σ} {m : Memory w β}
    (h : A.exec n s m = none) :
    ∃ k s' stores, k < n ∧ A.exec k s m = some (s', stores) ∧
      A.step s' (m.store stores) = none := by
  induction n generalizing s m with
  | zero => cases h
  | succ n ih =>
      cases hstep : A.step s m with
      | none => exact ⟨0, s, [], Nat.succ_pos n, rfl, hstep⟩
      | some next =>
          obtain ⟨s₁, first⟩ := next
          have hrest : A.exec n s₁ (m.store first) = none := by
            cases hexec : A.exec n s₁ (m.store first) with
            | none => rfl
            | some last =>
                rw [exec_succ.mpr ⟨s₁, first, _, hstep, hexec, rfl⟩] at h
                cases h
          obtain ⟨k, s', stores, hk, hrun, hfault⟩ := ih hrest
          refine ⟨k + 1, s', first ++ stores, Nat.succ_lt_succ hk,
            exec_succ.mpr ⟨s₁, first, stores, hstep, hrun, rfl⟩, ?_⟩
          rw [Memory.store_append]
          exact hfault

theorem along_succ {P : σ → Memory w β → Prop} {n : Nat} {s : σ}
    {m : Memory w β} :
    A.Along P (n + 1) s m ↔ P s m ∧ ∀ s' stores, A.step s m = some (s', stores) →
      A.Along P n s' (m.store stores) := by
  constructor
  · intro h
    refine ⟨h.1, fun s' stores hstep => ?_⟩
    have hrest := h.2
    rw [hstep] at hrest
    exact hrest
  · rintro ⟨hP, hrest⟩
    refine ⟨hP, ?_⟩
    cases hstep : A.step s m with
    | none => trivial
    | some next => exact hrest _ _ hstep

theorem Along.exec {P : σ → Memory w β → Prop} {n k : Nat} {s s' : σ}
    {m : Memory w β} {stores : Stores w β} (h : A.Along P n s m) (hk : k < n)
    (hrun : A.exec k s m = some (s', stores)) : P s' (m.store stores) := by
  induction n generalizing s m k stores with
  | zero => exact absurd hk (Nat.not_lt_zero k)
  | succ n ih =>
      obtain ⟨hP, hrest⟩ := along_succ.mp h
      cases k with
      | zero =>
          cases hrun
          exact hP
      | succ k =>
          obtain ⟨s₁, first, later, hstep, hlater, rfl⟩ := exec_succ.mp hrun
          rw [Memory.store_append]
          exact ih (hrest _ _ hstep) (Nat.lt_of_succ_lt_succ hk) hlater

theorem Along.take {P : σ → Memory w β → Prop} {k n : Nat} {s : σ}
    {m : Memory w β} (h : A.Along P n s m) (hk : k ≤ n) : A.Along P k s m := by
  induction k generalizing n s m with
  | zero => trivial
  | succ k ih =>
      cases n with
      | zero => exact absurd hk (Nat.not_succ_le_zero k)
      | succ n =>
          obtain ⟨hP, hrest⟩ := along_succ.mp h
          refine along_succ.mpr ⟨hP, fun s' stores hstep => ?_⟩
          exact ih (hrest _ _ hstep) (Nat.le_of_succ_le_succ hk)

variable (A B)

/-- `B` follows the steps of `A` from states with the property `P`. -/
structure Simulation (P : σ → Memory w β → Prop)
    (R : σ → Memory w β → τ → Memory w β → Prop) : Prop where
  step : ∀ {s m t m' s₁ stores}, R s m t m' → P s m →
    A.step s m = some (s₁, stores) →
    ∃ k t₁, 0 < k ∧ B.exec k t m' = some (t₁, stores) ∧
      R s₁ (m.store stores) t₁ (m'.store stores)
  fault : ∀ {s m t m'}, R s m t m' → P s m → A.step s m = none →
    B.step t m' = none

variable {A B}

section Simulation

variable {P : σ → Memory w β → Prop}
  {R : σ → Memory w β → τ → Memory w β → Prop} {n : Nat} {s : σ} {t : τ}
  {m m' : Memory w β}

theorem Simulation.exec (hsim : Simulation A B P R) (hR : R s m t m')
    (hP : A.Along P n s m) {s₁ : σ} {stores : Stores w β}
    (hrun : A.exec n s m = some (s₁, stores)) :
    ∃ k t₁, n ≤ k ∧ B.exec k t m' = some (t₁, stores) ∧
      R s₁ (m.store stores) t₁ (m'.store stores) := by
  induction n generalizing s m t m' stores with
  | zero =>
      cases hrun
      exact ⟨0, t, Nat.le_refl 0, rfl, hR⟩
  | succ n ih =>
      obtain ⟨hhere, hrest⟩ := along_succ.mp hP
      obtain ⟨s', first, later, hstep, hlater, rfl⟩ := exec_succ.mp hrun
      obtain ⟨k, t', hk, hfirst, hR'⟩ := hsim.step hR hhere hstep
      obtain ⟨k', t₁, hk', hlater', hR₁⟩ := ih hR' (hrest _ _ hstep) hlater
      refine ⟨k + k', t₁, by omega, exec_append hfirst hlater', ?_⟩
      rw [Memory.store_append, Memory.store_append]
      exact hR₁

theorem Simulation.exec_none (hsim : Simulation A B P R) (hR : R s m t m')
    (hP : A.Along P n s m) (hrun : A.exec n s m = none) :
    ∃ stores, A.FaultsAfter s m stores ∧ B.FaultsAfter t m' stores := by
  obtain ⟨k, s₁, stores, hk, hprefix, hfault⟩ := exec_eq_none hrun
  have hshort : A.Along P k s m := hP.take (le_of_lt hk)
  obtain ⟨k', t₁, -, hrun', hR₁⟩ := hsim.exec hR hshort hprefix
  exact ⟨stores, ⟨k, s₁, hprefix, hfault⟩, k', t₁, hrun',
    hsim.fault hR₁ (hP.exec hk hprefix) hfault⟩

end Simulation

end MemoryMachine

end Ztour.Foundation
