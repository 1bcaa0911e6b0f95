import Ztour.Concurrency.CallGate

/-!
# When `uninstall` returns

If the gate is found empty only while no call is at a place that it does not
count, then no call of the hooked function is left when `uninstall` returns.
-/

namespace Ztour

open Ztour.Foundation

namespace Concurrency

variable {Tid : Type}

theorem no_frames_of_vacated {s : State Tid} (h : s.Vacated false) (i : Tid) :
    s.frames i = [] := by
  refine List.eq_nil_iff_forall_not_mem.mpr fun f hf => ?_
  have hleft := h i f hf
  rw [Frame.eq_returning_of_left hleft] at hleft
  cases hleft

/-- After the last step of an `uninstall` that returns, no thread is anywhere
between the trampoline and its return from the detour. -/
theorem uninstall_vacates [DecidableEq Tid] [Fintype Tid] {z : Zydis}
    (hz : z.Lawful) (hjmp : z.DecodesJmp) {m₀ : Mem} {s s' : State Tid}
    {i : Tid} {j : Nat} {os : Os}
    (h : (threadSystem z m₀).ReachableUnder
      (fun s e _ => gateGuards false s e = true) s)
    (hplace : s.control i = .unlocking .uninstall j true)
    (hstep : next z s (i, .advance os) = some s') :
    ∀ t, s'.frames t = [] := by
  have hI := reachable_gated hz hjmp h
  have hvacated := hI.drained i (by rw [hplace]; rfl)
  have hs' : s' = (s.setAccessMutex j none).setControl i .idle := by
    simpa [next, hI.live, hplace, stepControl] using hstep.symm
  intro t
  rw [hs', State.frames_setControl]
  exact no_frames_of_vacated hvacated t

def returnsInTime : List (Bool × Act) :=
  installs false ++ calls true 3 ++ (false, .start .uninstall) ::
    advances false 6 ++ List.replicate 6 (true, .frame) ++ advances false 4

theorem uninstall_vacates_nop :
    ∃ s s', TransitionSystem.replayUnder (next (tableZydis smallTable))
        (gateGuards false) nopState returnsInTime = some s ∧
      next (tableZydis smallTable) s (false, .advance smallOs) = some s' ∧
      s'.control false = .idle ∧ ∀ t, s'.frames t = [] := by
  have hrun : (TransitionSystem.replayUnder (next (tableZydis smallTable))
      (gateGuards false) nopState returnsInTime).map (fun s =>
        (s.control false, (next (tableZydis smallTable) s
          (false, .advance smallOs)).map fun s' => s'.control false)) =
      some (.unlocking .uninstall 0 true, some .idle) := by
    decide +kernel
  obtain ⟨s, hreplay, hs⟩ := Option.map_eq_some_iff.mp hrun
  rw [Prod.mk.injEq] at hs
  obtain ⟨s', hstep, hidle⟩ := Option.map_eq_some_iff.mp hs.2
  have hreach := TransitionSystem.ReachableUnder.replay (fun _ _ _ h => h)
    (.init nopState_init) hreplay
  exact ⟨s, s', hreplay, hstep, hidle, uninstall_vacates (tableZydis_lawful _)
    smallTable_decodesJmp hreach hs.1 hstep⟩

def overtaken : List (Bool × Act) :=
  installs false ++ calls true 0 ++ (false, .start .uninstall) ::
    advances false 5

theorem uninstall_overtakes :
    ∃ s s', (threadSystem (tableZydis smallTable) nopProcess.mem).Reachable s ∧
      s.control false = .unlocking .uninstall 0 true ∧
      next (tableZydis smallTable) s (false, .advance smallOs) = some s' ∧
      s'.frames true = [.trampoline] := by
  have hrun : (TransitionSystem.replay (next (tableZydis smallTable)) nopState
      overtaken).map (fun s => (s.control false,
        (next (tableZydis smallTable) s (false, .advance smallOs)).map
          fun s' => s'.frames true)) =
      some (.unlocking .uninstall 0 true, some [.trampoline]) := by
    decide +kernel
  obtain ⟨s, hreplay, hs⟩ := Option.map_eq_some_iff.mp hrun
  rw [Prod.mk.injEq] at hs
  obtain ⟨s', hstep, hframes⟩ := Option.map_eq_some_iff.mp hs.2
  exact ⟨s, s', nopState_replay hreplay, hs.1, hstep, hframes⟩

end Concurrency

end Ztour
