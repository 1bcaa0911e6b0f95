import Ztour.Concurrency.Steps

/-!
# Control calls that run alone

A control call that no other thread interrupts does to the hook and to the
memory what the operation of the sequential model does.
-/

namespace Ztour

open Ztour.Foundation

namespace Concurrency

variable {Tid : Type} [DecidableEq Tid] {z : Zydis} {os : Os}
  {s : State Tid} {i : Tid}

/-- Let only thread `i` run, until its control call has ended. -/
def runAlone (z : Zydis) (os : Os) (i : Tid) :
    Nat → State Tid → Option (State Tid)
  | 0, s => some s
  | fuel + 1, s =>
      if s.control i = .idle then some s
      else
        (stepControl z os s i (s.control i)).bind fun s' =>
          runAlone z os i fuel s'

theorem runAlone_idle (h : s.control i = .idle) (fuel : Nat) :
    runAlone z os i fuel s = some s := by
  cases fuel with
  | zero => rfl
  | succ fuel => simp [runAlone, h]

theorem runAlone_step {c : Control} {s' : State Tid} (hc : c ≠ .idle)
    (hplace : s.control i = c) (h : stepControl z os s i c = some s')
    (fuel : Nat) : runAlone z os i (fuel + 1) s = runAlone z os i fuel s' := by
  subst hplace
  simp [runAlone, hc, h]

def EndsWith (z : Zydis) (os : Os) (i : Tid) (fuel : Nat) (s : State Tid)
    (inner : Inner) (m : Mem) : Prop :=
  ∃ s', runAlone z os i fuel s = some s' ∧ s'.control i = .idle ∧
    s'.inner = inner ∧ s'.process.mem = m

section EndsWith

variable {op : ControlOp} {inner : Inner} {m : Mem}

theorem EndsWith.step {c : Control} {s₁ : State Tid} {fuel : Nat}
    (hc : c ≠ .idle) (hplace : s.control i = c)
    (hstep : stepControl z os s i c = some s₁)
    (h : EndsWith z os i fuel s₁ inner m) :
    EndsWith z os i (fuel + 1) s inner m := by
  obtain ⟨s', hrun, hend⟩ := h
  exact ⟨s', (runAlone_step hc hplace hstep fuel).trans hrun, hend⟩

variable (z os)

theorem endsWith_unlocking {j : Nat} {returns : Bool}
    (hplace : s.control i = .unlocking op j returns) (fuel : Nat) :
    EndsWith z os i (fuel + 1) s s.inner s.process.mem := by
  refine EndsWith.step (by simp) hplace rfl ?_
  refine ⟨_, runAlone_idle (State.control_setControl _ i _) fuel,
    State.control_setControl _ i _, ?_, rfl⟩
  exact State.inner_setAccessMutex s j none s.cur

theorem endsWith_flagging (hplace : s.control i = .flagging op s.cur)
    (fuel : Nat) :
    EndsWith z os i (fuel + 2) s { s.inner with isInstalled := op.flag }
      s.process.mem := by
  refine EndsWith.step (by simp) hplace rfl ?_
  rw [← State.inner_setInstalled]
  exact endsWith_unlocking z os (State.control_setControl _ i _) fuel

theorem endsWith_afterWrite (hplace : s.control i = op.afterWrite s.cur)
    (hcount : (s.cells s.cur).numActiveCalls = 0) (fuel : Nat) :
    EndsWith z os i (fuel + 3) s { s.inner with isInstalled := op.flag }
      s.process.mem := by
  cases op with
  | install => exact endsWith_flagging z os hplace (fuel + 1)
  | uninstall =>
      have hstep : stepControl z os s i (.gateTest s.cur) =
          some (s.setControl i (.flagging .uninstall s.cur)) := by
        simp [stepControl, hcount]
      have hend := endsWith_flagging z os
        (State.control_setControl s i (.flagging .uninstall s.cur)) fuel
      exact hend.step (by simp [ControlOp.afterWrite]) hplace hstep

theorem endsWith_writing {bytes : List Byte}
    (hplace : s.control i = .writing op s.cur bytes)
    (hcount : (s.cells s.cur).numActiveCalls = 0) :
    EndsWith z os i 4 s
      (s.inner.overwrite os s.process.mem (.ok bytes) op.flag).2.1
      (s.inner.overwrite os s.process.mem (.ok bytes) op.flag).2.2 := by
  have hinner : (s.cells s.cur).inner = s.inner := rfl
  unfold Inner.overwrite
  dsimp only
  cases hwrite : overwriteExecutableMem os s.process.mem bytes
      s.inner.targetFunc with
  | mk res m =>
      cases res with
      | error e =>
          have hstep : stepControl z os s i (.writing op s.cur bytes) =
              some ((s.setMem m).setControl i (.unlocking op s.cur false)) := by
            simp only [stepControl, hinner, hwrite]
          have hend := endsWith_unlocking z os
            (State.control_setControl (s.setMem m) i
              (.unlocking op s.cur false)) 2
          exact hend.step (by simp) hplace hstep
      | ok u =>
          have hstep : stepControl z os s i (.writing op s.cur bytes) =
              some ((s.setMem m).setControl i (op.afterWrite s.cur)) := by
            simp only [stepControl, hinner, hwrite]
          have hend := endsWith_afterWrite z os
            (s := (s.setMem m).setControl i (op.afterWrite s.cur))
            (State.control_setControl (s.setMem m) i _) hcount 0
          exact hend.step (by simp) hplace hstep

theorem endsWith_testing (hplace : s.control i = .testing op s.cur)
    (hcount : (s.cells s.cur).numActiveCalls = 0) :
    EndsWith z os i 5 s
      (s.inner.overwrite os s.process.mem (op.prepare s.inner) op.flag).2.1
      (s.inner.overwrite os s.process.mem (op.prepare s.inner) op.flag).2.2 := by
  have hinner : (s.cells s.cur).inner = s.inner := rfl
  cases hprep : op.prepare s.inner with
  | error e =>
      have hstep : stepControl z os s i (.testing op s.cur) =
          some (s.setControl i (.unlocking op s.cur false)) := by
        simp only [stepControl, hinner, hprep]
      have hend := endsWith_unlocking z os
        (State.control_setControl s i (.unlocking op s.cur false)) 3
      exact hend.step (by simp) hplace hstep
  | ok bytes =>
      have hstep : stepControl z os s i (.testing op s.cur) =
          some (s.setControl i (.writing op s.cur bytes)) := by
        simp only [stepControl, hinner, hprep]
      have hend := endsWith_writing z os
        (s := s.setControl i (.writing op s.cur bytes))
        (State.control_setControl s i _) hcount
      exact hend.step (by simp) hplace hstep

end EndsWith

theorem runAlone_control (op : ControlOp)
    (hplace : s.control i = .locking op s.cur)
    (hfree : (s.cells s.cur).accessMutex = none)
    (hcount : (s.cells s.cur).numActiveCalls = 0) :
    EndsWith z os i 6 s
      (s.inner.overwrite os s.process.mem (op.prepare s.inner) op.flag).2.1
      (s.inner.overwrite os s.process.mem (op.prepare s.inner) op.flag).2.2 := by
  have hstep : stepControl z os s i (.locking op s.cur) =
      some ((s.setAccessMutex s.cur (some i)).setControl i
        (.testing op s.cur)) := by
    simp [stepControl, hfree]
  have hinner := State.inner_setAccessMutex s s.cur (some i) s.cur
  have hcount' := (State.numActiveCalls_setAccessMutex s s.cur (some i)
    s.cur).trans hcount
  have hend := endsWith_testing z os
    (State.control_setControl (s.setAccessMutex s.cur (some i)) i
      (.testing op s.cur)) hcount'
  have hsame : ((s.setAccessMutex s.cur (some i)).setControl i
      (.testing op s.cur)).inner = s.inner := hinner
  rw [hsame] at hend
  exact hend.step (by simp) hplace hstep

section Change

variable {p : Ptr} {process : Process}

theorem runAlone_refused (hplace : s.control i = .changeTest p)
    (hflag : s.inner.isInstalled = true) :
    runAlone z os i 3 s = some (s.setControl i .idle) := by
  have hstep : stepControl z os s i (.changeTest p) =
      some (s.setControl i .idle) := by
    simp [stepControl, hflag]
  rw [runAlone_step (by simp) hplace hstep]
  exact runAlone_idle (State.control_setControl s i _) 2

theorem runAlone_allowed (hplace : s.control i = .changeTest p)
    (hflag : s.inner.isInstalled = false) :
    runAlone z os i 3 s =
      runAlone z os i 2 (s.setControl i (.changeConstruct p)) := by
  have hstep : stepControl z os s i (.changeTest p) =
      some (s.setControl i (.changeConstruct p)) := by
    simp [stepControl, hflag]
  exact runAlone_step (by simp) hplace hstep 2

theorem runAlone_dropped {what : String}
    (hplace : s.control i = .changeConstruct p)
    (hnew : Inner.new z os s.process s.inner.name p s.inner.detourFunc
      s.inner.outputOriginalFunc = (.error (.thrown what), process)) :
    runAlone z os i 2 s = some ((s.setProcess process).setControl i .idle) := by
  have hstep : stepControl z os s i (.changeConstruct p) =
      some ((s.setProcess process).setControl i .idle) := by
    simp only [stepControl, hnew]
  rw [runAlone_step (by simp) hplace hstep]
  exact runAlone_idle (State.control_setControl _ i _) 1

theorem runAlone_replaced {newInner : Inner} {m : Mem}
    (hplace : s.control i = .changeConstruct p)
    (hnew : Inner.new z os s.process s.inner.name p s.inner.detourFunc
      s.inner.outputOriginalFunc = (.ok newInner, process))
    (hdestroy : s.inner.destroy os process.mem = .ok m) :
    runAlone z os i 2 s = some ((((s.setProcess process).setControl i
      (.changeReplace newInner)).replaceInner m newInner).setControl i
        .idle) := by
  have hstep : stepControl z os s i (.changeConstruct p) =
      some ((s.setProcess process).setControl i (.changeReplace newInner)) := by
    simp only [stepControl, hnew]
  rw [runAlone_step (by simp) hplace hstep]
  generalize hs' : (s.setProcess process).setControl i (.changeReplace newInner) =
    s'
  have hplace' : s'.control i = .changeReplace newInner := by
    rw [← hs', State.control_setControl]
  have hdestroy' : s'.inner.destroy os s'.process.mem = .ok m := by
    rw [← hs']
    exact hdestroy
  refine runAlone_step (by simp) hplace' ?_ 0
  simp only [stepControl, hdestroy']

theorem runAlone_change (hplace : s.control i = .changeTest p)
    (hreturns : World.completed (World.changeTargetFunc z os
      ⟨s.process, [s.inner]⟩ 0 s.inner p).1 = true) :
    ∃ s', runAlone z os i 3 s = some s' ∧ s'.control i = .idle ∧
      (World.changeTargetFunc z os ⟨s.process, [s.inner]⟩ 0 s.inner p).2 =
        ⟨s'.process, [s'.inner]⟩ := by
  unfold World.changeTargetFunc at hreturns ⊢
  by_cases hflag : s.inner.isInstalled = true
  · rw [if_pos hflag]
    exact ⟨_, runAlone_refused hplace hflag, State.control_setControl s i _, rfl⟩
  · rw [if_neg hflag] at hreturns ⊢
    rw [runAlone_allowed hplace (by simpa using hflag)]
    have hplace' := State.control_setControl s i (.changeConstruct p)
    cases hnew : Inner.new z os s.process s.inner.name p s.inner.detourFunc
        s.inner.outputOriginalFunc with
    | mk res process =>
        rw [hnew] at hreturns
        cases res with
        | ok newInner =>
            dsimp only at hreturns ⊢
            cases hdestroy : s.inner.destroy os process.mem with
            | error e =>
                rw [hdestroy] at hreturns
                rw [Inner.destroy_error hdestroy] at hreturns
                cases hreturns
            | ok m =>
                refine ⟨_, runAlone_replaced hplace' hnew hdestroy,
                  State.control_setControl _ i _, ?_⟩
                rw [State.inner_setControl, State.inner_replaceInner]
                rfl
        | error e =>
            cases e with
            | thrown what =>
                exact ⟨_, runAlone_dropped hplace' hnew,
                  State.control_setControl _ i _, rfl⟩
            | fault address => cases hreturns
            | aborted => cases hreturns
            | outOfFuel => cases hreturns

end Change

end Concurrency

end Ztour
