import Ztour.Concurrency.Registry
import Ztour.HookInst.Bulk

/-!
# Bulk calls that run alone

A bulk call that no other thread interrupts does to the hooks and to the memory
what the sequential loop does.
-/

namespace Ztour

open Ztour.Foundation

namespace Registry

open Concurrency TransitionSystem

variable {Tid Inst : Type} [DecidableEq Tid] [DecidableEq Inst]
  {registry : List Inst} {s s₁ s' : State Tid Inst} {i : Tid}

def Alone (i : Tid) (e : Tid × Act Inst) : Prop := e.1 = i

theorem steps_advance {p : Control Inst} (here : s.control i = p)
    (hstep : ∃ os, stepControl registry os s i p = some s₁)
    (h : Steps (next registry) (Alone i) s₁ s') :
    Steps (next registry) (Alone i) s s' := by
  obtain ⟨os, hstep⟩ := hstep
  have halone : Alone i (i, (.advance os : Act Inst)) := rfl
  apply h.step halone
  subst here
  exact hstep

/-! ## One operation -/

/-- Thread `i` alone comes to `q`, with `inner` and its mutex free in the cell of
hook `j`, and the memory `m`. -/
structure Leaves (registry : List Inst) (i : Tid) (s : State Tid Inst)
    (j : Inst) (q : Control Inst) (inner : Inner) (m : Mem) : Prop where
  run : ∃ s', Steps (next registry) (Alone i) s s' ∧ s'.control i = q ∧
    s'.mem = m ∧ s'.registryMutex = s.registryMutex ∧
    s'.cells = Function.update s.cells j
      { s.cells j with inner, accessMutex := none }

section Operation

variable {os : Os} {j : Inst} {q : Control Inst} {inner : Inner} {m : Mem}
  {c : OpCall Inst}

theorem Leaves.step {p : Control Inst} {cell : Cell Tid}
    (here : s.control i = p)
    (hstep : ∃ os, stepControl registry os s i p = some s₁)
    (hregistry : s₁.registryMutex = s.registryMutex)
    (hcells : s₁.cells = Function.update s.cells j cell)
    (hgate : cell.numActiveCalls = (s.cells j).numActiveCalls ∧
      cell.condMutex = (s.cells j).condMutex)
    (h : Leaves registry i s₁ j q inner m) :
    Leaves registry i s j q inner m := by
  obtain ⟨s', hrun, hcontrol, hmem, hregistry', hcells'⟩ := h.run
  refine ⟨s', steps_advance here hstep hrun, hcontrol, hmem,
    hregistry'.trans hregistry, ?_⟩
  rw [hcells', hcells]
  simp [hgate]

theorem leaves_unlocking {returns : Bool}
    (here : s.control i = .unlocking c returns)
    (hinner : (s.cells c.inst).inner = inner) :
    Leaves registry i s c.inst (c.afterUnlock returns) inner s.mem where
  run := by
    subst hinner
    exact ⟨_, steps_advance here ⟨smallOs, rfl⟩ Steps.refl,
      State.control_setControl_self _ i _, rfl, rfl, rfl⟩

theorem leaves_flagging (here : s.control i = .flagging c)
    (hinner : (s.cells c.inst).inner = inner) :
    Leaves registry i s c.inst (c.afterUnlock true)
      { inner with isInstalled := c.op.flag } s.mem := by
  apply Leaves.step here ⟨smallOs, rfl⟩ rfl rfl ⟨rfl, rfl⟩
  apply leaves_unlocking (State.control_setControl_self _ i _)
  simp [State.setInstalled, hinner]

theorem leaves_afterWrite (here : s.control i = c.afterWrite)
    (hinner : (s.cells c.inst).inner = inner)
    (hcount : (s.cells c.inst).numActiveCalls = 0) :
    Leaves registry i s c.inst (c.afterUnlock true)
      { inner with isInstalled := c.op.flag } s.mem := by
  cases hop : c.op with
  | install =>
      have hflagging : s.control i = .flagging c := by
        simpa [OpCall.afterWrite, hop] using here
      rw [← hop]
      exact leaves_flagging hflagging hinner
  | uninstall =>
      have hgate : s.control i = .gateTest c := by
        simpa [OpCall.afterWrite, hop] using here
      rw [← hop]
      have hstep : stepControl registry smallOs s i (.gateTest c) =
          some (s.setControl i (.flagging c)) := by
        simp [stepControl, hcount]
      apply Leaves.step hgate ⟨smallOs, hstep⟩ rfl
        (Function.update_eq_self c.inst s.cells).symm ⟨rfl, rfl⟩
      exact leaves_flagging (State.control_setControl_self s i _) hinner

theorem leaves_writing (os : Os) {bytes : List Byte}
    (here : s.control i = .writing c bytes)
    (hinner : (s.cells c.inst).inner = inner)
    (hcount : (s.cells c.inst).numActiveCalls = 0) :
    Leaves registry i s c.inst
      (c.afterUnlock (inner.overwrite os s.mem (.ok bytes) c.op.flag).1.isOk)
      (inner.overwrite os s.mem (.ok bytes) c.op.flag).2.1
      (inner.overwrite os s.mem (.ok bytes) c.op.flag).2.2 := by
  unfold Inner.overwrite
  dsimp only
  cases hwrite : overwriteExecutableMem os s.mem bytes inner.targetFunc with
  | mk r m =>
      cases r with
      | error e =>
          have hstep : stepControl registry os s i (.writing c bytes) =
              some ((s.setMem m).setControl i (.unlocking c false)) := by
            simp only [stepControl, hinner, hwrite]
          apply Leaves.step here ⟨os, hstep⟩ rfl
            (Function.update_eq_self c.inst s.cells).symm ⟨rfl, rfl⟩
          exact leaves_unlocking
            (State.control_setControl_self (s.setMem m) i _) hinner
      | ok u =>
          have hstep : stepControl registry os s i (.writing c bytes) =
              some ((s.setMem m).setControl i c.afterWrite) := by
            simp only [stepControl, hinner, hwrite]
          apply Leaves.step here ⟨os, hstep⟩ rfl
            (Function.update_eq_self c.inst s.cells).symm ⟨rfl, rfl⟩
          exact leaves_afterWrite
            (State.control_setControl_self (s.setMem m) i _) hinner hcount

theorem leaves_testing (os : Os) (here : s.control i = .testing c)
    (hinner : (s.cells c.inst).inner = inner)
    (hcount : (s.cells c.inst).numActiveCalls = 0) :
    Leaves registry i s c.inst
      (c.afterUnlock
        (inner.overwrite os s.mem (c.op.prepare inner) c.op.flag).1.isOk)
      (inner.overwrite os s.mem (c.op.prepare inner) c.op.flag).2.1
      (inner.overwrite os s.mem (c.op.prepare inner) c.op.flag).2.2 := by
  cases hprepare : c.op.prepare inner with
  | error e =>
      have hstep : stepControl registry os s i (.testing c) =
          some (s.setControl i (.unlocking c false)) := by
        simp only [stepControl, hinner, hprepare]
      apply Leaves.step here ⟨os, hstep⟩ rfl
        (Function.update_eq_self c.inst s.cells).symm ⟨rfl, rfl⟩
      exact leaves_unlocking (State.control_setControl_self s i _) hinner
  | ok bytes =>
      have hstep : stepControl registry os s i (.testing c) =
          some (s.setControl i (.writing c bytes)) := by
        simp only [stepControl, hinner, hprepare]
      apply Leaves.step here ⟨os, hstep⟩ rfl
        (Function.update_eq_self c.inst s.cells).symm ⟨rfl, rfl⟩
      exact leaves_writing os (State.control_setControl_self s i _) hinner hcount

theorem leaves_locking (os : Os) (here : s.control i = .locking c)
    (hinner : (s.cells c.inst).inner = inner)
    (hfree : (s.cells c.inst).accessMutex = none)
    (hcount : (s.cells c.inst).numActiveCalls = 0) :
    Leaves registry i s c.inst
      (c.afterUnlock
        (inner.overwrite os s.mem (c.op.prepare inner) c.op.flag).1.isOk)
      (inner.overwrite os s.mem (c.op.prepare inner) c.op.flag).2.1
      (inner.overwrite os s.mem (c.op.prepare inner) c.op.flag).2.2 := by
  have hstep : stepControl registry os s i (.locking c) =
      some ((s.setAccessMutex c.inst (some i)).setControl i (.testing c)) := by
    simp [stepControl, hfree]
  apply Leaves.step here ⟨os, hstep⟩ rfl rfl ⟨rfl, rfl⟩
  apply leaves_testing os (State.control_setControl_self _ i _)
  · simp [hinner]
  · simp [hcount]

theorem prepareSet_flag (op : ControlOp) (inner : Inner) :
    inner.prepareSet op.flag = op.prepare inner := by
  cases op <;> rfl

theorem leaves_setInstalled {os : Os} {r : Res Unit}
    (here : s.control i = .locking c)
    (hfree : (s.cells c.inst).accessMutex = none)
    (hcount : (s.cells c.inst).numActiveCalls = 0)
    (hset : (s.cells c.inst).inner.setInstalled c.op.flag os s.mem =
      (r, inner, m)) :
    Leaves registry i s c.inst (c.afterUnlock r.isOk) inner m := by
  have h : Leaves registry i s c.inst _ _ _ :=
    leaves_locking os here rfl hfree hcount
  rw [← prepareSet_flag, ← Inner.setInstalled_eq, hset] at h
  exact h

end Operation

/-! ## The loop -/

section Loop

variable {op : ControlOp}

def visits (s : State Tid Inst) (os : Inst → Os) (rest : List Inst) :
    List Visit :=
  rest.map fun j => ⟨(s.cells j).inner, os j⟩

omit [DecidableEq Tid] [DecidableEq Inst] in
theorem visits_congr (os : Inst → Os) {rest : List Inst}
    (h : ∀ j ∈ rest, s'.cells j = s.cells j) :
    visits s' os rest = visits s os rest := by
  apply List.map_congr_left
  intro j hj
  rw [h j hj]

structure LoopEnds (registry : List Inst) (i : Tid) (s : State Tid Inst)
    (op : ControlOp) (rest : List Inst)
    (result : Res Nat × List Inner × Mem) : Prop where
  run : ∃ s', Steps (next registry) (Alone i) s s' ∧
    s'.control i = .bulkUnlocking op result.1.toOption ∧
    (rest.map fun j => (s'.cells j).inner) = result.2.1 ∧
    s'.mem = result.2.2 ∧ ∀ j, j ∉ rest → s'.cells j = s.cells j

variable {j : Inst} {rest : List Inst} {numChanged : Nat}
  {result : Res Nat × List Inner × Mem}

theorem loopEnds_skip
    (here : s.control i = .bulkTesting op (j :: rest) numChanged)
    (hflag : s.isInstalled j = op.flag) (hj : j ∉ rest)
    (h : LoopEnds registry i
      (s.setControl i (.bulkTesting op rest numChanged)) op rest result) :
    LoopEnds registry i s op (j :: rest)
      (result.1, (s.cells j).inner :: result.2.1, result.2.2) := by
  have hstep : stepControl registry smallOs s i
      (.bulkTesting op (j :: rest) numChanged) =
        some (s.setControl i (.bulkTesting op rest numChanged)) := by
    simp [stepControl, hflag]
  obtain ⟨s', hrun, hcontrol, hinners, hmem, hothers⟩ := h.run
  refine ⟨s', steps_advance here ⟨smallOs, hstep⟩ hrun, hcontrol, ?_, hmem, ?_⟩
  · rw [List.map_cons, hinners, hothers j hj]
    rfl
  · intro k hk
    exact hothers k (List.not_mem_of_not_mem_cons hk)

theorem loopEnds_visit {s₁ : State Tid Inst} {cell : Cell Tid}
    (here : s.control i = .bulkTesting op (j :: rest) numChanged)
    (hflag : s.isInstalled j ≠ op.flag) (hj : j ∉ rest)
    (hrun₁ : Steps (next registry) (Alone i)
      (s.setControl i (.locking ⟨op, j, some (rest, numChanged)⟩)) s₁)
    (hcells : s₁.cells = Function.update s.cells j cell)
    (h : LoopEnds registry i s₁ op rest result) :
    LoopEnds registry i s op (j :: rest)
      (result.1, cell.inner :: result.2.1, result.2.2) := by
  have hstep : stepControl registry smallOs s i
      (.bulkTesting op (j :: rest) numChanged) =
        some (s.setControl i (.locking ⟨op, j, some (rest, numChanged)⟩)) := by
    simp [stepControl, hflag]
  obtain ⟨s', hrun, hcontrol, hinners, hmem, hothers⟩ := h.run
  refine ⟨s', steps_advance here ⟨smallOs, hstep⟩ (hrun₁.trans hrun), hcontrol,
    ?_, hmem, ?_⟩
  · rw [List.map_cons, hinners, hothers j hj, hcells, Function.update_self]
  · intro k hk
    rw [hothers k (List.not_mem_of_not_mem_cons hk), hcells,
      Function.update_of_ne (List.ne_of_not_mem_cons hk)]

theorem loopEnds_failed {os : Inst → Os} {e : Err}
    (here : s.control i = .bulkUnlocking op none) :
    LoopEnds registry i s op rest
      (.error e, (visits s os rest).map Visit.inner, s.mem) where
  run := ⟨s, .refl, here, by simp [visits], rfl, fun _ _ => rfl⟩

/-- Alone among free mutexes and unused gates, the loop ends as the sequential
one does. -/
theorem bulk_alone (os : Inst → Os)
    (here : s.control i = .bulkTesting op rest numChanged)
    (hnodup : rest.Nodup)
    (hfree : ∀ j ∈ rest, (s.cells j).accessMutex = none)
    (hcount : ∀ j ∈ rest, (s.cells j).numActiveCalls = 0) :
    LoopEnds registry i s op rest
      (setAllHooksInstalled op.flag (visits s os rest) s.mem numChanged) := by
  induction rest generalizing s numChanged with
  | nil =>
      exact ⟨_, steps_advance here ⟨smallOs, rfl⟩ Steps.refl,
        State.control_setControl_self _ i _, rfl, rfl, fun _ _ => rfl⟩
  | cons j rest ih =>
      obtain ⟨hj, hnodup⟩ := List.nodup_cons.mp hnodup
      simp only [List.forall_mem_cons] at hfree hcount
      rw [visits, List.map_cons, setAllHooksInstalled]
      by_cases hflag : s.isInstalled j = op.flag
      · have hsame : ((s.cells j).inner.isInstalled != op.flag) = false := by
          exact bne_eq_false_iff_eq.mpr hflag
        rw [hsame]
        exact loopEnds_skip here hflag hj
          (ih (State.control_setControl_self s i _) hnodup hfree.2 hcount.2)
      · have hdiffers : ((s.cells j).inner.isInstalled != op.flag) = true := by
          exact bne_iff_ne.mpr hflag
        rw [hdiffers, if_pos rfl]
        cases hset : (s.cells j).inner.setInstalled op.flag (os j) s.mem with
        | mk r left =>
            obtain ⟨inner, m⟩ := left
            have hleaves : Leaves registry i (s.setControl i
                (.locking ⟨op, j, some (rest, numChanged)⟩)) j _ inner m :=
              leaves_setInstalled (State.control_setControl_self s i _)
                hfree.1 hcount.1 hset
            obtain ⟨s₁, hrun₁, hcontrol₁, rfl, -, hcells₁⟩ := hleaves.run
            have hrest : ∀ k ∈ rest, s₁.cells k = s.cells k := by
              intro k hk
              rw [hcells₁]
              exact Function.update_of_ne (ne_of_mem_of_not_mem hk hj) _ _
            have hvisits := visits_congr os hrest
            cases r with
            | error e =>
                have hend : LoopEnds registry i s₁ op rest
                    (.error e, (visits s₁ os rest).map Visit.inner, s₁.mem) :=
                  loopEnds_failed hcontrol₁
                rw [hvisits] at hend
                exact loopEnds_visit here hflag hj hrun₁ hcells₁ hend
            | ok u =>
                have hfree₁ : ∀ k ∈ rest, (s₁.cells k).accessMutex = none := by
                  intro k hk
                  rw [hrest k hk]
                  exact hfree.2 k hk
                have hcount₁ : ∀ k ∈ rest, (s₁.cells k).numActiveCalls = 0 := by
                  intro k hk
                  rw [hrest k hk]
                  exact hcount.2 k hk
                have hend := ih hcontrol₁ hnodup hfree₁ hcount₁
                rw [hvisits] at hend
                exact loopEnds_visit here hflag hj hrun₁ hcells₁ hend

end Loop

end Registry

end Ztour
