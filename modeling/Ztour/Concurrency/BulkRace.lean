import Ztour.Concurrency.Registry
import Ztour.HookInst.Reversal

/-!
# Bulk calls among single operations

The loop of `set_all_hooks_installed` reads a hook's flag without its mutex, and
the operation that it then calls reads it again.  When the flag has changed in
between, the operation throws and the loop is left.
-/

namespace Ztour

open Ztour.Foundation

namespace Registry

open Concurrency TransitionSystem

variable {Tid Inst : Type}

/-! ## What a single operation needs -/

/-- A jump reaches from the hook's target to its trampoline, and there is room
for it in the bytes that the hook saved. -/
def JumpFits (inner : Inner) : Prop :=
  5 ≤ inner.patchedOriginalBytes.length ∧
    FitsSigned 32 (inner.codeEnterDetour - (inner.targetFunc + 5))

instance (inner : Inner) : Decidable (JumpFits inner) :=
  inferInstanceAs (Decidable (_ ∧ _))

theorem prepare_isOk_iff {inner : Inner} (htarget : inner.hasTargetFunc = true)
    (op : ControlOp) :
    (∃ bytes, op.prepare inner = .ok bytes) ↔
      inner.isInstalled ≠ op.flag ∧ (op = .install → JumpFits inner) := by
  cases op with
  | install =>
      simp only [ControlOp.prepare, ControlOp.flag, forall_const]
      constructor
      · rintro ⟨bytes, hok⟩
        obtain ⟨hnot, -, hlen, hfits, -⟩ := Inner.prepareInstall_eq_ok hok
        exact ⟨by simp [hnot], hlen, hfits⟩
      · rintro ⟨hnot, hlen, hfits⟩
        refine ⟨inner.patch, Inner.prepareInstall_of_fits ?_ ?_ hlen hfits⟩
        · simpa using hnot
        · simpa [Inner.hasTargetFunc] using htarget
  | uninstall =>
      simp only [ControlOp.prepare, ControlOp.flag, Inner.prepareUninstall]
      cases inner.isInstalled <;> simp

def writeSucceeds (s : State Tid Inst) (e : Tid × Act Inst) :
    Bool :=
  match e.2, s.control e.1 with
  | .advance os, .writing c bytes =>
      (overwriteExecutableMem os s.mem bytes
        (s.cells c.inst).inner.targetFunc).1.isOk
  | _, _ => true

/-- Where a bulk call's operation looks at the flag, it is still the one that
the loop saw; and where it installs, the jump fits. -/
def stillAsSeen (s : State Tid Inst) (e : Tid × Act Inst) : Bool :=
  match s.control e.1 with
  | .testing c =>
      c.bulk.isNone || (s.isInstalled c.inst ≠ c.op.flag &&
        (c.op = .uninstall || JumpFits (s.cells c.inst).inner))
  | _ => true

/-! ## No exception leaves the loop -/

def Control.failed : Control Inst → Bool
  | unlocking c false => c.bulk.isSome
  | bulkUnlocking _ none => true
  | _ => false

theorem OpCall.failed_afterWrite (c : OpCall Inst) :
    c.afterWrite.failed = false := by
  unfold afterWrite
  cases c.op <;> rfl

theorem OpCall.failed_afterUnlock (c : OpCall Inst) (returns : Bool) :
    (c.afterUnlock returns).failed =
      (Control.unlocking c returns).failed := by
  unfold afterUnlock
  cases hbulk : c.bulk <;> cases returns <;> simp [Control.failed, hbulk]

structure Unharmed (s : State Tid Inst) : Prop where
  target : ∀ j, (s.cells j).inner.hasTargetFunc = true
  failed : ∀ b, (s.control b).failed = false

section NoThrow

variable [DecidableEq Tid] [DecidableEq Inst] {registry : List Inst}
  {s s' : State Tid Inst} {i : Tid} {a : Act Inst}

theorem Transition.hasTargetFunc (h : Transition registry s i a s')
    (hold : ∀ j, (s.cells j).inner.hasTargetFunc = true) (j : Inst) :
    (s'.cells j).inner.hasTargetFunc = true := by
  cases h with
  | @setFlag c here =>
      by_cases hj : j = c.inst
      · subst hj
        simp only [State.setControl_cells, State.setInstalled,
          State.setCell_cells, Function.update_self]
        exact hold c.inst
      · simpa [State.setInstalled, hj] using hold j
  | frame here step =>
      rw [step.inner_eq]
      exact hold j
  | _ => simpa using hold j

omit [DecidableEq Tid] [DecidableEq Inst] in
theorem stillAsSeen_iff {c : OpCall Inst} (here : s.control i = .testing c)
    (htarget : (s.cells c.inst).inner.hasTargetFunc = true) :
    stillAsSeen s (i, a) = true ↔ (c.bulk.isSome = true →
      ∃ bytes, c.op.prepare (s.cells c.inst).inner = .ok bytes) := by
  simp only [stillAsSeen, here, prepare_isOk_iff htarget, Bool.or_eq_true,
    Bool.and_eq_true, decide_eq_true_eq]
  cases c.bulk <;> cases c.op <;> simp [State.isInstalled]

theorem Transition.failed (h : Transition registry s i a s')
    (hunharmed : Unharmed s) (hwrites : writeSucceeds s (i, a) = true)
    (hseen : stillAsSeen s (i, a) = true) :
    (s'.control i).failed = false := by
  have hold := hunharmed.failed i
  cases h with
  | start here outside there =>
      rcases there with ⟨_, _, rfl⟩ | ⟨_, rfl⟩ | rfl <;> simp [Control.failed]
  | @refuse c e here refused =>
      cases hbulk : c.bulk with
      | none => simp [Control.failed, hbulk]
      | some loop =>
          obtain ⟨bytes, hok⟩ := (stillAsSeen_iff here
            (hunharmed.target c.inst)).mp hseen (by simp [hbulk])
          rw [hok] at refused
          cases refused
  | writeFail act here failed =>
      subst act
      simp [writeSucceeds, here, failed, Except.isOk, Except.toBool] at hwrites
  | @write c bytes os m act here wrote =>
      rw [State.control_setControl_self]
      exact c.failed_afterWrite
  | @unlock c returns here =>
      rw [State.control_setControl_self, c.failed_afterUnlock, ← here]
      exact hold
  | lockRegistry free path =>
      rcases path with ⟨_, here, rfl⟩ | ⟨here, rfl⟩ <;> simp [Control.failed]
  | frame here step =>
      rw [step.control_eq]
      exact hold
  | _ => simp [Control.failed]

theorem Unharmed.transition (h : Unharmed s)
    (hstep : Transition registry s i a s')
    (hwrites : writeSucceeds s (i, a) = true)
    (hseen : stillAsSeen s (i, a) = true) : Unharmed s' where
  target := hstep.hasTargetFunc h.target
  failed := by
    intro b
    by_cases hb : b = i
    · subst hb
      exact hstep.failed h hwrites hseen
    · rw [hstep.control_ne hb]
      exact h.failed b

theorem failed_of_changed (h : Transition registry s i a s')
    (htarget : ∀ j, (s.cells j).inner.hasTargetFunc = true)
    (hchanged : stillAsSeen s (i, a) = false) :
    (s'.control i).failed = true := by
  obtain ⟨c, here⟩ : ∃ c, s.control i = .testing c := by
    unfold stillAsSeen at hchanged
    split at hchanged
    · rename_i c here
      exact ⟨c, here⟩
    · cases hchanged
  have hiff := stillAsSeen_iff (a := a) here (htarget c.inst)
  simp only [hchanged, Bool.false_eq_true, false_iff, Classical.not_imp,
    not_exists] at hiff
  obtain ⟨hbulk, hrefused⟩ := hiff
  cases h with
  | refuse here' refused =>
      cases here.symm.trans here'
      simpa [Control.failed] using hbulk
  | prepare here' ready =>
      cases here.symm.trans here'
      exact absurd ready (hrefused _)
  | _ => simp_all

end NoThrow

/-! ## Every hook has its moment -/

namespace Control

/-- The operation of a bulk call, and the hooks that it has not settled. -/
def unsettled : Control Inst → Option (ControlOp × List Inst)
  | locking c | testing c | writing c _ | gateTest c | waiting c | flagging c
  | unlocking c false => c.bulk.map fun loop => (c.op, c.inst :: loop.1)
  | unlocking c true => c.bulk.map fun loop => (c.op, loop.1)
  | bulkTesting op rest _ => some (op, rest)
  | bulkUnlocking op (some _) => some (op, [])
  | bulkUnlocking _ none | idle | bulkLocking _ | lookupLocking
  | lookupUnlocking => none

def Settled (op : ControlOp) (j : Inst) (q : Control Inst) : Prop :=
  ∃ rest, q.unsettled = some (op, rest) ∧ j ∉ rest

end Control

theorem OpCall.unsettled_afterWrite (c : OpCall Inst) :
    c.afterWrite.unsettled =
      c.bulk.map fun loop => (c.op, c.inst :: loop.1) := by
  unfold afterWrite
  split <;> rfl

section Moments

variable [DecidableEq Tid] [DecidableEq Inst] {registry : List Inst}
  {s s' : State Tid Inst} {i b : Tid} {a : Act Inst} {op : ControlOp}
  {j : Inst}

def LocksForBulk (b : Tid) (e : Event (State Tid Inst) (Tid × Act Inst)) :
    Prop :=
  e.action.1 = b ∧ ∃ op, e.before.control b = .bulkLocking op

theorem Transition.settled (h : Transition registry s i a s')
    (hj : j ∈ registry) (hafter : (s'.control i).Settled op j) :
    s'.isInstalled j = op.flag ∨
      ((∀ o, s.control i ≠ .bulkLocking o) ∧ (s.control i).Settled op j) := by
  cases h with
  | start here outside there =>
      obtain ⟨rest, hrest, -⟩ := hafter
      rcases there with ⟨_, _, rfl⟩ | ⟨_, rfl⟩ | rfl <;>
        simp [Control.unsettled] at hrest
  | @write c bytes os m act here wrote =>
      rw [State.control_setControl_self, Control.Settled,
        c.unsettled_afterWrite] at hafter
      right
      rw [here]
      exact ⟨by simp, hafter⟩
  | @setFlag c here =>
      obtain ⟨rest, hrest, hnot⟩ := hafter
      simp only [State.control_setControl_self, Control.unsettled,
        Option.map_eq_some_iff, Prod.mk.injEq] at hrest
      obtain ⟨loop, hloop, hop, rfl⟩ := hrest
      subst hop
      by_cases heq : j = c.inst
      · subst heq
        exact .inl (State.isInstalled_setInstalled_self s c.inst c.op.flag)
      · right
        rw [here]
        refine ⟨by simp, c.inst :: loop.1, ?_, ?_⟩
        · simp [Control.unsettled, hloop]
        · simp [heq, hnot]
  | @unlock c returns here =>
      right
      rw [here]
      refine ⟨by simp, ?_⟩
      obtain ⟨rest, hrest, hnot⟩ := hafter
      rw [State.control_setControl_self] at hrest
      unfold OpCall.afterUnlock at hrest
      split at hrest
      · simp [Control.unsettled] at hrest
      · rename_i loop numChanged hbulk
        simp only [Control.unsettled, Option.some.injEq] at hrest
        refine ⟨rest, ?_, hnot⟩
        simpa [Control.unsettled, hbulk] using hrest
      · simp [Control.unsettled] at hrest
  | lockRegistry free path =>
      obtain ⟨rest, hrest, hnot⟩ := hafter
      rcases path with ⟨_, here, rfl⟩ | ⟨here, rfl⟩
      · simp only [State.control_setControl_self, Control.unsettled,
          Option.some.injEq, Prod.mk.injEq] at hrest
        exact absurd (hrest.2 ▸ hj) hnot
      · simp [Control.unsettled] at hrest
  | @skip o k rest' n here same =>
      obtain ⟨rest, hrest, hnot⟩ := hafter
      simp only [State.control_setControl_self, Control.unsettled,
        Option.some.injEq, Prod.mk.injEq] at hrest
      obtain ⟨rfl, rfl⟩ := hrest
      by_cases heq : j = k
      · subst heq
        exact .inl same
      · right
        rw [here]
        exact ⟨by simp, k :: rest', rfl, by simp [heq, hnot]⟩
  | pass here unused available =>
      right
      rcases here with here | here <;> rw [here] <;>
        exact ⟨by simp, by simpa [Control.Settled, Control.unsettled] using hafter⟩
  | unlockRegistry here =>
      obtain ⟨rest, hrest, -⟩ := hafter
      simp [Control.unsettled] at hrest
  | frame here step =>
      obtain ⟨rest, hrest, -⟩ := hafter
      simp [step.control_eq, here, Control.unsettled] at hrest
  | lock here _ | refuse here _ | prepare here _ | writeFail _ here _
  | wait here _ | visit here _ | finish here =>
      right
      rw [here]
      exact ⟨by simp, by simpa [Control.Settled, Control.unsettled] using hafter⟩

variable {inner : Inst → Inner}
  {history : List (Event (State Tid Inst) (Tid × Act Inst))}

omit [DecidableEq Tid] [DecidableEq Inst] in
theorem unharmed_start (htarget : ∀ j, (inner j).hasTargetFunc = true)
    (m : Mem) : Unharmed (start m inner : State Tid Inst) where
  target := htarget
  failed := by simp [start, State.control, Control.failed]

theorem reachable_hasTargetFunc (htarget : ∀ j, (inner j).hasTargetFunc = true)
    (h : (registrySystem registry inner).Reachable s) (j : Inst) :
    (s.cells j).inner.hasTargetFunc = true := by
  apply ReachableUnder.invariant (I := fun s : State Tid Inst =>
    ∀ j, (s.cells j).inner.hasTargetFunc = true) _ _ h
  · rintro s ⟨m, rfl⟩
    exact htarget
  · intro s e s' hold hstep _
    exact (next_transition hstep).hasTargetFunc hold

theorem unharmed_of_asSeen (htarget : ∀ j, (inner j).hasTargetFunc = true)
    (h : (registrySystem registry inner).ReachableUnder (fun s e _ =>
      writeSucceeds s e = true ∧ stillAsSeen s e = true) s) : Unharmed s := by
  apply ReachableUnder.invariant _ _ h
  · rintro s ⟨m, rfl⟩
    exact unharmed_start htarget m
  · intro s e s' hold hstep hcond
    exact hold.transition (next_transition hstep) hcond.1 hcond.2

theorem not_failed_iff (htarget : ∀ j, (inner j).hasTargetFunc = true)
    (h : (registrySystem registry inner).Run s history)
    (hwrites : ∀ e ∈ history, writeSucceeds e.before e.action = true) :
    (∀ e ∈ history, ∀ b, (e.after.control b).failed = false) ↔
      ∀ e ∈ history, stillAsSeen e.before e.action = true := by
  induction h with
  | init h => simp
  | @step s e s' history hrun hs ih =>
      rw [List.forall_mem_cons] at hwrites
      simp only [List.forall_mem_cons, ih hwrites.2]
      apply and_congr_left
      intro hearlier
      have htrans := next_transition hs
      constructor
      · intro hlast
        by_contra hchanged
        have hfailed := failed_of_changed htrans
          (reachable_hasTargetFunc htarget hrun.reachable)
          (by simpa using hchanged)
        rw [hlast e.1] at hfailed
        cases hfailed
      · intro hlast
        have hunharmed := unharmed_of_asSeen htarget
          (hrun.reachableUnder fun e he =>
            ⟨hwrites.2 e he, hearlier e he⟩)
        exact (hunharmed.transition htrans hwrites.1 hlast).failed

theorem moment_of_settled (h : (registrySystem registry inner).Run s history)
    (hj : j ∈ registry) (hsettled : (s.control b).Settled op j) :
    HeldSince (fun e => e.after.isInstalled j = op.flag)
      (fun e => ¬ LocksForBulk b e) history := by
  apply Run.heldSince (P := fun s => (s.control b).Settled op j) _ _ h hsettled
  · rintro s ⟨m, rfl⟩ ⟨rest, hrest, -⟩
    simp [start, State.control, Control.unsettled] at hrest
  · rintro s ⟨i, a⟩ s' _ hstep hafter
    have htrans := next_transition hstep
    by_cases hb : b = i
    · subst hb
      rcases htrans.settled hj hafter with hflag | ⟨hno, hbefore⟩
      · exact .inl hflag
      · right
        refine ⟨?_, hbefore⟩
        rintro ⟨-, o, hlocking⟩
        exact hno o hlocking
    · right
      rw [htrans.control_ne hb] at hafter
      exact ⟨fun hlocks => hb hlocks.1.symm, hafter⟩

/-- In a run in which all writes succeed, no bulk call throws exactly when every
flag is still as its loop saw it, and every jump fits; and a bulk call that
returns has found or put every hook in the wanted state since it took the lock. -/
theorem bulk_tolerates_iff (htarget : ∀ j, (inner j).hasTargetFunc = true)
    (h : (registrySystem registry inner).Run s history)
    (hwrites : ∀ e ∈ history, writeSucceeds e.before e.action = true) :
    ((∀ e ∈ history, ∀ b, (e.after.control b).failed = false) ↔
      ∀ e ∈ history, stillAsSeen e.before e.action = true) ∧
    ∀ b op n, s.control b = .bulkUnlocking op (some n) → ∀ j ∈ registry,
      HeldSince (fun e => e.after.isInstalled j = op.flag)
        (fun e => ¬ LocksForBulk b e) history := by
  refine ⟨not_failed_iff htarget h hwrites, ?_⟩
  intro b op n hcontrol j hj
  apply moment_of_settled h hj
  rw [hcontrol]
  exact ⟨[], rfl, List.not_mem_nil⟩

end Moments

/-! ## One thread behind another -/

def removesBoth : List (Bool × Act Bool) :=
  performs true .install false ++ performs true .install true ++
    (false, .startBulk .uninstall) :: advances false 16

theorem bulk_tolerates_nops :
    ∃ (s : State Bool Bool)
      (history : List (Event (State Bool Bool) (Bool × Act Bool))),
      (registrySystem [false, true] nopsInner).Run s history ∧
      s.control false = .bulkUnlocking .uninstall (some 2) ∧
      (∀ e ∈ history, ∀ b, (e.after.control b).failed = false) ∧
      ∀ j, HeldSince (fun e => e.after.isInstalled j = false)
        (fun e => ¬ LocksForBulk false e) history := by
  have hrun : (replayUnder (next [false, true])
      (fun s e => writeSucceeds s e && stillAsSeen s e) nopsState
      removesBoth).map (fun s => s.control false) =
        some (.bulkUnlocking .uninstall (some 2)) := by
    decide +kernel
  obtain ⟨s, hreplay, hcontrol⟩ := Option.map_eq_some_iff.mp hrun
  obtain ⟨history, h, hallowed⟩ := nopsState_run.replayUnder
    (fun _ _ _ hstep => hstep) (by simp) hreplay
  simp only [Bool.and_eq_true] at hallowed
  obtain ⟨hiff, hmoment⟩ := bulk_tolerates_iff (by decide) h
    fun e he => (hallowed e he).1
  refine ⟨s, history, h, hcontrol, ?_, ?_⟩
  · exact hiff.mpr fun e he => (hallowed e he).2
  · intro j
    exact hmoment false .uninstall 2 hcontrol j (by cases j <;> decide)

def overtaken : List (Bool × Act Bool) :=
  performs true .install false ++ performs true .install true ++
    (false, .startBulk .uninstall) :: advances false 2 ++
    performs true .uninstall false ++ advances false 3

theorem bulk_throws :
    ∃ (s : State Bool Bool)
      (history : List (Event (State Bool Bool) (Bool × Act Bool))),
      (registrySystem [false, true] nopsInner).Run s history ∧
      (∀ j, (nopsInner j).hasTargetFunc = true) ∧
      (∀ e ∈ history, writeSucceeds e.before e.action = true) ∧
      s.control false = .bulkUnlocking .uninstall none ∧
      s.isInstalled true = true := by
  have hrun : (replayUnder (next [false, true]) writeSucceeds nopsState
      overtaken).map (fun s => (s.control false, s.isInstalled true)) =
        some (.bulkUnlocking .uninstall none, true) := by
    decide +kernel
  obtain ⟨s, hreplay, hfacts⟩ := Option.map_eq_some_iff.mp hrun
  simp only [Prod.mk.injEq] at hfacts
  obtain ⟨history, h, hwrites⟩ := nopsState_run.replayUnder
    (fun _ _ _ hstep => hstep) (by simp) hreplay
  exact ⟨s, history, h, by decide, hwrites, hfacts⟩

end Registry

end Ztour
