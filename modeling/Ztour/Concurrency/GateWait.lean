import Ztour.Base
import Ztour.Foundation.TransitionSystem

/-!
# The call gate with its condition variable

Any number of threads enter and leave calls and wait at one gate.  Every access
to the counter, every operation on the mutex and on the condition variable is a
step of its own.  A call is known by its thread and by the address of its scope
guard, an object of which no two that are alive share an address.
-/

namespace Ztour

open Ztour.Foundation

namespace Gate

open TransitionSystem

inductive Place where
  | running
  | exitLocking
  | exitNotifying
  | exitUnlocking
  | waitLocking
  | waitChecking
  | waitTested (seen : BitVec 64)
  | asleep
  | waking
  deriving DecidableEq, Repr

namespace Place

def holdsMutex : Place → Bool
  | exitNotifying | exitUnlocking | waitChecking | waitTested _ => true
  | _ => false

def inWait : Place → Bool
  | waitLocking | waitChecking | waitTested _ | asleep | waking => true
  | _ => false

/-- The thread sleeps, or is about to because of what it saw. -/
def unnotified : Place → Bool
  | asleep => true
  | waitTested seen => seen ≠ 0
  | _ => false

/-- The thread has taken the counter to 0 and has not notified yet. -/
def notifier : Place → Bool
  | exitLocking | exitNotifying => true
  | _ => false

def woken : Place → Place
  | asleep => waking
  | p => p

@[simp] theorem holdsMutex_woken (p : Place) :
    p.woken.holdsMutex = p.holdsMutex := by
  cases p <;> rfl

theorem holdsMutex_of_unnotified_woken {p : Place}
    (h : p.woken.unnotified = true) : p.holdsMutex = true := by
  cases p with
  | waitTested seen => rfl
  | _ => simp [woken, unnotified] at h

end Place

structure State (Tid : Type) where
  numActiveCalls : BitVec 64
  condMutex : Option Tid
  calls : List (Tid × Ptr)
  place : Tid → Place

variable {Tid : Type}

def State.guards (s : State Tid) : List Ptr := s.calls.map Prod.snd

inductive Act where
  | onEnterCall (scopeGuard : Ptr)
  | onExitCall (scopeGuard : Ptr)
  | wait
  | advance
  | wake
  deriving DecidableEq, Repr

namespace State

variable (s : State Tid)

@[simps]
def setCondMutex (owner : Option Tid) : State Tid :=
  { s with condMutex := owner }

@[simps]
def notifyAll : State Tid :=
  { s with place := fun j => (s.place j).woken }

variable [DecidableEq Tid]

@[simps]
def setPlace (i : Tid) (p : Place) : State Tid :=
  { s with place := Function.update s.place i p }

@[simps]
def enterCall (i : Tid) (scopeGuard : Ptr) : State Tid :=
  { s with
    numActiveCalls := s.numActiveCalls + 1
    calls := (i, scopeGuard) :: s.calls }

@[simps]
def exitCall (i : Tid) (scopeGuard : Ptr) : State Tid :=
  { s with
    numActiveCalls := s.numActiveCalls - 1
    calls := s.calls.erase (i, scopeGuard) }

end State

section Steps

variable [DecidableEq Tid]

def advance (s : State Tid) (i : Tid) : Place → Option (State Tid)
  | .running => none
  | .exitLocking =>
      if s.condMutex.isNone then
        some ((s.setCondMutex (some i)).setPlace i .exitNotifying)
      else none
  | .exitNotifying => some (s.notifyAll.setPlace i .exitUnlocking)
  | .exitUnlocking => some ((s.setCondMutex none).setPlace i .running)
  | .waitLocking | .waking =>
      if s.condMutex.isNone then
        some ((s.setCondMutex (some i)).setPlace i .waitChecking)
      else none
  | .waitChecking => some (s.setPlace i (.waitTested s.numActiveCalls))
  | .waitTested seen =>
      -- the mutex is given up for good, or for as long as the thread sleeps
      if seen = 0 then some ((s.setCondMutex none).setPlace i .running)
      else some ((s.setCondMutex none).setPlace i .asleep)
  | .asleep => none

/-- The state after thread `e.1` takes the step `e.2`, if it can.  A sleeping
thread may wake without being notified. -/
def next (s : State Tid) (e : Tid × Act) : Option (State Tid) :=
  match e.2 with
  | .onEnterCall scopeGuard =>
      if s.place e.1 = .running ∧ scopeGuard ∉ 0 :: s.guards then
        some (s.enterCall e.1 scopeGuard)
      else none
  | .onExitCall scopeGuard =>
      if s.place e.1 = .running ∧ (e.1, scopeGuard) ∈ s.calls then
        let remaining := s.numActiveCalls - 1
        if remaining = 0 then
          some ((s.exitCall e.1 scopeGuard).setPlace e.1 .exitLocking)
        else some (s.exitCall e.1 scopeGuard)
      else none
  | .wait =>
      if s.place e.1 = .running then some (s.setPlace e.1 .waitLocking)
      else none
  | .advance => advance s e.1 (s.place e.1)
  | .wake =>
      if s.place e.1 = .asleep then some (s.setPlace e.1 .waking) else none

end Steps

def start : State Tid where
  numActiveCalls := 0
  condMutex := none
  calls := []
  place := fun _ => .running

def gateSystem [DecidableEq Tid] :
    TransitionSystem (State Tid) (Tid × Act) where
  init s := s = start
  step s e s' := next s e = some s'

/-! ## What a step can do -/

section Transitions

variable [DecidableEq Tid]

inductive Transition (s : State Tid) (i : Tid) : Act → State Tid → Prop
  | enter {scopeGuard} (outside : s.place i = .running)
      (fresh : scopeGuard ∉ 0 :: s.guards) :
      Transition s i (.onEnterCall scopeGuard) (s.enterCall i scopeGuard)
  | exit {scopeGuard} (outside : s.place i = .running)
      (entered : (i, scopeGuard) ∈ s.calls)
      (others : s.numActiveCalls - 1 ≠ 0) :
      Transition s i (.onExitCall scopeGuard) (s.exitCall i scopeGuard)
  | exitLast {scopeGuard} (outside : s.place i = .running)
      (entered : (i, scopeGuard) ∈ s.calls)
      (last : s.numActiveCalls - 1 = 0) :
      Transition s i (.onExitCall scopeGuard)
        ((s.exitCall i scopeGuard).setPlace i .exitLocking)
  | exitLock (here : s.place i = .exitLocking) (free : s.condMutex = none) :
      Transition s i .advance
        ((s.setCondMutex (some i)).setPlace i .exitNotifying)
  | exitNotify (here : s.place i = .exitNotifying) :
      Transition s i .advance (s.notifyAll.setPlace i .exitUnlocking)
  | exitUnlock (here : s.place i = .exitUnlocking) :
      Transition s i .advance ((s.setCondMutex none).setPlace i .running)
  | startWait (outside : s.place i = .running) :
      Transition s i .wait (s.setPlace i .waitLocking)
  | waitLock (here : s.place i = .waitLocking ∨ s.place i = .waking)
      (free : s.condMutex = none) :
      Transition s i .advance
        ((s.setCondMutex (some i)).setPlace i .waitChecking)
  | check (here : s.place i = .waitChecking) :
      Transition s i .advance (s.setPlace i (.waitTested s.numActiveCalls))
  | waitReturn (here : s.place i = .waitTested 0) :
      Transition s i .advance ((s.setCondMutex none).setPlace i .running)
  | sleep {seen} (here : s.place i = .waitTested seen) (active : seen ≠ 0) :
      Transition s i .advance ((s.setCondMutex none).setPlace i .asleep)
  | wake (here : s.place i = .asleep) :
      Transition s i .wake (s.setPlace i .waking)

variable {s s' : State Tid} {i : Tid} {a : Act}

theorem advance_transition {p : Place} (hp : s.place i = p)
    (h : advance s i p = some s') : Transition s i .advance s' := by
  cases p with
  | running => simp [advance] at h
  | asleep => simp [advance] at h
  | exitLocking =>
      simp only [advance, Option.isNone_iff_eq_none,
        Option.ite_none_right_eq_some, Option.some.injEq] at h
      rw [← h.2]
      exact .exitLock hp h.1
  | exitNotifying =>
      simp only [advance, Option.some.injEq] at h
      rw [← h]
      exact .exitNotify hp
  | exitUnlocking =>
      simp only [advance, Option.some.injEq] at h
      rw [← h]
      exact .exitUnlock hp
  | waitLocking =>
      simp only [advance, Option.isNone_iff_eq_none,
        Option.ite_none_right_eq_some, Option.some.injEq] at h
      rw [← h.2]
      exact .waitLock (.inl hp) h.1
  | waking =>
      simp only [advance, Option.isNone_iff_eq_none,
        Option.ite_none_right_eq_some, Option.some.injEq] at h
      rw [← h.2]
      exact .waitLock (.inr hp) h.1
  | waitChecking =>
      simp only [advance, Option.some.injEq] at h
      rw [← h]
      exact .check hp
  | waitTested seen =>
      simp only [advance] at h
      split at h
      · rename_i hzero
        cases h
        exact .waitReturn (hzero ▸ hp)
      · rename_i hactive
        cases h
        exact .sleep hp hactive

theorem next_transition (h : next s (i, a) = some s') :
    Transition s i a s' := by
  cases a with
  | onEnterCall scopeGuard =>
      simp only [next, Option.ite_none_right_eq_some, Option.some.injEq] at h
      rw [← h.2]
      exact .enter h.1.1 h.1.2
  | onExitCall scopeGuard =>
      simp only [next, Option.ite_none_right_eq_some] at h
      obtain ⟨⟨houtside, hentered⟩, h⟩ := h
      split at h
      · rename_i hlast
        cases h
        exact .exitLast houtside hentered hlast
      · rename_i hothers
        cases h
        exact .exit houtside hentered hothers
  | wait =>
      simp only [next, Option.ite_none_right_eq_some, Option.some.injEq] at h
      rw [← h.2]
      exact .startWait h.1
  | advance => exact advance_transition rfl h
  | wake =>
      simp only [next, Option.ite_none_right_eq_some, Option.some.injEq] at h
      rw [← h.2]
      exact .wake h.1

end Transitions

/-! ## The counter -/

theorem length_lt_of_nodup {guards : List Ptr} (h : (0 :: guards).Nodup) :
    guards.length < 2 ^ 64 := by
  have hnats : ((0 :: guards).map BitVec.toNat).Nodup :=
    h.map fun _ _ => BitVec.eq_of_toNat_eq
  have hsub : (0 :: guards).map BitVec.toNat ⊆ List.range (2 ^ 64) := by
    intro n hn
    obtain ⟨guard, -, rfl⟩ := List.mem_map.mp hn
    exact List.mem_range.mpr guard.isLt
  have hle := (hnats.subperm hsub).length_le
  simpa using hle

structure Counted (s : State Tid) : Prop where
  guards : (0 :: s.guards).Nodup
  counter : s.numActiveCalls.toNat = s.calls.length

section Counter

variable {s : State Tid} {i : Tid} {scopeGuard : Ptr}

theorem Counted.enter_lt (h : Counted s) (hfresh : scopeGuard ∉ 0 :: s.guards) :
    s.calls.length + 1 < 2 ^ 64 := by
  have hcons : (0 :: scopeGuard :: s.guards).Nodup :=
    (List.Perm.swap _ _ _).nodup_iff.mp (List.nodup_cons.mpr ⟨hfresh, h.guards⟩)
  simpa [State.guards] using length_lt_of_nodup hcons

theorem Counted.pos (h : Counted s) (hentered : (i, scopeGuard) ∈ s.calls) :
    0 < s.numActiveCalls.toNat := by
  rw [h.counter]
  exact List.length_pos_of_mem hentered

theorem Counted.enterCall (h : Counted s)
    (hfresh : scopeGuard ∉ 0 :: s.guards) :
    Counted (s.enterCall i scopeGuard) := by
  have hlt := h.enter_lt hfresh
  constructor
  · exact (List.Perm.swap _ _ _).nodup_iff.mp
      (List.nodup_cons.mpr ⟨hfresh, h.guards⟩)
  · simp only [State.enterCall_numActiveCalls, State.enterCall_calls,
      BitVec.toNat_add, h.counter, List.length_cons]
    exact Nat.mod_eq_of_lt hlt

variable [DecidableEq Tid]

theorem Counted.exitCall (h : Counted s)
    (hentered : (i, scopeGuard) ∈ s.calls) :
    Counted (s.exitCall i scopeGuard) := by
  have hpos := h.pos hentered
  have hlt := s.numActiveCalls.isLt
  constructor
  · have hsub : (s.exitCall i scopeGuard).guards.Sublist s.guards := by
      apply List.Sublist.map
      exact List.erase_sublist
    exact List.Nodup.sublist (hsub.cons_cons 0) h.guards
  · simp only [State.exitCall_numActiveCalls, State.exitCall_calls,
      List.length_erase_of_mem hentered, ← h.counter, BitVec.toNat_sub]
    simp
    omega

theorem Counted.transition {s' : State Tid} {a : Act} (h : Counted s)
    (hstep : Transition s i a s') : Counted s' := by
  cases hstep with
  | enter outside fresh => exact h.enterCall fresh
  | exit outside entered others => exact h.exitCall entered
  | exitLast outside entered last =>
      exact ⟨(h.exitCall entered).guards, (h.exitCall entered).counter⟩
  | _ => exact ⟨h.guards, h.counter⟩

end Counter

/-! ## The mutex -/

def MutexHeld (s : State Tid) : Prop :=
  ∀ i, s.condMutex = some i ↔ (s.place i).holdsMutex = true

section Mutex

variable [DecidableEq Tid] {s : State Tid} {i : Tid} {p : Place}

theorem MutexHeld.lock (h : MutexHeld s) (hfree : s.condMutex = none)
    (hp : p.holdsMutex = true) :
    MutexHeld ((s.setCondMutex (some i)).setPlace i p) := by
  intro j
  have hj := h j
  by_cases heq : j = i
  · subst heq
    simp [hp]
  · simp [hfree] at hj
    simp [Function.update_of_ne heq, hj, Ne.symm heq]

theorem MutexHeld.unlock (h : MutexHeld s)
    (hhere : (s.place i).holdsMutex = true) (hp : p.holdsMutex = false) :
    MutexHeld ((s.setCondMutex none).setPlace i p) := by
  intro j
  have hj := h j
  rw [(h i).mpr hhere] at hj
  by_cases heq : j = i
  · subst heq
    simp [hp]
  · simp [Ne.symm heq] at hj
    simp [Function.update_of_ne heq, hj]

theorem MutexHeld.setPlace (h : MutexHeld s)
    (hp : p.holdsMutex = (s.place i).holdsMutex) :
    MutexHeld (s.setPlace i p) := by
  intro j
  have hj := h j
  by_cases heq : j = i
  · subst heq
    simpa [hp] using hj
  · simpa [Function.update_of_ne heq] using hj

theorem MutexHeld.transition {s' : State Tid} {a : Act} (h : MutexHeld s)
    (hstep : Transition s i a s') : MutexHeld s' := by
  cases hstep with
  | enter outside fresh => exact h
  | exit outside entered others => exact h
  | exitLast outside entered last =>
      apply MutexHeld.setPlace (s := s.exitCall i _) h
      simp [outside, Place.holdsMutex]
  | exitLock here free => exact h.lock free rfl
  | exitNotify here =>
      have hwoken : MutexHeld s.notifyAll := by
        intro j
        simpa using h j
      apply hwoken.setPlace
      simp only [State.notifyAll_place, Place.holdsMutex_woken, here]
      rfl
  | exitUnlock here => exact h.unlock (by simp [here, Place.holdsMutex]) rfl
  | startWait outside =>
      apply h.setPlace
      simp [outside, Place.holdsMutex]
  | waitLock here free => exact h.lock free rfl
  | check here =>
      apply h.setPlace
      simp [here, Place.holdsMutex]
  | waitReturn here => exact h.unlock (by simp [here, Place.holdsMutex]) rfl
  | sleep here active => exact h.unlock (by simp [here, Place.holdsMutex]) rfl
  | wake here =>
      apply h.setPlace
      simp [here, Place.holdsMutex]

end Mutex

/-! ## No wake-up is lost -/

/-- While the counter is 0, a thread that sleeps or is about to sleep is still
to be notified. -/
def WakeUpPending (s : State Tid) : Prop :=
  ∀ i, (s.place i).unnotified = true → s.numActiveCalls = 0 →
    ∃ j, (s.place j).notifier = true

section WakeUp

variable [DecidableEq Tid] {s : State Tid} {i : Tid} {p : Place}

theorem WakeUpPending.setPlace (h : WakeUpPending s)
    (hhere : (s.place i).notifier = false)
    (hp : p.unnotified = true → s.numActiveCalls = 0 →
      (s.place i).unnotified = true) :
    WakeUpPending (s.setPlace i p) := by
  intro j hj hzero
  have hold : (s.place j).unnotified = true := by
    by_cases heq : j = i
    · subst heq
      apply hp _ hzero
      simpa using hj
    · simpa [Function.update_of_ne heq] using hj
  obtain ⟨k, hk⟩ := h j hold hzero
  have hne : k ≠ i := by
    intro heq
    simp [heq, hhere] at hk
  exact ⟨k, by simpa [Function.update_of_ne hne] using hk⟩

theorem WakeUpPending.transition {s' : State Tid} {a : Act} (h : WakeUpPending s)
    (hcount : Counted s) (hmutex : MutexHeld s)
    (hstep : Transition s i a s') : WakeUpPending s' := by
  cases hstep with
  | enter outside fresh =>
      intro j hj hzero
      -- the counter is positive now
      have hcount' := (hcount.enterCall (i := i) fresh).counter
      rw [hzero] at hcount'
      simp at hcount'
  | exit outside entered others =>
      intro j hj hzero
      exact absurd hzero others
  | exitLast outside entered last =>
      intro j hj hzero
      exact ⟨i, by simp [Place.notifier]⟩
  | exitLock here free =>
      intro j hj hzero
      exact ⟨i, by simp [Place.notifier]⟩
  | exitNotify here =>
      intro j hj hzero
      -- whoever was asleep has been woken, and nobody else holds the mutex
      exfalso
      by_cases heq : j = i
      · simp [heq, Place.unnotified] at hj
      · simp only [State.setPlace_place, Function.update_of_ne heq,
          State.notifyAll_place] at hj
        have hheld := Place.holdsMutex_of_unnotified_woken hj
        have hi := (hmutex i).mpr (by simp [here, Place.holdsMutex])
        have hsame := ((hmutex j).mpr hheld).symm.trans hi
        exact heq (Option.some.inj hsame)
  | exitUnlock here =>
      apply WakeUpPending.setPlace (s := s.setCondMutex none) h
      · simp [here, Place.notifier]
      · simp [Place.unnotified]
  | startWait outside =>
      apply h.setPlace
      · simp [outside, Place.notifier]
      · simp [Place.unnotified]
  | waitLock here free =>
      apply WakeUpPending.setPlace (s := s.setCondMutex (some i)) h
      · rcases here with here | here <;> simp [here, Place.notifier]
      · simp [Place.unnotified]
  | check here =>
      apply h.setPlace
      · simp [here, Place.notifier]
      · intro hseen hzero
        simp [Place.unnotified, hzero] at hseen
  | waitReturn here =>
      apply WakeUpPending.setPlace (s := s.setCondMutex none) h
      · simp [here, Place.notifier]
      · simp [Place.unnotified]
  | sleep here active =>
      apply WakeUpPending.setPlace (s := s.setCondMutex none) h
      · simp [here, Place.notifier]
      · intro _ _
        simpa [here, Place.unnotified] using active
  | wake here =>
      apply h.setPlace
      · simp [here, Place.notifier]
      · simp [Place.unnotified]

end WakeUp

/-! ## Runs -/

section Runs

variable [DecidableEq Tid] {s s' : State Tid} {i j : Tid} {a : Act}

structure Invariant (s : State Tid) : Prop where
  counted : Counted s
  mutex : MutexHeld s
  pending : WakeUpPending s

omit [DecidableEq Tid] in
theorem invariant_start : Invariant (start : State Tid) where
  counted := ⟨by simp [start, State.guards], by simp [start]⟩
  mutex := by
    intro i
    simp [start, Place.holdsMutex]
  pending := by
    intro i hi
    simp [start, Place.unnotified] at hi

theorem Invariant.transition (h : Invariant s) (hstep : Transition s i a s') :
    Invariant s' where
  counted := h.counted.transition hstep
  mutex := h.mutex.transition hstep
  pending := h.pending.transition h.counted h.mutex hstep

theorem reachable_invariant (h : gateSystem.Reachable s) : Invariant s := by
  apply ReachableUnder.invariant _ _ h
  · intro s hs
    rw [show s = start from hs]
    exact invariant_start
  · intro s e s' hinv hstep _
    exact hinv.transition (next_transition hstep)

theorem Transition.place_ne (h : Transition s i a s') (hne : j ≠ i) :
    s'.place j = s.place j ∨ s'.place j = (s.place j).woken := by
  cases h with
  | exitNotify here => simp [Function.update_of_ne hne]
  | _ => simp [Function.update_of_ne hne]

def SawZero (i : Tid) (e : Event (State Tid) (Tid × Act)) : Prop :=
  e.action = (i, .advance) ∧ e.before.place i = .waitChecking ∧
    e.before.numActiveCalls = 0

def TookToZero (i : Tid) (e : Event (State Tid) (Tid × Act)) : Prop :=
  (∃ scopeGuard, e.action = (i, .onExitCall scopeGuard)) ∧
    e.after.numActiveCalls = 0

def Notifies (i : Tid) (e : Event (State Tid) (Tid × Act)) : Prop :=
  e.action = (i, .advance) ∧ e.before.place i = .exitNotifying

variable {history : List (Event (State Tid) (Tid × Act))}

theorem sawZero_of_waitTested (h : gateSystem.Run s history)
    (hi : s.place i = .waitTested 0) :
    HeldSince (SawZero i) (fun e => e.action.1 ≠ i) history := by
  apply Run.heldSince (P := fun s => s.place i = .waitTested 0)
    _ _ h hi
  · intro s hs
    rw [show s = start from hs]
    simp [start]
  · intro s ⟨k, a⟩ s' _ hstep hafter
    have htrans := next_transition hstep
    by_cases heq : k = i
    · subst heq
      left
      cases htrans <;> simp_all [SawZero]
    · right
      refine ⟨heq, ?_⟩
      rcases htrans.place_ne (Ne.symm heq) with hsame | hwoken
      · rw [← hsame, hafter]
      · rw [hwoken] at hafter
        revert hafter
        cases s.place i <;> simp [Place.woken]

theorem tookToZero_of_notifier (h : gateSystem.Run s history)
    (hj : (s.place j).notifier = true) :
    HeldSince (TookToZero j) (fun e => ¬ Notifies j e) history := by
  apply Run.heldSince
    (P := fun s => (s.place j).notifier = true) _ _ h hj
  · intro s hs
    rw [show s = start from hs]
    simp [start, Place.notifier]
  · intro s ⟨k, a⟩ s' _ hstep hafter
    have htrans := next_transition hstep
    by_cases heq : k = j
    · subst heq
      cases htrans with
      | exitLast outside entered last => exact .inl ⟨⟨_, rfl⟩, last⟩
      | exitLock here free =>
          right
          simp [Notifies, here, Place.notifier]
      | _ => simp_all [Place.notifier]
    · right
      refine ⟨fun hnotify => heq (congrArg Prod.fst hnotify.1), ?_⟩
      rcases htrans.place_ne (Ne.symm heq) with hsame | hwoken
      · rw [← hsame, hafter]
      · rw [hwoken] at hafter
        revert hafter
        cases s.place j <;> simp [Place.woken, Place.notifier]

/-- No wake-up is lost, and the counter counts. -/
theorem no_lost_wake_up (h : gateSystem.Run s history) :
    s.numActiveCalls.toNat = s.calls.length ∧
    (∀ i scopeGuard s', next s (i, .onEnterCall scopeGuard) = some s' →
      s'.numActiveCalls.toNat = s.numActiveCalls.toNat + 1) ∧
    (∀ i scopeGuard s', next s (i, .onExitCall scopeGuard) = some s' →
      s'.numActiveCalls.toNat + 1 = s.numActiveCalls.toNat) ∧
    (∀ i s', next s (i, .advance) = some s' → (s.place i).inWait = true →
      s'.place i = .running →
        HeldSince (SawZero i) (fun e => e.action.1 ≠ i) history) ∧
    (∀ i, s.place i = .asleep → s.numActiveCalls = 0 →
      ∃ j, HeldSince (TookToZero j) (fun e => ¬ Notifies j e) history) := by
  have hinv := reachable_invariant h.reachable
  refine ⟨hinv.counted.counter, ?_, ?_, ?_, ?_⟩
  · intro i scopeGuard s' hstep
    have htrans := next_transition hstep
    rw [hinv.counted.counter, (hinv.counted.transition htrans).counter]
    cases htrans
    rfl
  · intro i scopeGuard s' hstep
    have htrans := next_transition hstep
    rw [hinv.counted.counter, (hinv.counted.transition htrans).counter]
    have hentered : (i, scopeGuard) ∈ s.calls := by
      cases htrans <;> assumption
    have hcalls : s'.calls = s.calls.erase (i, scopeGuard) := by
      cases htrans <;> rfl
    rw [hcalls, List.length_erase_of_mem hentered]
    exact Nat.sub_add_cancel (List.length_pos_of_mem hentered)
  · intro i s' hstep hwait hafter
    apply sawZero_of_waitTested h
    have htrans := next_transition hstep
    cases htrans with
    | waitReturn here => exact here
    | exitUnlock here =>
        rw [here] at hwait
        cases hwait
    | _ => simp at hafter
  · intro i hasleep hzero
    have hunnotified : (s.place i).unnotified = true := by
      simp [hasleep, Place.unnotified]
    obtain ⟨j, hj⟩ := hinv.pending i hunnotified hzero
    exact ⟨j, tookToZero_of_notifier h hj⟩

def sleepyRun : List (Bool × Act) :=
  [(false, .onEnterCall 0x7000), (true, .wait), (true, .advance), (true, .advance),
    (true, .advance), (false, .onExitCall 0x7000)]

theorem no_lost_wake_up_sleepy :
    ∃ (s : State Bool) (history : List (Event (State Bool) _)),
      gateSystem.Run s history ∧ s.place true = .asleep ∧ s.numActiveCalls = 0 ∧
      ∃ j, HeldSince (TookToZero j) (fun e => ¬ Notifies j e) history := by
  have hrun : (replay next (start : State Bool) sleepyRun).map
      (fun s => (s.place true, s.numActiveCalls)) = some (.asleep, 0) := by
    decide +kernel
  obtain ⟨s, hreplay, hfacts⟩ := Option.map_eq_some_iff.mp hrun
  simp only [Prod.mk.injEq] at hfacts
  obtain ⟨hasleep, hzero⟩ := hfacts
  have hinit : gateSystem.Run (start : State Bool) [] := .init rfl
  obtain ⟨history, h⟩ := hinit.replay (fun _ _ _ hstep => hstep) hreplay
  exact ⟨s, history, h, hasleep, hzero,
    (no_lost_wake_up h).2.2.2.2 true hasleep hzero⟩

end Runs

end Gate

end Ztour
