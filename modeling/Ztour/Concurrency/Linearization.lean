import Ztour.Concurrency.Registry
import Ztour.Foundation.AtomicObject

/-!
# Installing and uninstalling are atomic

An operation holds the mutex of its hook while it tests the flag, writes the
patch, waits for the gate and sets the flag.  It takes effect in one step: the
test that refuses it, or else the write.  In every run the operations answer
and leave the memory and the hooks as if they were done one after the other.
-/

namespace Ztour

open Ztour.Foundation

namespace Concurrency.ControlOp

def run : ControlOp → Inner → Os → Mem → Res Unit × Inner × Mem
  | .install => Inner.install
  | .uninstall => Inner.uninstall

theorem run_eq (op : ControlOp) (inner : Inner) (os : Os) (m : Mem) :
    op.run inner os m = inner.overwrite os m (op.prepare inner) op.flag := by
  cases op <;> rfl

end Concurrency.ControlOp

namespace Registry

open Concurrency TransitionSystem

variable {Tid Inst : Type}

/-! ## The object -/

structure HookObject (Inst : Type) where
  mem : Mem
  inner : Inst → Inner

/-- The answer tells whether the operation returns. -/
def HookObject.apply [DecidableEq Inst] (call : ControlOp × Inst) (os : Os)
    (o : HookObject Inst) : Bool × HookObject Inst :=
  let result := call.1.run (o.inner call.2) os o.mem
  (result.1.isOk,
    { mem := result.2.2
      inner := Function.update o.inner call.2 result.2.1 })

namespace Control

def phase : Control Inst → Phase (ControlOp × Inst) Bool
  | locking c | testing c | writing c _ => .invoked (c.op, c.inst)
  | gateTest _ | waiting _ | flagging _ => .done true
  | unlocking _ returns => .done returns
  | idle | bulkLocking _ | bulkTesting _ _ _ | bulkUnlocking _ _
  | lookupLocking | lookupUnlocking => .idle

/-- The flag that is still to be set after the write. -/
def settles : Control Inst → Option (Inst × Bool)
  | gateTest c | waiting c | flagging c => some (c.inst, c.op.flag)
  | _ => none

theorem access_of_settles {q : Control Inst} {j : Inst} {flag : Bool}
    (h : q.settles = some (j, flag)) : q.access = some j := by
  cases q <;> simp_all [settles, access]

end Control

theorem OpCall.phase_afterWrite (c : OpCall Inst) :
    c.afterWrite.phase = .done true := by
  unfold afterWrite
  cases c.op <;> rfl

theorem OpCall.settles_afterWrite (c : OpCall Inst) :
    c.afterWrite.settles = some (c.inst, c.op.flag) := by
  unfold afterWrite
  cases hop : c.op <;> simp [Control.settles, hop]

theorem OpCall.phase_afterUnlock (c : OpCall Inst) (returns : Bool) :
    (c.afterUnlock returns).phase = .idle := by
  unfold afterUnlock
  split <;> rfl

theorem OpCall.settles_afterUnlock (c : OpCall Inst) (returns : Bool) :
    (c.afterUnlock returns).settles = none := by
  unfold afterUnlock
  split <;> rfl

variable [DecidableEq Inst]

/-- What a step of the threads is to the object: the call of an operation, the
moment at which it takes effect, its end, or nothing. -/
def observed (s : State Tid Inst) (e : Tid × Act Inst) :
    Option (Tid × AtomicAct (ControlOp × Inst) Os Bool) :=
  match e.2 with
  | .startOp op j => some (e.1, .invoke (op, j))
  | .advance os =>
      match s.control e.1 with
      | .bulkTesting op (j :: _) _ =>
          if s.isInstalled j ≠ op.flag then some (e.1, .invoke (op, j)) else none
      | .testing c =>
          match c.op.prepare (s.cells c.inst).inner with
          | .error _ => some (e.1, .effect os)
          | .ok _ => none
      | .writing _ _ => some (e.1, .effect os)
      | .unlocking _ returns => some (e.1, .reply returns)
      | _ => none
  | _ => none

/-! ## The simulation -/

/-- The object as the threads have left it.  A hook whose flag is still to be
set has that flag already. -/
structure Linked (s : State Tid Inst)
    (t : AtomicState Tid (ControlOp × Inst) Bool (HookObject Inst)) : Prop where
  held : MutexesHeld s
  mem : t.object.mem = s.mem
  phase : ∀ i, t.phase i = (s.control i).phase
  kept : ∀ j, (∀ i flag, (s.control i).settles ≠ some (j, flag)) →
    t.object.inner j = (s.cells j).inner
  settled : ∀ i j flag, (s.control i).settles = some (j, flag) →
    t.object.inner j = { (s.cells j).inner with isInstalled := flag }
  prepared : ∀ i c bytes, s.control i = .writing c bytes →
    c.op.prepare (s.cells c.inst).inner = .ok bytes

variable {s s' : State Tid Inst} {i : Tid} {c : OpCall Inst}
  {t t' : AtomicState Tid (ControlOp × Inst) Bool (HookObject Inst)}

omit [DecidableEq Inst] in
theorem MutexesHeld.unique (h : MutexesHeld s) {k : Tid} {j : Inst}
    (hi : (s.control i).access = some j) (hk : (s.control k).access = some j) :
    k = i := by
  have hi' := (h.access j i).mpr hi
  have hk' := (h.access j k).mpr hk
  rw [hi', Option.some.injEq] at hk'
  exact hk'.symm

omit [DecidableEq Inst] in
theorem MutexesHeld.settles_ne (h : MutexesHeld s) {k : Tid} {j j' : Inst}
    {flag : Bool} (haccess : (s.control i).access = some j) (hk : k ≠ i)
    (hsettles : (s.control k).settles = some (j', flag)) : j' ≠ j := by
  rintro rfl
  exact hk (h.unique haccess (Control.access_of_settles hsettles))

omit [DecidableEq Inst] in
theorem Linked.inner_eq (h : Linked s t) {j : Inst}
    (haccess : (s.control i).access = some j)
    (hsettles : (s.control i).settles = none) :
    t.object.inner j = (s.cells j).inner := by
  refine h.kept j fun k flag hk => ?_
  obtain rfl := h.held.unique haccess (Control.access_of_settles hk)
  rw [hsettles] at hk
  cases hk

omit [DecidableEq Inst] in
theorem Linked.move (h : Linked s t) (hheld : MutexesHeld s')
    (hmem : s'.mem = s.mem)
    (hinner : ∀ j, (s'.cells j).inner = (s.cells j).inner)
    (hothers : ∀ k, k ≠ i → s'.control k = s.control k)
    (hsettles : (s'.control i).settles = (s.control i).settles)
    (hprepared : ∀ c bytes, s'.control i = .writing c bytes →
      c.op.prepare (s.cells c.inst).inner = .ok bytes)
    (hobject : t'.object = t.object)
    (hphase : t'.phase i = (s'.control i).phase)
    (hphases : ∀ k, k ≠ i → t'.phase k = t.phase k) : Linked s' t' := by
  have hall : ∀ k, (s'.control k).settles = (s.control k).settles := by
    intro k
    by_cases hk : k = i
    · rw [hk, hsettles]
    · rw [hothers k hk]
  refine ⟨hheld, by rw [hobject, h.mem, hmem], fun k => ?_, fun j hj => ?_,
    fun k j flag hk => ?_, fun k c bytes hk => ?_⟩
  · by_cases hk : k = i
    · rw [hk, hphase]
    · rw [hphases k hk, hothers k hk, h.phase]
  · rw [hobject, hinner]
    exact h.kept j fun k flag hk => hj k flag ((hall k).trans hk)
  · rw [hobject, hinner]
    exact h.settled k j flag ((hall k).symm.trans hk)
  · rw [hinner]
    by_cases hki : k = i
    · subst hki
      exact hprepared c bytes hk
    · exact h.prepared k c bytes ((hothers k hki).symm.trans hk)

omit [DecidableEq Inst] in
theorem Linked.stutter (h : Linked s t) (hheld : MutexesHeld s')
    (hmem : s'.mem = s.mem)
    (hinner : ∀ j, (s'.cells j).inner = (s.cells j).inner)
    (hothers : ∀ k, k ≠ i → s'.control k = s.control k)
    (hsettles : (s'.control i).settles = (s.control i).settles)
    (hprepared : ∀ c bytes, s'.control i = .writing c bytes →
      c.op.prepare (s.cells c.inst).inner = .ok bytes)
    (hphase : (s'.control i).phase = (s.control i).phase) : Linked s' t :=
  h.move hheld hmem hinner hothers hsettles hprepared rfl
    ((h.phase i).trans hphase.symm) fun _ _ => rfl

theorem Linked.apply_writing {bytes : List Byte} {os : Os} {r : Res Unit}
    {m : Mem} (h : Linked s t) (here : s.control i = .writing c bytes)
    (hwrite : overwriteExecutableMem os s.mem bytes
      (s.cells c.inst).inner.targetFunc = (r, m)) :
    HookObject.apply (c.op, c.inst) os t.object =
      (r.isOk,
        { mem := m
          inner := Function.update t.object.inner c.inst
            (if r.isOk then
              { (s.cells c.inst).inner with isInstalled := c.op.flag }
            else (s.cells c.inst).inner) }) := by
  have hinner := h.inner_eq (by rw [here]; rfl) (by rw [here]; rfl)
  unfold HookObject.apply
  dsimp only
  rw [hinner, h.mem, c.op.run_eq, h.prepared i c bytes here]
  unfold Inner.overwrite
  dsimp only
  rw [hwrite]
  cases r <;> rfl

variable [DecidableEq Tid]

/-- The write, successful or not, is the moment of the operation. -/
theorem Linked.wrote {bytes : List Byte} {os : Os} {r : Res Unit} {m : Mem}
    {q : Control Inst} (h : Linked s t)
    (hheld : MutexesHeld ((s.setMem m).setControl i q))
    (here : s.control i = .writing c bytes)
    (hwrite : overwriteExecutableMem os s.mem bytes
      (s.cells c.inst).inner.targetFunc = (r, m))
    (hphase : q.phase = .done r.isOk)
    (hsettles : q.settles = if r.isOk then some (c.inst, c.op.flag) else none)
    (hprepared : ∀ c bytes, q ≠ .writing c bytes) :
    Linked ((s.setMem m).setControl i q)
      (t.perform HookObject.apply i (c.op, c.inst) os) := by
  have haccess : (s.control i).access = some c.inst := by rw [here]; rfl
  have hnone : (s.control i).settles = none := by rw [here]; rfl
  have happly := h.apply_writing here hwrite
  have hothers : ∀ k, k ≠ i →
      ((s.setMem m).setControl i q).control k = s.control k :=
    fun k hk => State.control_setControl_ne _ _ hk q
  have hself : ((s.setMem m).setControl i q).control i = q :=
    State.control_setControl_self _ _ q
  refine ⟨hheld, ?_, fun k => ?_, fun j hj => ?_, fun k j flag hk => ?_,
    fun k c' bytes' hk => ?_⟩
  · rw [AtomicState.perform_object, happly]
    rfl
  · rw [AtomicState.perform_phase, happly]
    by_cases hk : k = i
    · rw [hk, hself, hphase, Function.update_self]
    · rw [hothers k hk, Function.update_of_ne hk, h.phase]
  · rw [AtomicState.perform_object, happly]
    dsimp only
    by_cases hj' : j = c.inst
    · subst hj'
      have hq := hj i c.op.flag
      rw [hself, hsettles] at hq
      rw [Function.update_self, if_neg fun hok => hq (if_pos hok)]
      rfl
    · rw [Function.update_of_ne hj']
      refine h.kept j fun k flag hk => ?_
      by_cases hki : k = i
      · rw [hki, hnone] at hk
        cases hk
      · exact hj k flag ((congrArg Control.settles (hothers k hki)).trans hk)
  · rw [AtomicState.perform_object, happly]
    dsimp only
    by_cases hki : k = i
    · rw [hki, hself, hsettles] at hk
      split at hk
      · rename_i hok
        cases hk
        rw [Function.update_self, if_pos hok]
        rfl
      · cases hk
    · rw [hothers k hki] at hk
      rw [Function.update_of_ne (h.held.settles_ne haccess hki hk)]
      exact h.settled k j flag hk
  · by_cases hki : k = i
    · rw [hki, hself] at hk
      exact absurd hk (hprepared c' bytes')
    · rw [hothers k hki] at hk
      exact h.prepared k c' bytes' hk

theorem Linked.setFlag (h : Linked s t)
    (hheld : MutexesHeld ((s.setInstalled c.inst c.op.flag).setControl i
      (.unlocking c true)))
    (here : s.control i = .flagging c) :
    Linked ((s.setInstalled c.inst c.op.flag).setControl i (.unlocking c true))
      t := by
  have haccess : (s.control i).access = some c.inst := by rw [here]; rfl
  have hsettles : (s.control i).settles = some (c.inst, c.op.flag) := by
    rw [here]
    rfl
  have hothers : ∀ k, k ≠ i → ((s.setInstalled c.inst c.op.flag).setControl i
      (.unlocking c true)).control k = s.control k :=
    fun k hk => State.control_setControl_ne _ _ hk _
  have hself : ((s.setInstalled c.inst c.op.flag).setControl i
      (.unlocking c true)).control i = .unlocking c true :=
    State.control_setControl_self _ _ _
  have hinner : ∀ j, j ≠ c.inst →
      ((s.setInstalled c.inst c.op.flag).cells j).inner = (s.cells j).inner :=
    fun j hj => congrArg Cell.inner (State.cells_setCell_ne s hj _)
  refine ⟨hheld, h.mem, fun k => ?_, fun j hj => ?_, fun k j flag hk => ?_,
    fun k c' bytes' hk => ?_⟩
  · by_cases hk : k = i
    · rw [hk, hself, h.phase, here]
      rfl
    · rw [hothers k hk, h.phase]
  · by_cases hj' : j = c.inst
    · subst hj'
      have hset := State.cells_setCell_self s c.inst { s.cells c.inst with
        inner := { (s.cells c.inst).inner with isInstalled := c.op.flag } }
      exact (h.settled i _ _ hsettles).trans (congrArg Cell.inner hset).symm
    · refine (h.kept j fun k flag hk => ?_).trans (hinner j hj').symm
      by_cases hki : k = i
      · rw [hki, hsettles] at hk
        cases hk
        exact hj' rfl
      · exact hj k flag ((congrArg Control.settles (hothers k hki)).trans hk)
  · have hki : k ≠ i := by
      rintro rfl
      rw [hself] at hk
      cases hk
    rw [hothers k hki] at hk
    have hj := h.held.settles_ne haccess hki hk
    exact (h.settled k j flag hk).trans
      (congrArg (fun inner : Inner => { inner with isInstalled := flag })
        (hinner j hj)).symm
  · have hki : k ≠ i := by
      rintro rfl
      rw [hself] at hk
      cases hk
    rw [hothers k hki] at hk
    have hj : c'.inst ≠ c.inst := by
      intro heq
      have hk' : (s.control k).access = some c.inst := by
        rw [hk, ← heq]
        rfl
      exact hki (h.held.unique haccess hk')
    exact (congrArg c'.op.prepare (hinner c'.inst hj)).trans
      (h.prepared k c' bytes' hk)

variable {registry : List Inst}

def Answered (t : AtomicState Tid (ControlOp × Inst) Bool (HookObject Inst))
    (b : Option (Tid × AtomicAct (ControlOp × Inst) Os Bool))
    (s' : State Tid Inst) : Prop :=
  match b with
  | none => Linked s' t
  | some act => ∃ t', AtomicStep HookObject.apply t act t' ∧ Linked s' t'

theorem Linked.invoke (h : Linked s t) {op : ControlOp} {j : Inst}
    {bulk : Option (List Inst × Nat)}
    (hheld : MutexesHeld (s.setControl i (.locking ⟨op, j, bulk⟩)))
    (hidle : (s.control i).phase = .idle)
    (hsettles : (s.control i).settles = none) :
    Answered t (some (i, .invoke (op, j)))
      (s.setControl i (.locking ⟨op, j, bulk⟩)) := by
  refine ⟨_, .invoke ((h.phase i).trans hidle), h.move (i := i) hheld rfl
    (fun _ => rfl) (fun k hk => State.control_setControl_ne _ _ hk _) ?_ ?_ rfl
    ?_ fun k hk => ?_⟩
  · rw [State.control_setControl_self, hsettles]
    rfl
  · intro c bytes hwriting
    rw [State.control_setControl_self] at hwriting
    cases hwriting
  · rw [State.control_setControl_self, AtomicState.setPhase_phase,
      Function.update_self]
    rfl
  · rw [AtomicState.setPhase_phase, Function.update_of_ne hk]

theorem Linked.pass (h : Linked s t) (q : Control Inst)
    (hq : s'.control i = q) (hheld : MutexesHeld s') (hmem : s'.mem = s.mem)
    (hinner : ∀ j, (s'.cells j).inner = (s.cells j).inner)
    (hothers : ∀ k, k ≠ i → s'.control k = s.control k)
    (hphase : q.phase = (s.control i).phase)
    (hsettles : q.settles = (s.control i).settles)
    (hwriting : ∀ c bytes, q ≠ .writing c bytes) : Answered t none s' := by
  subst hq
  exact h.stutter hheld hmem hinner hothers hsettles
    (fun c bytes hq => absurd hq (hwriting c bytes)) hphase

theorem Linked.refuse (h : Linked s t) {os : Os} {e : Err}
    (hheld : MutexesHeld (s.setControl i (.unlocking c false)))
    (here : s.control i = .testing c)
    (refused : c.op.prepare (s.cells c.inst).inner = .error e) :
    Answered t (some (i, .effect os)) (s.setControl i (.unlocking c false)) := by
  have hinner := h.inner_eq (by rw [here]; rfl) (by rw [here]; rfl)
  have happly : HookObject.apply (c.op, c.inst) os t.object =
      (false, t.object) := by
    unfold HookObject.apply
    dsimp only
    rw [c.op.run_eq, hinner, refused]
    unfold Inner.overwrite
    dsimp only
    rw [← hinner, Function.update_eq_self]
    rfl
  have hphase : t.phase i = .invoked (c.op, c.inst) := by
    rw [h.phase, here]
    rfl
  refine ⟨_, .effect hphase, h.move (i := i) hheld rfl (fun _ => rfl)
    (fun k hk => State.control_setControl_ne _ _ hk _) ?_ ?_ ?_ ?_
    fun k hk => ?_⟩
  · rw [State.control_setControl_self, here]
    rfl
  · intro c' bytes hwriting
    rw [State.control_setControl_self] at hwriting
    cases hwriting
  · rw [AtomicState.perform_object, happly]
  · rw [State.control_setControl_self, AtomicState.perform_phase, happly,
      Function.update_self]
    rfl
  · rw [AtomicState.perform_phase, Function.update_of_ne hk]

theorem Linked.reply (h : Linked s t) {returns : Bool}
    (hheld : MutexesHeld ((s.setAccessMutex c.inst none).setControl i
      (c.afterUnlock returns)))
    (here : s.control i = .unlocking c returns) :
    Answered t (some (i, .reply returns))
      ((s.setAccessMutex c.inst none).setControl i
        (c.afterUnlock returns)) := by
  have hphase : t.phase i = .done returns := by
    rw [h.phase, here]
    rfl
  refine ⟨_, .reply hphase, h.move (i := i) hheld rfl
    (State.inner_setAccessMutex s c.inst none)
    (fun k hk => State.control_setControl_ne _ _ hk _) ?_ ?_ rfl ?_
    fun k hk => ?_⟩
  · rw [State.control_setControl_self, c.settles_afterUnlock, here]
    rfl
  · intro c' bytes hwriting
    rw [State.control_setControl_self] at hwriting
    have hidle := c.phase_afterUnlock returns
    rw [hwriting] at hidle
    cases hidle
  · rw [State.control_setControl_self, c.phase_afterUnlock,
      AtomicState.setPhase_phase, Function.update_self]
  · rw [AtomicState.setPhase_phase, Function.update_of_ne hk]

theorem Linked.advance (h : Linked s t) {os : Os}
    (hstep : Transition registry s i (.advance os) s')
    (hbusy : s.control i ≠ .idle) :
    Answered t (observed s (i, .advance os)) s' := by
  have hheld := h.held.transition hstep
  have hothers : ∀ k, k ≠ i → s'.control k = s.control k :=
    fun k hk => hstep.control_ne hk
  unfold observed
  dsimp only
  cases hstep with
  | start here _ _ | frame here _ => exact absurd here hbusy
  | @lock c here available =>
      rw [here]
      exact h.pass (.testing c) (by simp) hheld rfl (by simp) hothers
        (by rw [here]; rfl) (by rw [here]; rfl) (by simp)
  | refuse here refused =>
      rw [here]
      dsimp only
      rw [refused]
      exact h.refuse hheld here refused
  | @prepare c bytes here ready =>
      rw [here]
      dsimp only
      rw [ready]
      refine h.stutter hheld rfl (fun _ => rfl) hothers ?_ ?_ ?_
      · rw [State.control_setControl_self, here]
        rfl
      · intro c' bytes' hwriting
        rw [State.control_setControl_self] at hwriting
        cases hwriting
        exact ready
      · rw [State.control_setControl_self, here]
        rfl
  | @writeFail c bytes os e m act here failed =>
      cases act
      rw [here]
      have hphase : t.phase i = .invoked (c.op, c.inst) := by
        rw [h.phase, here]
        rfl
      exact ⟨_, .effect hphase, h.wrote hheld here failed rfl rfl (by simp)⟩
  | @write c bytes os m act here wrote =>
      cases act
      rw [here]
      have hphase : t.phase i = .invoked (c.op, c.inst) := by
        rw [h.phase, here]
        rfl
      refine ⟨_, .effect hphase, h.wrote hheld here wrote c.phase_afterWrite
        c.settles_afterWrite fun c' bytes' hq => ?_⟩
      have hdone := c.phase_afterWrite
      rw [hq] at hdone
      cases hdone
  | @pass c here unused available =>
      rcases here with here | here <;>
      · rw [here]
        exact h.pass (.flagging c) (by simp) hheld rfl (by simp) hothers
          (by rw [here]; rfl) (by rw [here]; rfl) (by simp)
  | @wait c here used =>
      rw [here]
      exact h.pass (.waiting c) (by simp) hheld rfl (by simp) hothers
        (by rw [here]; rfl) (by rw [here]; rfl) (by simp)
  | setFlag here =>
      rw [here]
      exact h.setFlag hheld here
  | unlock here =>
      rw [here]
      exact h.reply hheld here
  | @lockRegistry q free path =>
      rcases path with ⟨op, here, rfl⟩ | ⟨here, rfl⟩ <;>
      · rw [here]
        exact h.pass _ (State.control_setControl_self _ _ _) hheld rfl
          (fun _ => rfl) hothers (by rw [here]; rfl) (by rw [here]; rfl)
          (by simp)
  | @skip op j rest numChanged here same =>
      rw [here]
      dsimp only
      rw [if_neg (not_not.mpr same)]
      exact h.pass (.bulkTesting op rest numChanged) (by simp) hheld rfl
        (fun _ => rfl) hothers (by rw [here]; rfl) (by rw [here]; rfl) (by simp)
  | visit here differs =>
      rw [here]
      dsimp only
      rw [if_pos differs]
      exact h.invoke hheld (by rw [here]; rfl) (by rw [here]; rfl)
  | @finish op numChanged here =>
      rw [here]
      exact h.pass (.bulkUnlocking op (some numChanged)) (by simp) hheld rfl
        (fun _ => rfl) hothers (by rw [here]; rfl) (by rw [here]; rfl) (by simp)
  | unlockRegistry here =>
      rcases here with ⟨op, r, here⟩ | here <;>
      · rw [here]
        exact h.pass .idle (by simp) hheld rfl (fun _ => rfl) hothers
          (by rw [here]; rfl) (by rw [here]; rfl) (by simp)

theorem Linked.next {e : Tid × Act Inst} (h : Linked s t)
    (hstep : next registry s e = some s') :
    Answered t (observed s e) s' := by
  obtain ⟨i, a⟩ := e
  have hmoves := next_transition hstep
  have hheld := h.held.transition hmoves
  have hothers : ∀ k, k ≠ i → s'.control k = s.control k :=
    fun k hk => hmoves.control_ne hk
  cases a with
  | startOp op j =>
      simp only [Registry.next, Option.ite_none_right_eq_some,
        Option.some.injEq] at hstep
      obtain ⟨hfree, rfl⟩ := hstep
      have hidle := State.control_of_free hfree
      exact h.invoke hheld (by rw [hidle]; rfl) (by rw [hidle]; rfl)
  | startBulk op =>
      simp only [Registry.next, Option.ite_none_right_eq_some,
        Option.some.injEq] at hstep
      obtain ⟨hfree, rfl⟩ := hstep
      have hidle := State.control_of_free hfree
      exact h.pass (.bulkLocking op) (by simp) hheld rfl (fun _ => rfl) hothers
        (by rw [hidle]; rfl) (by rw [hidle]; rfl) (by simp)
  | startLookup =>
      simp only [Registry.next, Option.ite_none_right_eq_some,
        Option.some.injEq] at hstep
      obtain ⟨hfree, rfl⟩ := hstep
      have hidle := State.control_of_free hfree
      exact h.pass .lookupLocking (by simp) hheld rfl (fun _ => rfl) hothers
        (by rw [hidle]; rfl) (by rw [hidle]; rfl) (by simp)
  | advance os =>
      refine h.advance hmoves fun hidle => ?_
      rw [Registry.next, hidle] at hstep
      cases hstep
  | call j | frame =>
      obtain ⟨hidle, hframe⟩ := frameTransition_of_next hstep rfl
      exact h.pass .idle (by rw [hframe.control_eq, hidle]) hheld hframe.mem_eq
        hframe.inner_eq hothers (by rw [hidle]) (by rw [hidle]) (by simp)

omit [DecidableEq Inst] [DecidableEq Tid] in
theorem linked_start (m : Mem) (inner : Inst → Inner) :
    Linked (start m inner : State Tid Inst) ⟨⟨m, inner⟩, fun _ => .idle⟩ where
  held := mutexesHeld_start m inner
  mem := rfl
  phase _ := rfl
  kept _ _ := rfl
  settled _ _ _ h := by cases h
  prepared _ _ _ h := by cases h

/-! ## Linearizability -/

omit [DecidableEq Tid] [DecidableEq Inst] in
theorem Linked.inner_of_free (h : Linked s t) {j : Inst}
    (hfree : (s.cells j).accessMutex = none) :
    t.object.inner j = (s.cells j).inner := by
  refine h.kept j fun i flag hi => ?_
  have howner := (h.held.access j i).mpr (Control.access_of_settles hi)
  rw [hfree] at howner
  cases howner

theorem linearizable {m : Mem} {inner : Inst → Inner}
    {history : List (Event (State Tid Inst) (Tid × Act Inst))}
    (h : ((registrySystem registry inner).startingAt (start m inner)).Run s
      history) :
    ∃ t atomic, (atomicObject HookObject.apply (· = ⟨m, inner⟩)).Run t atomic ∧
      atomic.map Event.action =
        history.filterMap (fun e => observed e.before e.action) ∧
      t.object = performAll HookObject.apply ⟨m, inner⟩
        (atomic.filterMap effectOf) ∧
      s.mem = t.object.mem ∧
      ∀ j, (s.cells j).accessMutex = none →
        (s.cells j).inner = t.object.inner j := by
  obtain ⟨t, atomic, hrun, hlinked, hactions⟩ :=
    h.simulate (S := atomicObject HookObject.apply (· = ⟨m, inner⟩))
      (R := Linked) (fun s e => observed s e)
      (by rintro s rfl
          exact ⟨_, ⟨rfl, fun _ => rfl⟩, linked_start m inner⟩)
      (by intro s e s' t hlinked hstep b hb
          have hanswered := hlinked.next hstep
          rw [hb] at hanswered
          exact hanswered)
      (by intro s e s' t hlinked hstep hb
          have hanswered := hlinked.next hstep
          rw [hb] at hanswered
          exact hanswered)
  obtain ⟨o, rfl, hobject⟩ := performAll_of_run hrun
  exact ⟨t, atomic, hrun, hactions, hobject, hlinked.mem.symm,
    fun j hfree => (hlinked.inner_of_free hfree).symm⟩

def installsBoth : List (Bool × Act Bool) :=
  [(false, .startOp .install false), (true, .startOp .install true)] ++
    (List.replicate 5 (advances false 1 ++ advances true 1)).flatten

theorem linearizable_nops :
    ∃ (s : State Bool Bool) (calls : List ((ControlOp × Bool) × Os)),
      s.isInstalled false = true ∧ s.isInstalled true = true ∧
      s.mem = (performAll HookObject.apply ⟨nopsMem, nopsInner⟩ calls).mem ∧
      ∀ j, (s.cells j).inner =
        (performAll HookObject.apply ⟨nopsMem, nopsInner⟩ calls).inner j := by
  have hreplayed : (replay (next [false, true]) nopsState installsBoth).map
      (fun s => (s.isInstalled false, s.isInstalled true,
        (s.cells false).accessMutex, (s.cells true).accessMutex)) =
        some (true, true, none, none) := by
    decide +kernel
  obtain ⟨s, hreplay, hfacts⟩ := Option.map_eq_some_iff.mp hreplayed
  simp only [Prod.mk.injEq] at hfacts
  obtain ⟨hfirst, hsecond, hfree₁, hfree₂⟩ := hfacts
  have hinit : ((registrySystem [false, true] nopsInner).startingAt
      nopsState).Run nopsState [] := .init rfl
  obtain ⟨history, h⟩ := hinit.replay (fun _ _ _ hstep => hstep) hreplay
  obtain ⟨t, atomic, -, -, hobject, hmem, hinner⟩ := linearizable h
  rw [hobject] at hmem hinner
  refine ⟨s, _, hfirst, hsecond, hmem, fun j => hinner j ?_⟩
  cases j with
  | false => exact hfree₁
  | true => exact hfree₂

end Registry

end Ztour
