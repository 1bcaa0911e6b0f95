import Ztour.Concurrency.Blocking

/-!
# Deadlocks of the hook API

Detours that call the library may wait for the thread that waits for them.  They
do not if their calls spare the hooks that are being uninstalled: along the
threads that wait for each other, the hooks at whose gates they do so go down in
some ranking.
-/

namespace Ztour

open Ztour.Foundation

namespace Registry

open Concurrency TransitionSystem

variable {Tid Inst : Type}

/-! ## The calls under way -/

/-- A call of the library; a bulk call has the hooks that it has not settled. -/
inductive ApiCall (Inst : Type) where
  | single (op : ControlOp) (inst : Inst)
  | bulk (op : ControlOp) (rest : List Inst)
  | lookup

def OpCall.apiCall (c : OpCall Inst) : ApiCall Inst :=
  match c.bulk with
  | none => .single c.op c.inst
  | some (rest, _) => .bulk c.op (c.inst :: rest)

def Control.apiCall (registry : List Inst) :
    Control Inst → Option (ApiCall Inst)
  | idle => none
  | locking c | testing c | writing c _ | gateTest c | waiting c | flagging c
  | unlocking c _ => some c.apiCall
  | bulkLocking op => some (.bulk op registry)
  | bulkTesting op rest _ => some (.bulk op rest)
  | bulkUnlocking op _ => some (.bulk op [])
  | lookupLocking | lookupUnlocking => some .lookup

def State.apiCalls (registry : List Inst) (s : State Tid Inst) (t : Tid) :
    Option (ApiCall Inst) :=
  (s.control t).apiCall registry

def Act.apiCall (registry : List Inst) : Act Inst → Option (ApiCall Inst)
  | startOp op j => some (.single op j)
  | startBulk op => some (.bulk op registry)
  | startLookup => some .lookup
  | advance _ | call _ | frame => none

namespace ApiCall

def isBulk : ApiCall Inst → Bool
  | bulk _ _ => true
  | single _ _ | lookup => false

def uninstalls [DecidableEq Inst] (j : Inst) : ApiCall Inst → Bool
  | single .uninstall k => j = k
  | bulk .uninstall rest => j ∈ rest
  | single .install _ | bulk .install _ | lookup => false

end ApiCall

/-! ## Considerate calls -/

section Considerate

variable [DecidableEq Inst] (calls : Tid → Option (ApiCall Inst))

def BeingUninstalled (j : Inst) : Prop :=
  ∃ t, ∃ c ∈ calls t, c.uninstalls j = true

variable (rank : Inst → Nat)

/-- A call from the detour of hook `j` that does not wait for what an uninstall
of `j` keeps: a lookup while no bulk call is under way, an operation on a hook of
lower rank, or an install of a hook that nobody uninstalls. -/
def ApiCall.Spares (j : Inst) : ApiCall Inst → Prop
  | lookup => ∀ t, ∀ c ∈ calls t, c.isBulk = false
  | single op k =>
      rank k < rank j ∨ op = .install ∧ ¬ BeingUninstalled calls k
  | bulk _ _ => False

/-- The calls under way in the detours of hooks that are being uninstalled spare
these. -/
def Considerate (frames : Tid → List (Frame Inst)) : Prop :=
  ∀ t, ∀ c ∈ calls t, ∀ j, Frame.body j ∈ frames t →
    BeingUninstalled calls j → c.Spares calls rank j

variable [Fintype Tid]

instance (j : Inst) : Decidable (BeingUninstalled calls j) :=
  inferInstanceAs (Decidable (∃ _, ∃ _ ∈ _, _))

instance (j : Inst) : DecidablePred (ApiCall.Spares calls rank j)
  | .lookup => inferInstanceAs (Decidable (∀ _, ∀ _ ∈ _, _))
  | .single _ _ => inferInstanceAs (Decidable (_ ∨ _ ∧ ¬ _))
  | .bulk _ _ => inferInstanceAs (Decidable False)

instance [Fintype Inst] (frames : Tid → List (Frame Inst)) :
    Decidable (Considerate calls rank frames) :=
  inferInstanceAs (Decidable (∀ _, ∀ _ ∈ _, ∀ _, _))

end Considerate

/-- A call of the library may start if the calls under way are considerate with
it. -/
def Permitted [DecidableEq Tid] [DecidableEq Inst] (registry : List Inst)
    (rank : Inst → Nat) (s : State Tid Inst) (e : Tid × Act Inst) : Prop :=
  ∀ c ∈ e.2.apiCall registry,
    Considerate (Function.update (s.apiCalls registry) e.1 (some c)) rank
      s.frames

instance [Fintype Tid] [DecidableEq Tid] [Fintype Inst] [DecidableEq Inst]
    (registry : List Inst) (rank : Inst → Nat) (s : State Tid Inst)
    (e : Tid × Act Inst) : Decidable (Permitted registry rank s e) :=
  inferInstanceAs (Decidable (∀ _ ∈ _, Considerate _ _ _))

section Runs

variable [DecidableEq Tid] [DecidableEq Inst] {registry : List Inst}
  {s s' : State Tid Inst} {i t u : Tid} {a : Act Inst} {inner : Inst → Inner}
  {calls calls' : Tid → Option (ApiCall Inst)}
  {frames frames' : Tid → List (Frame Inst)} {c : OpCall Inst} {j : Inst}
  {rank : Inst → Nat}

/-! ## Considerate calls are in no deadlock -/

omit [DecidableEq Tid] [DecidableEq Inst] in
theorem State.apiCalls_eq {q : Control Inst} (here : s.control t = q) :
    s.apiCalls registry t = q.apiCall registry := by
  rw [apiCalls, here]

omit [DecidableEq Tid] in
theorem OpCall.uninstalls_apiCall (hop : c.op = .uninstall) :
    c.apiCall.uninstalls c.inst = true := by
  unfold OpCall.apiCall
  split <;> simp [hop, ApiCall.uninstalls]

omit [DecidableEq Tid] in
theorem OpCall.rank_lt_of_spares (h : c.apiCall.Spares calls rank j)
    (hgate : c.op = .uninstall ∨ BeingUninstalled calls c.inst) :
    rank c.inst < rank j := by
  unfold OpCall.apiCall at h
  split at h
  · rcases h with hlt | ⟨hop, hnot⟩
    · exact hlt
    · rcases hgate with hop' | hun
      · rw [hop] at hop'
        cases hop'
      · exact absurd hun hnot
  · exact h.elim

omit [DecidableEq Inst] in
theorem isBulk_of_holdsRegistry {q : Control Inst}
    (h : q.holdsRegistry = true) :
    q = .lookupUnlocking ∨ ∃ c ∈ q.apiCall registry, c.isBulk = true := by
  have hcall : ∀ c : OpCall Inst, c.bulk.isSome = true →
      c.apiCall.isBulk = true := by
    intro c hc
    obtain ⟨loop, hloop⟩ := Option.isSome_iff_exists.mp hc
    simp [OpCall.apiCall, hloop, ApiCall.isBulk]
  cases q with
  | lookupUnlocking => exact .inl rfl
  | idle | bulkLocking _ | lookupLocking => cases h
  | bulkTesting op rest n => exact .inr ⟨_, rfl, rfl⟩
  | bulkUnlocking op result => exact .inr ⟨_, rfl, rfl⟩
  | locking c | testing c | writing c _ | gateTest c | waiting c | flagging c
  | unlocking c _ => exact .inr ⟨_, rfl, hcall c h⟩

def GatesForUninstall (s : State Tid Inst) : Prop :=
  ∀ t c, s.control t = .gateTest c ∨ s.control t = .waiting c →
    c.op = .uninstall

theorem GatesForUninstall.transition (h : GatesForUninstall s)
    (hstep : Transition registry s i a s') : GatesForUninstall s' := by
  intro t c hc
  by_cases ht : t = i
  · subst ht
    cases hstep with
    | start here outside there =>
        rcases there with ⟨_, _, rfl⟩ | ⟨_, rfl⟩ | rfl <;> simp at hc
    | @write c' bytes os m act here wrote =>
        rw [State.control_setControl_self] at hc
        unfold OpCall.afterWrite at hc
        split at hc <;> simp_all
    | wait here used =>
        simp only [State.control_setControl_self, reduceCtorEq,
          Control.waiting.injEq, false_or] at hc
        exact h t c (.inl (hc ▸ here))
    | @unlock c' returns here =>
        rw [State.control_setControl_self] at hc
        unfold OpCall.afterUnlock at hc
        split at hc <;> simp at hc
    | lockRegistry free path =>
        rcases path with ⟨_, -, rfl⟩ | ⟨-, rfl⟩ <;> simp at hc
    | frame here step =>
        rw [step.control_eq] at hc
        exact h t c hc
    | _ => simp at hc
  · rw [hstep.control_ne ht] at hc
    exact h t c hc

theorem reachable_gatesForUninstall
    (h : (registrySystem registry inner).Reachable s) :
    GatesForUninstall s := by
  apply ReachableUnder.invariant _ _ h
  · rintro s ⟨m, rfl⟩ t c (hc | hc) <;> cases hc
  · intro s e s' hgates hstep _
    exact hgates.transition (next_transition hstep)

omit [DecidableEq Tid] in
theorem beingUninstalled_of_waiting (hgates : GatesForUninstall s)
    (here : s.control t = .waiting c) :
    BeingUninstalled (s.apiCalls registry) c.inst := by
  exact ⟨t, c.apiCall, State.apiCalls_eq here,
    OpCall.uninstalls_apiCall (hgates t c (.inr here))⟩

variable (registry) in
/-- A member of a deadlock whose call spares hook `j` waits for calls of a hook
of lower rank. -/
theorem exists_gate_of_deadlocked {T : Set Tid} (hheld : MutexesHeld s)
    (hgates : GatesForUninstall s) (hT : Deadlocked (s.blockedBy · ·) T)
    (hu : u ∈ T) :
    ∃ c ∈ s.apiCalls registry u, c.Spares (s.apiCalls registry) rank j →
      ∃ k, rank k < rank j ∧ BeingUninstalled (s.apiCalls registry) k ∧
        ∃ w ∈ T, .body k ∈ s.frames w := by
  obtain ⟨v, hv, huv⟩ := hT.2 u hu
  obtain ⟨w, hw, hvw⟩ := hT.2 v hv
  cases here : s.control u with
  | locking c =>
      refine ⟨c.apiCall, State.apiCalls_eq here, fun hspares => ?_⟩
      have hmutex : (s.cells c.inst).accessMutex = some v := by
        simpa [State.blockedBy, here] using huv
      obtain ⟨c', hwaiting, hinst, hbody⟩ :=
        waiting_of_access hvw ((hheld.access _ _).mp hmutex)
      have hun : BeingUninstalled (s.apiCalls registry) c.inst := by
        rw [← hinst]
        exact beingUninstalled_of_waiting hgates hwaiting
      rw [hinst] at hbody
      exact ⟨c.inst, OpCall.rank_lt_of_spares hspares (.inr hun), hun, w, hw,
        hbody⟩
  | waiting c =>
      refine ⟨c.apiCall, State.apiCalls_eq here, fun hspares => ?_⟩
      have hun : BeingUninstalled (s.apiCalls registry) c.inst :=
        beingUninstalled_of_waiting hgates here
      exact ⟨c.inst, OpCall.rank_lt_of_spares hspares (.inr hun), hun, v, hv,
        by simpa [State.blockedBy, here] using huv⟩
  | bulkLocking op =>
      exact ⟨.bulk op registry, State.apiCalls_eq here, False.elim⟩
  | lookupLocking =>
      refine ⟨.lookup, State.apiCalls_eq here, fun hspares => ?_⟩
      have hmutex : s.registryMutex = some v := by
        simpa [State.blockedBy, here] using huv
      rcases isBulk_of_holdsRegistry ((hheld.registry v).mp hmutex) with
        hlookup | ⟨c, hc, hbulk⟩
      · simp [State.blockedBy, hlookup] at hvw
      · rw [hspares v c hc] at hbulk
        cases hbulk
  | _ => simp [State.blockedBy, here] at huv

theorem no_gate_of_considerate {T : Set Tid} (hheld : MutexesHeld s)
    (hgates : GatesForUninstall s)
    (h : Considerate (s.apiCalls registry) rank s.frames)
    (hT : Deadlocked (s.blockedBy · ·) T)
    (hj : BeingUninstalled (s.apiCalls registry) j) (hu : u ∈ T) :
    .body j ∉ s.frames u := by
  induction hn : rank j using Nat.strong_induction_on generalizing j u with
  | h n ih =>
      subst hn
      intro hbody
      obtain ⟨c, hc, hnext⟩ :=
        exists_gate_of_deadlocked registry hheld hgates hT hu
      obtain ⟨k, hlt, hk, w, hw, hwbody⟩ := hnext (h u c hc j hbody hj)
      exact ih (rank k) hlt hk hw rfl hwbody

theorem deadlockFree_of_considerate (hheld : MutexesHeld s)
    (hmutexes : GateMutexesHeld s) (hgates : GatesForUninstall s)
    (h : Considerate (s.apiCalls registry) rank s.frames) :
    s.DeadlockFree := by
  intro T hT
  rw [deadlocked_iff_blockedBy hmutexes] at hT
  obtain ⟨t, -, c, hwaiting, u, hu, hbody⟩ := waitsAtGate_of_deadlocked hheld hT
  exact no_gate_of_considerate hheld hgates h hT
    (beingUninstalled_of_waiting hgates hwaiting) hu hbody

/-! ## Steps keep calls considerate -/

inductive ApiCall.Within : ApiCall Inst → ApiCall Inst → Prop
  | refl (c : ApiCall Inst) : Within c c
  | bulk (op : ControlOp) {rest rest' : List Inst} (h : rest' ⊆ rest) :
      Within (.bulk op rest') (.bulk op rest)

omit [DecidableEq Tid] in
theorem ApiCall.Within.uninstalls {c c' : ApiCall Inst} (h : c'.Within c)
    (hj : c'.uninstalls j = true) : c.uninstalls j = true := by
  cases h with
  | refl => exact hj
  | bulk op hrest =>
      cases op with
      | install => cases hj
      | uninstall =>
          simp only [ApiCall.uninstalls, decide_eq_true_eq] at hj ⊢
          exact hrest hj

omit [DecidableEq Tid] [DecidableEq Inst] in
theorem ApiCall.Within.isBulk_eq {c c' : ApiCall Inst} (h : c'.Within c) :
    c'.isBulk = c.isBulk := by
  cases h <;> rfl

structure GoneOn (calls' calls : Tid → Option (ApiCall Inst))
    (frames' frames : Tid → List (Frame Inst)) : Prop where
  within : ∀ t, ∀ c' ∈ calls' t, ∃ c ∈ calls t, c'.Within c
  frames : ∀ t c, c ∈ calls' t → frames' t = frames t

namespace GoneOn

variable (h : GoneOn calls' calls frames' frames)

include h

omit [DecidableEq Tid] in
theorem beingUninstalled (hj : BeingUninstalled calls' j) :
    BeingUninstalled calls j := by
  obtain ⟨t, c', hc', huninstalls⟩ := hj
  obtain ⟨c, hc, hwithin⟩ := h.within t c' hc'
  exact ⟨t, c, hc, hwithin.uninstalls huninstalls⟩

omit [DecidableEq Tid] in
theorem spares {c c' : ApiCall Inst} (hwithin : c'.Within c)
    (hspares : c.Spares calls rank j) : c'.Spares calls' rank j := by
  cases hwithin with
  | bulk op hrest => exact hspares.elim
  | refl =>
      cases c with
      | lookup =>
          intro t d' hd'
          obtain ⟨d, hd, hdwithin⟩ := h.within t d' hd'
          rw [hdwithin.isBulk_eq]
          exact hspares t d hd
      | single op k =>
          rcases hspares with hlt | ⟨hop, hnot⟩
          · exact .inl hlt
          · exact .inr ⟨hop, fun hk => hnot (h.beingUninstalled hk)⟩
      | bulk op rest => exact hspares

omit [DecidableEq Tid] in
theorem considerate (hcons : Considerate calls rank frames) :
    Considerate calls' rank frames' := by
  intro t c' hc' j hbody hj
  obtain ⟨c, hc, hwithin⟩ := h.within t c' hc'
  rw [h.frames t c' hc'] at hbody
  exact h.spares hwithin (hcons t c hc j hbody (h.beingUninstalled hj))

end GoneOn

theorem Transition.apiCall_within (h : Transition registry s i a s')
    (hbusy : s.control i ≠ .idle) {c' : ApiCall Inst}
    (hc' : c' ∈ (s'.control i).apiCall registry) :
    ∃ c ∈ (s.control i).apiCall registry, c'.Within c := by
  have hsame : (s'.control i).apiCall registry =
      (s.control i).apiCall registry →
      ∃ c ∈ (s.control i).apiCall registry, c'.Within c :=
    fun heq => ⟨c', heq ▸ hc', .refl c'⟩
  cases h with
  | start here _ _ | frame here _ => exact absurd here hbusy
  | lock here _ | refuse here _ | prepare here _ | writeFail _ here _
  | wait here _ | setFlag here => exact hsame (by simp [here, Control.apiCall])
  | @write c bytes os m act here wrote =>
      apply hsame
      rw [State.control_setControl_self, here]
      unfold OpCall.afterWrite
      split <;> rfl
  | pass here _ _ =>
      apply hsame
      rcases here with here | here <;> simp [here, Control.apiCall]
  | @unlock c returns here =>
      rw [State.control_setControl_self] at hc'
      unfold OpCall.afterUnlock at hc'
      split at hc'
      · cases hc'
      · rename_i rest n hbulk
        cases hc'
        refine ⟨.bulk c.op (c.inst :: rest), ?_,
          .bulk c.op (List.subset_cons_self _ _)⟩
        simp [here, Control.apiCall, OpCall.apiCall, hbulk]
      · rename_i loop hbulk
        cases hc'
        refine ⟨.bulk c.op (c.inst :: loop.1), ?_, .bulk c.op (List.nil_subset _)⟩
        simp [here, Control.apiCall, OpCall.apiCall, hbulk]
  | lockRegistry free path =>
      apply hsame
      rcases path with ⟨_, here, rfl⟩ | ⟨here, rfl⟩ <;>
        simp [here, Control.apiCall]
  | @skip op j rest n here same =>
      rw [State.control_setControl_self] at hc'
      cases hc'
      refine ⟨.bulk op (j :: rest), ?_, .bulk op (List.subset_cons_self _ _)⟩
      simp [here, Control.apiCall]
  | visit here _ =>
      exact hsame (by simp [here, Control.apiCall, OpCall.apiCall])
  | finish here => exact hsame (by simp [here, Control.apiCall])
  | unlockRegistry here =>
      rw [State.control_setControl_self] at hc'
      cases hc'

theorem goneOn_of_transition (h : Transition registry s i a s')
    (hnew : s.control i = .idle → FrameTransition s i s') :
    GoneOn (s'.apiCalls registry) (s.apiCalls registry) s'.frames s.frames := by
  constructor
  · intro t c' hc'
    by_cases ht : t = i
    · subst ht
      by_cases hidle : s.control t = .idle
      · refine ⟨c', ?_, .refl c'⟩
        rwa [State.apiCalls, (hnew hidle).control_eq] at hc'
      · exact h.apiCall_within hidle hc'
    · refine ⟨c', ?_, .refl c'⟩
      rwa [State.apiCalls, h.control_ne ht] at hc'
  · intro t c' hc'
    rcases h.frame_or_not with ⟨here, step⟩ | ⟨hframes, -⟩
    · apply step.frames_ne
      rintro rfl
      simp [State.apiCalls, step.control_eq, here, Control.apiCall] at hc'
    · rw [hframes]

theorem next_cases (h : next registry s (i, a) = some s') :
    (∃ c ∈ a.apiCall registry,
      s'.apiCalls registry = Function.update (s.apiCalls registry) i (some c) ∧
        s'.frames = s.frames) ∨
      (s.control i = .idle → FrameTransition s i s') := by
  have hstart : ∀ {q : Control Inst} {c : ApiCall Inst},
      q.apiCall registry = some c →
      (s.setControl i q).apiCalls registry =
        Function.update (s.apiCalls registry) i (some c) := by
    intro q c hq
    funext t
    by_cases ht : t = i
    · subst ht
      simp [State.apiCalls, hq]
    · simp [State.apiCalls, State.control_setControl_ne _ _ ht, ht]
  cases a with
  | startOp op j =>
      simp only [next, Option.ite_none_right_eq_some, Option.some.injEq] at h
      rw [← h.2]
      exact .inl ⟨_, rfl, hstart rfl, State.frames_setControl _ _ _⟩
  | startBulk op =>
      simp only [next, Option.ite_none_right_eq_some, Option.some.injEq] at h
      rw [← h.2]
      exact .inl ⟨_, rfl, hstart rfl, State.frames_setControl _ _ _⟩
  | startLookup =>
      simp only [next, Option.ite_none_right_eq_some, Option.some.injEq] at h
      rw [← h.2]
      exact .inl ⟨_, rfl, hstart rfl, State.frames_setControl _ _ _⟩
  | advance os =>
      right
      intro hidle
      simp [next, hidle, stepControl] at h
  | call j | frame => exact .inr fun _ => (frameTransition_of_next h rfl).2

theorem Considerate.next (h : Considerate (s.apiCalls registry) rank s.frames)
    (hstep : next registry s (i, a) = some s')
    (hpermitted : Permitted registry rank s (i, a)) :
    Considerate (s'.apiCalls registry) rank s'.frames := by
  rcases next_cases hstep with ⟨c, hc, hcalls, hframes⟩ | hframe
  · rw [hcalls, hframes]
    exact hpermitted c hc
  · exact (goneOn_of_transition (next_transition hstep) hframe).considerate h

/-- Threads never block each other for good in runs whose calls spare the hooks
that are being uninstalled, for some ranking of the hooks. -/
theorem deadlock_free_of_permitted (rank : Inst → Nat)
    (h : (registrySystem registry inner).ReachableUnder
      (fun s e _ => Permitted registry rank s e) s) : s.DeadlockFree := by
  have hcons : Considerate (s.apiCalls registry) rank s.frames := by
    apply ReachableUnder.invariant (I := fun s : State Tid Inst =>
      Considerate (s.apiCalls registry) rank s.frames) _ _ h
    · rintro s ⟨m, rfl⟩ t c hc
      cases hc
    · rintro s ⟨i, a⟩ s' hold hstep hpermitted
      exact hold.next hstep hpermitted
  have hreach := h.reachable
  exact deadlockFree_of_considerate (reachable_mutexesHeld hreach)
    (reachable_gateMutexesHeld hreach) (reachable_gatesForUninstall hreach) hcons

end Runs

/-! ## A detour that looks for its hook -/

def entered (start : Act Bool) (steps : Nat) : List (Bool × Act Bool) :=
  performs true .install false ++
    [(false, .call false), (false, .frame), (true, start)] ++
    advances true steps

theorem deadlock_free_at_gate :
    ∃ s : State Bool Bool, (registrySystem [false, true] nopsInner).Reachable s ∧
      s.control true = .waiting ⟨.uninstall, false, none⟩ ∧
      s.frames false = [.body false] ∧
      s.control false = .locking ⟨.uninstall, true, none⟩ ∧ s.DeadlockFree := by
  let rank : Bool → Nat := fun j => if j then 0 else 1
  have hrun : (replayUnder (next [false, true])
      (fun s e => decide (Permitted [false, true] rank s e)) nopsState
      (entered (.startOp .uninstall false) 4 ++
        (false, .startLookup) :: advances false 2 ++
        [(false, .startOp .uninstall true)])).map
        (fun s => (s.control true, s.frames false, s.control false)) =
      some (.waiting ⟨.uninstall, false, none⟩, [.body false],
        .locking ⟨.uninstall, true, none⟩) := by
    decide +kernel
  obtain ⟨s, hreplay, hfacts⟩ := Option.map_eq_some_iff.mp hrun
  simp only [Prod.mk.injEq] at hfacts
  obtain ⟨htrue, hframes, hfalse⟩ := hfacts
  obtain ⟨history, h, hpermitted⟩ := nopsState_run.replayUnder
    (fun _ _ _ hstep => hstep) (by simp) hreplay
  have hfree := deadlock_free_of_permitted rank
    (h.reachableUnder fun e he => of_decide_eq_true (hpermitted e he))
  exact ⟨s, h.reachable, htrue, hframes, hfalse, hfree⟩

/-- A bulk call comes to the gate, and the detour looks the hook up. -/
theorem deadlock_of_lookup :
    ∃ s, (registrySystem [false, true] nopsInner).Reachable s ∧
      s.control true = .waiting ⟨.uninstall, false, some ([true], 0)⟩ ∧
      s.control false = .lookupLocking ∧
      Deadlocked (s.waitsFor · ·) (Set.univ : Set Bool) := by
  have hrun : (replay (next [false, true]) nopsState
      (entered (.startBulk .uninstall) 6 ++ [(false, .startLookup)])).map
        (fun s => (s.control true, s.control false,
          s.waitsFor true false && s.waitsFor false true)) =
      some (.waiting ⟨.uninstall, false, some ([true], 0)⟩, .lookupLocking,
        true) := by
    decide +kernel
  obtain ⟨s, hreplay, hfacts⟩ := Option.map_eq_some_iff.mp hrun
  simp only [Prod.mk.injEq, Bool.and_eq_true] at hfacts
  obtain ⟨htrue, hfalse, hwaits⟩ := hfacts
  obtain ⟨history, h⟩ := nopsState_run.replay (fun _ _ _ hstep => hstep) hreplay
  refine ⟨s, h.reachable, htrue, hfalse, ⟨true, trivial⟩, ?_⟩
  rintro (_ | _) -
  · exact ⟨true, trivial, hwaits.2⟩
  · exact ⟨false, trivial, hwaits.1⟩

end Registry

end Ztour
