import Ztour.Concurrency.BulkRace
import Ztour.Concurrency.Blocking
import Ztour.HookInst.Construction

/-!
# A bulk uninstall waits for all detours

While one thread uninstalls all hooks and the others only call hooked functions
and look hooks up, each hook is left without calls at its gate and without an
entry for new ones.  When the bulk call is done, all detours have finished;
threads may still be on their way out, behind the `fetch_sub` of the gate.
-/

namespace Ztour

open Ztour.Foundation

namespace Registry

open Concurrency TransitionSystem

variable {Tid Inst : Type}

def State.isBeingCalled (s : State Tid Inst) (j : Inst) : Bool :=
  0 < (s.cells j).numActiveCalls

/-- No call is in the detour or on its way to it, and no new one is led there. -/
structure State.Vacant (s : State Tid Inst) (j : Inst) : Prop where
  unpatched : s.entryPatched j = false
  unused : ∀ t, .entering j ∉ s.frames t ∧ .body j ∉ s.frames t

def Control.looksUp : Control Inst → Bool
  | idle | lookupLocking | lookupUnlocking => true
  | _ => false

def Act.leavesHooks : Act Inst → Bool
  | startOp _ _ | startBulk _ => false
  | _ => true

def Control.gate : Control Inst → Option Inst
  | gateTest c | waiting c => some c.inst
  | _ => none

/-- When an uninstall finds the gate of its hook unused, no call is on its way
from the patch to the gate. -/
def NoneEntering (s : State Tid Inst) (i : Tid) : Prop :=
  ∀ j ∈ (s.control i).gate, (s.cells j).numActiveCalls = 0 →
    ∀ t, Frame.entering j ∉ s.frames t

instance [Fintype Tid] [DecidableEq Inst] (s : State Tid Inst) (i : Tid) :
    Decidable (NoneEntering s i) :=
  inferInstanceAs (Decidable (∀ _ ∈ _, _))

namespace Control

def remaining (registry : List Inst) :
    Control Inst → Option (ControlOp × List Inst)
  | bulkLocking op => some (op, registry)
  | q => q.unsettled

end Control

section Steps

variable [DecidableEq Tid] [DecidableEq Inst] {registry : List Inst}
  {s s' : State Tid Inst} {i t : Tid} {a : Act Inst} {j : Inst}
  {inner : Inst → Inner}

/-! ## What stays -/

theorem Transition.inner_eq (h : Transition registry s i a s') (j : Inst) :
    ∃ flag, (s'.cells j).inner =
      { (s.cells j).inner with isInstalled := flag } := by
  cases h with
  | @setFlag c here =>
      by_cases hj : j = c.inst
      · subst hj
        exact ⟨c.op.flag, by simp [State.setInstalled]⟩
      · exact ⟨(s.cells j).inner.isInstalled, by simp [State.setInstalled, hj]⟩
  | frame here step =>
      exact ⟨(s.cells j).inner.isInstalled, by rw [step.inner_eq]⟩
  | _ => exact ⟨(s.cells j).inner.isInstalled, by simp⟩

theorem reachable_inner_eq (h : (registrySystem registry inner).Reachable s)
    (j : Inst) :
    ∃ flag, (s.cells j).inner = { inner j with isInstalled := flag } := by
  apply ReachableUnder.invariant (I := fun s : State Tid Inst =>
    ∃ flag, (s.cells j).inner = { inner j with isInstalled := flag }) _ _ h
  · rintro s ⟨m, rfl⟩
    exact ⟨(inner j).isInstalled, rfl⟩
  · rintro s e s' ⟨flag, hinner⟩ hstep _
    obtain ⟨flag', hinner'⟩ := (next_transition hstep).inner_eq j
    exact ⟨flag', by rw [hinner', hinner]⟩

theorem looksUp_next (h : next registry s (t, a) = some s')
    (ha : a.leavesHooks = true) (hold : (s.control t).looksUp = true) :
    (s'.control t).looksUp = true := by
  cases a with
  | startOp op j | startBulk op => cases ha
  | startLookup =>
      simp only [next, Option.ite_none_right_eq_some, Option.some.injEq] at h
      rw [← h.2, State.control_setControl_self]
      rfl
  | advance os =>
      simp only [next] at h
      cases hcontrol : s.control t with
      | idle => simp [hcontrol, stepControl] at h
      | lookupLocking =>
          simp only [hcontrol, stepControl, Option.ite_none_right_eq_some,
            Option.some.injEq] at h
          rw [← h.2, State.control_setControl_self]
          rfl
      | lookupUnlocking =>
          simp only [hcontrol, stepControl, Option.some.injEq] at h
          rw [← h, State.control_setControl_self]
          rfl
      | _ =>
          rw [hcontrol] at hold
          cases hold
  | call j | frame =>
      rw [(frameTransition_of_next h rfl).2.control_eq]
      exact hold

theorem Transition.keeps_code (h : Transition registry s t a s')
    (hold : (s.control t).looksUp = true) :
    s'.mem = s.mem ∧ ∀ j, (s'.cells j).inner = (s.cells j).inner := by
  cases h with
  | start here _ _ | unlockRegistry here | lockRegistry _ path =>
      exact ⟨rfl, fun j => by simp⟩
  | frame here step => exact ⟨step.mem_eq, step.inner_eq⟩
  | pass here unused available =>
      rcases here with here | here <;> simp [here, Control.looksUp] at hold
  | lock here _ | refuse here _ | prepare here _ | writeFail _ here _
  | write _ here _ | wait here _ | setFlag here | unlock here | skip here _
  | visit here _ | finish here =>
      simp [here, Control.looksUp] at hold

omit [DecidableEq Tid] [DecidableEq Inst] in
theorem entryPatched_congr (hmem : s'.mem = s.mem)
    (htarget : (s'.cells j).inner.targetFunc = (s.cells j).inner.targetFunc)
    (henter : (s'.cells j).inner.codeEnterDetour =
      (s.cells j).inner.codeEnterDetour) :
    s'.entryPatched j = s.entryPatched j := by
  unfold State.entryPatched
  dsimp only
  rw [hmem, htarget, henter]

theorem entryPatched_setInstalled (s : State Tid Inst) (i : Tid) (k j : Inst)
    (flag : Bool) (q : Control Inst) :
    ((s.setInstalled k flag).setControl i q).entryPatched j =
      s.entryPatched j := by
  have hinner : ∀ {α : Type} (field : Inner → α),
      field { (s.cells k).inner with isInstalled := flag } =
        field (s.cells k).inner →
      field (((s.setInstalled k flag).setControl i q).cells j).inner =
        field (s.cells j).inner :=
    fun field hfield => State.cells_setCell_field s (field ·.inner) hfield j
  exact entryPatched_congr rfl (hinner Inner.targetFunc rfl)
    (hinner Inner.codeEnterDetour rfl)

omit [DecidableEq Tid] in
theorem isInstalled_setInstalled_ne (s : State Tid Inst) {k j : Inst}
    (h : j ≠ k) (flag : Bool) :
    (s.setInstalled k flag).isInstalled j = s.isInstalled j := by
  simp [State.isInstalled, State.setInstalled, h]

/-- The calls of a hook come in through its patch. -/
theorem State.Vacant.unused_frame (h : s.Vacant j)
    (hstep : FrameTransition s t s') :
    .entering j ∉ s'.frames t ∧ .body j ∉ s'.frames t := by
  have hold := h.unused t
  cases hstep with
  | @call k outside patched =>
      have hk : j ≠ k := by
        rintro rfl
        rw [h.unpatched] at patched
        cases patched
      simpa [hk] using hold
  | leave top out => rcases out with rfl | rfl <;> simp_all
  | enter top | lockGate top _ | notify top | unlockGate top | ret top =>
      simp_all

theorem State.Vacant.unused_transition (h : s.Vacant j)
    (hstep : Transition registry s t a s') (u : Tid) :
    .entering j ∉ s'.frames u ∧ .body j ∉ s'.frames u := by
  rcases hstep.frame_or_not with ⟨-, step⟩ | ⟨hframes, -⟩
  · by_cases hu : u = t
    · subst hu
      exact h.unused_frame step
    · rw [step.frames_ne hu]
      exact h.unused u
  · rw [hframes]
    exact h.unused u

theorem State.Vacant.transition (h : s.Vacant j)
    (hstep : Transition registry s t a s')
    (hentry : s'.entryPatched j = s.entryPatched j) : s'.Vacant j where
  unpatched := hentry.trans h.unpatched
  unused := h.unused_transition hstep

/-! ## The entries of the hooks -/

omit [DecidableEq Tid] [DecidableEq Inst] in
theorem not_entryPatched_of_head
    (h : (s.cells j).inner.targetFunc ≠ 0 →
      s.mem (s.cells j).inner.targetFunc ≠ some 0xE9) :
    s.entryPatched j = false := by
  by_contra hpatched
  unfold State.entryPatched at hpatched
  rw [Bool.not_eq_false, Bool.and_eq_true, decide_eq_true_eq,
    decide_eq_true_eq, Memory.read_eq_some_iff] at hpatched
  obtain ⟨htarget, -, hholds⟩ := hpatched
  exact h htarget (Memory.holds_cons.mp hholds).1

omit [DecidableEq Inst] in
theorem entryPatched_setMem {m : Mem} {q : Control Inst}
    (h : ∀ x ∈ span (s.cells j).inner.targetFunc 5, m x = s.mem x) :
    ((s.setMem m).setControl i q).entryPatched j = s.entryPatched j := by
  have hread : m.read (s.cells j).inner.targetFunc 5 =
      s.mem.read (s.cells j).inner.targetFunc 5 :=
    Memory.read_congr (by decide) h
  unfold State.entryPatched
  dsimp only
  rw [← hread]
  rfl

/-- The hooks are such as are constructed, and none writes over the entry of
another. -/
structure HooksApart (registry : List Inst) (inner : Inst → Inner) : Prop where
  wellFormed : ∀ j ∈ registry, (inner j).WellFormed
  headNotJmp : ∀ j ∈ registry, (inner j).HeadNotJmp
  apart : ∀ j ∈ registry, ∀ k ∈ registry, j ≠ k →
    Disjoint (span (inner j).targetFunc 5)
      (span (inner k).targetFunc (inner k).patchedOriginalBytes.length)

def SameCode (inner : Inst → Inner) (s : State Tid Inst) : Prop :=
  ∀ j, ∃ flag, (s.cells j).inner = { inner j with isInstalled := flag }

omit [DecidableEq Inst] in
theorem HooksApart.entryPatched_other (h : HooksApart registry inner)
    (hcode : SameCode inner s) {k : Inst} (hj : j ∈ registry)
    (hk : k ∈ registry) (hne : j ≠ k) (os : Os) {q : Control Inst} :
    ((s.setMem (overwriteExecutableMem os s.mem
        (s.cells k).inner.patchedOriginalBytes
        (s.cells k).inner.targetFunc).2).setControl i q).entryPatched j =
      s.entryPatched j := by
  obtain ⟨jflag, hjinner⟩ := hcode j
  obtain ⟨kflag, hkinner⟩ := hcode k
  apply entryPatched_setMem
  intro x hx
  rw [hjinner] at hx
  rw [overwriteExecutableMem_mem, hkinner]
  apply Memory.write_of_not_mem
  intro hmem
  have hwritten : x ∈ span (inner k).targetFunc
      (inner k).patchedOriginalBytes.length :=
    span_mono (List.length_take_le' _ _) hmem
  exact Set.disjoint_left.mp (h.apart j hj k hk hne) hx hwritten

omit [DecidableEq Inst] in
theorem HooksApart.entryPatched_restored (h : HooksApart registry inner)
    (hcode : SameCode inner s) (hj : j ∈ registry) {m : Mem} {q : Control Inst}
    (hm : m = s.mem.write (s.cells j).inner.targetFunc
      (s.cells j).inner.patchedOriginalBytes) :
    ((s.setMem m).setControl i q).entryPatched j = false := by
  obtain ⟨flag, hinner⟩ := hcode j
  apply not_entryPatched_of_head
  simp only [State.setControl_mem, State.setMem_mem, State.setControl_cells,
    State.setMem_cells, hm, hinner]
  intro htarget
  have hlen := (h.wellFormed j hj).length_ge htarget
  have hlt := (h.wellFormed j hj).length_lt
  have hhead := h.headNotJmp j hj
  have hholds := Memory.holds_write (m := s.mem) (a := (inner j).targetFunc)
    (by omega : (inner j).patchedOriginalBytes.length ≤ 2 ^ 64)
  unfold Inner.HeadNotJmp at hhead
  cases hbytes : (inner j).patchedOriginalBytes with
  | nil => simp [hbytes] at hlen
  | cons byte bytes =>
      rw [hbytes] at hholds hhead
      rw [(Memory.holds_cons.mp hholds).1]
      simpa using hhead

/-! ## The loop -/

/-- Thread `i` uninstalls all hooks and has `rest` to settle. -/
structure LoopState (registry : List Inst) (i : Tid) (s : State Tid Inst)
    (rest : List Inst) : Prop where
  within : rest ⊆ registry
  settled : ∀ j ∈ registry, j ∉ rest → s.isInstalled j = false
  vacant : ∀ j ∈ registry, s.isInstalled j = false → s.Vacant j
  prepared : ∀ c bytes, s.control i = .writing c bytes →
    s.isInstalled c.inst = true ∧
      bytes = (s.cells c.inst).inner.patchedOriginalBytes
  restored : ∀ c, s.control i = .gateTest c ∨ s.control i = .waiting c →
    s.entryPatched c.inst = false
  left : ∀ c, s.control i = .flagging c → s.Vacant c.inst

def Control.plain : Control Inst → Bool
  | writing _ _ | gateTest _ | waiting _ | flagging _ => false
  | _ => true

variable {rest rest' : List Inst} {c : OpCall Inst}

theorem LoopState.keep (h : LoopState registry i s rest)
    (hstep : Transition registry s t a s') (hmem : s'.mem = s.mem)
    (hinner : ∀ j, (s'.cells j).inner = (s.cells j).inner)
    (hwithin : rest' ⊆ registry)
    (hsettled : ∀ j ∈ registry, j ∉ rest' → s.isInstalled j = false)
    (hprepared : ∀ c bytes, s'.control i = .writing c bytes →
      s.isInstalled c.inst = true ∧
        bytes = (s.cells c.inst).inner.patchedOriginalBytes)
    (hrestored : ∀ c, s'.control i = .gateTest c ∨ s'.control i = .waiting c →
      s.entryPatched c.inst = false)
    (hleft : ∀ c, s'.control i = .flagging c → s.Vacant c.inst) :
    LoopState registry i s' rest' := by
  have hflag : s'.isInstalled = s.isInstalled := by
    funext j
    exact congrArg Inner.isInstalled (hinner j)
  have hentry : ∀ j, s'.entryPatched j = s.entryPatched j :=
    fun j => entryPatched_congr hmem (by rw [hinner]) (by rw [hinner])
  refine ⟨hwithin, ?_, ?_, ?_, ?_, ?_⟩
  · rw [hflag]
    exact hsettled
  · intro j hj hnot
    rw [hflag] at hnot
    exact (h.vacant j hj hnot).transition hstep (hentry j)
  · intro c bytes hc
    rw [hflag, hinner]
    exact hprepared c bytes hc
  · intro c hc
    rw [hentry]
    exact hrestored c hc
  · intro c hc
    exact (hleft c hc).transition hstep (hentry c.inst)

theorem LoopState.other (h : LoopState registry i s rest) (hne : i ≠ t)
    (hstep : Transition registry s t a s')
    (hlooks : (s.control t).looksUp = true) :
    LoopState registry i s' rest := by
  obtain ⟨hmem, hinner⟩ := hstep.keeps_code hlooks
  have hcontrol := hstep.control_ne hne
  apply h.keep hstep hmem hinner h.within h.settled
  · rw [hcontrol]
    exact h.prepared
  · rw [hcontrol]
    exact h.restored
  · rw [hcontrol]
    exact h.left

theorem LoopState.move (h : LoopState registry i s rest)
    (hstep : Transition registry s i a s') (hmem : s'.mem = s.mem)
    (hinner : ∀ j, (s'.cells j).inner = (s.cells j).inner)
    (hplain : (s'.control i).plain = true)
    (hwithin : rest' ⊆ registry)
    (hsettled : ∀ j ∈ registry, j ∉ rest' → s.isInstalled j = false) :
    LoopState registry i s' rest' := by
  apply h.keep hstep hmem hinner hwithin hsettled
  · intro c bytes hc
    rw [hc] at hplain
    cases hplain
  · rintro c (hc | hc) <;>
    · rw [hc] at hplain
      cases hplain
  · intro c hc
    rw [hc] at hplain
    cases hplain

omit [DecidableEq Tid] [DecidableEq Inst] in
theorem remaining_afterWrite (c : OpCall Inst) :
    c.afterWrite.remaining registry =
      c.bulk.map fun loop => (c.op, c.inst :: loop.1) := by
  rw [← c.unsettled_afterWrite]
  unfold OpCall.afterWrite
  split <;> rfl

omit [DecidableEq Tid] [DecidableEq Inst] in
theorem operation_of_remaining
    (h : c.bulk.map (fun loop => (c.op, c.inst :: loop.1)) =
      some (.uninstall, rest)) : c.op = .uninstall ∧ c.inst ∈ rest := by
  obtain ⟨loop, -, hloop⟩ := Option.map_eq_some_iff.mp h
  simp only [Prod.mk.injEq] at hloop
  exact ⟨hloop.1, hloop.2 ▸ List.mem_cons_self⟩

theorem LoopState.wrote (h : LoopState registry i s rest) {bytes : List Byte}
    {os : Os} {m : Mem} {q : Control Inst} (hhooks : HooksApart registry inner)
    (hcode : SameCode inner s) (here : s.control i = .writing c bytes)
    (hc : c.inst ∈ rest)
    (hm : m = (overwriteExecutableMem os s.mem bytes
      (s.cells c.inst).inner.targetFunc).2)
    (hstep : Transition registry s i a ((s.setMem m).setControl i q))
    (hrestored : q = .gateTest c →
      ((s.setMem m).setControl i q).entryPatched c.inst = false)
    (hplain : q.plain = true ∨ q = .gateTest c) :
    LoopState registry i ((s.setMem m).setControl i q) rest := by
  obtain ⟨hinstalled, rfl⟩ := h.prepared c bytes here
  refine ⟨h.within, h.settled, ?_, ?_, ?_, ?_⟩
  · intro j hj hnot
    have hne : j ≠ c.inst := by
      rintro rfl
      exact Bool.false_ne_true (hnot.symm.trans hinstalled)
    refine (h.vacant j hj hnot).transition hstep ?_
    rw [hm]
    exact hhooks.entryPatched_other hcode hj (h.within hc) hne os
  · intro c' bytes hc'
    rw [State.control_setControl_self] at hc'
    rw [hc'] at hplain
    simp [Control.plain] at hplain
  · rw [State.control_setControl_self]
    intro c' hc'
    rcases hplain with hplain | rfl
    · rcases hc' with rfl | rfl <;> cases hplain
    · rcases hc' with hc' | hc'
      · cases hc'
        exact hrestored rfl
      · cases hc'
  · intro c' hc'
    rw [State.control_setControl_self] at hc'
    rw [hc'] at hplain
    simp [Control.plain] at hplain

theorem LoopState.flagged (h : LoopState registry i s (c.inst :: rest))
    (here : s.control i = .flagging c)
    (hstep : Transition registry s i a
      ((s.setInstalled c.inst false).setControl i (.unlocking c true))) :
    LoopState registry i
      ((s.setInstalled c.inst false).setControl i (.unlocking c true)) rest := by
  have hflag : ∀ j, j ≠ c.inst → ((s.setInstalled c.inst false).setControl i
      (.unlocking c true)).isInstalled j = s.isInstalled j :=
    fun j hj => isInstalled_setInstalled_ne s hj false
  have hentry : ∀ j, ((s.setInstalled c.inst false).setControl i
      (.unlocking c true)).entryPatched j = s.entryPatched j :=
    fun j => entryPatched_setInstalled s i c.inst j false _
  refine ⟨List.subset_of_cons_subset h.within, ?_, ?_, by simp, by simp, by simp⟩
  · intro j hj hrest
    by_cases heq : j = c.inst
    · rw [heq]
      exact State.isInstalled_setInstalled_self s c.inst false
    · rw [hflag j heq]
      exact h.settled j hj (by simp [heq, hrest])
  · intro j hj hnot
    by_cases heq : j = c.inst
    · rw [heq]
      exact (h.left c here).transition hstep (hentry c.inst)
    · rw [hflag j heq] at hnot
      exact (h.vacant j hj hnot).transition hstep (hentry j)

omit [DecidableEq Tid] in
theorem LoopState.vacant_at_gate [Fintype Tid] (h : LoopState registry i s rest)
    (hcounted : CallsCounted s) (hgate : NoneEntering s i)
    (here : s.control i = .gateTest c ∨ s.control i = .waiting c)
    (unused : (s.cells c.inst).numActiveCalls = 0) : s.Vacant c.inst where
  unpatched := h.restored c here
  unused := by
    have hnone : ∀ t, Frame.entering c.inst ∉ s.frames t := by
      apply hgate c.inst _ unused
      rcases here with here | here <;> rw [here] <;> rfl
    exact fun t => ⟨hnone t, fun hbody => hcounted.ne_zero hbody unused⟩

theorem LoopState.stay (h : LoopState registry i s rest)
    (hstep : Transition registry s i a s') (hmem : s'.mem = s.mem)
    (hinner : ∀ j, (s'.cells j).inner = (s.cells j).inner)
    (hplain : (s'.control i).plain = true) : LoopState registry i s' rest :=
  h.move hstep hmem hinner hplain h.within h.settled

theorem LoopState.began (h : LoopState registry i s rest) {bytes : List Byte}
    (hop : c.op = .uninstall)
    (ready : c.op.prepare (s.cells c.inst).inner = .ok bytes)
    (hstep : Transition registry s i a (s.setControl i (.writing c bytes))) :
    LoopState registry i (s.setControl i (.writing c bytes)) rest := by
  rw [hop] at ready
  obtain ⟨hinstalled, hbytes⟩ := Inner.prepareUninstall_eq_ok ready
  apply h.keep hstep rfl (by simp) h.within h.settled
  · intro c' bytes' hc
    rw [State.control_setControl_self] at hc
    cases hc
    exact ⟨hinstalled, hbytes⟩
  · simp
  · simp

theorem LoopState.wroteBack (h : LoopState registry i s rest)
    {bytes : List Byte} {os : Os} {m : Mem} (hhooks : HooksApart registry inner)
    (hcode : SameCode inner s) (hop : c.op = .uninstall) (hc : c.inst ∈ rest)
    (here : s.control i = .writing c bytes)
    (wrote : overwriteExecutableMem os s.mem bytes
      (s.cells c.inst).inner.targetFunc = (.ok (), m))
    (hstep : Transition registry s i a
      ((s.setMem m).setControl i c.afterWrite)) :
    LoopState registry i ((s.setMem m).setControl i c.afterWrite) rest := by
  have hgate : c.afterWrite = .gateTest c := by
    simp [OpCall.afterWrite, hop]
  have hm := (overwriteExecutableMem_eq_ok os s.mem bytes
    (s.cells c.inst).inner.targetFunc (by rw [wrote])).2
  rw [wrote, (h.prepared c bytes here).2] at hm
  exact h.wrote hhooks hcode here hc (by rw [wrote]) hstep
    (fun _ => hhooks.entryPatched_restored hcode (h.within hc) hm) (.inr hgate)

theorem LoopState.waited (h : LoopState registry i s rest)
    (here : s.control i = .gateTest c)
    (hstep : Transition registry s i a (s.setControl i (.waiting c))) :
    LoopState registry i (s.setControl i (.waiting c)) rest := by
  apply h.keep hstep rfl (by simp) h.within h.settled
  · simp
  · intro c' hc
    rw [State.control_setControl_self] at hc
    simp only [reduceCtorEq, Control.waiting.injEq, false_or] at hc
    rw [← hc]
    exact h.restored c (.inl here)
  · simp

theorem LoopState.passed (h : LoopState registry i s rest)
    (hleft : s.Vacant c.inst)
    (hstep : Transition registry s i a (s.setControl i (.flagging c))) :
    LoopState registry i (s.setControl i (.flagging c)) rest := by
  apply h.keep hstep rfl (by simp) h.within h.settled
  · simp
  · simp
  · intro c' hc
    rw [State.control_setControl_self] at hc
    cases hc
    exact hleft

theorem LoopState.skipped (h : LoopState registry i s (j :: rest))
    (same : s.isInstalled j = false) {numChanged : Nat}
    (hstep : Transition registry s i a
      (s.setControl i (.bulkTesting .uninstall rest numChanged))) :
    LoopState registry i
      (s.setControl i (.bulkTesting .uninstall rest numChanged)) rest := by
  apply h.move hstep rfl (by simp) (by simp [Control.plain])
    (List.subset_of_cons_subset h.within)
  intro k hk hrest
  by_cases heq : k = j
  · rw [heq]
    exact same
  · exact h.settled k hk (by simp [heq, hrest])

theorem LoopState.own [Fintype Tid]
    (h : ∀ rest, (s.control i).remaining registry = some (.uninstall, rest) →
      LoopState registry i s rest)
    (hhooks : HooksApart registry inner) (hcode : SameCode inner s)
    (hcounted : CallsCounted s) (hgate : NoneEntering s i)
    (hbusy : (s.control i).looksUp = false)
    (hstep : Transition registry s i a s')
    (hrest : (s'.control i).remaining registry = some (.uninstall, rest)) :
    LoopState registry i s' rest := by
  have hmove := hstep
  -- only a flag that is set and a hook that is skipped shorten the list
  have hsame : (s.control i).remaining registry =
      (s'.control i).remaining registry → LoopState registry i s rest :=
    fun heq => h rest (heq.trans hrest)
  cases hstep with
  | start here _ _ | frame here _ => simp [here, Control.looksUp] at hbusy
  | lock here _ | refuse here _ | visit here _ | finish here =>
      have hold := hsame (by simp [here, Control.remaining, Control.unsettled])
      exact hold.stay hmove rfl (by simp) (by simp [Control.plain])
  | prepare here ready =>
      have hold := hsame (by simp [here, Control.remaining, Control.unsettled])
      rw [State.control_setControl_self] at hrest
      exact hold.began (operation_of_remaining hrest).1 ready hmove
  | writeFail _ here failed =>
      have hold := hsame (by simp [here, Control.remaining, Control.unsettled])
      rw [State.control_setControl_self] at hrest
      exact hold.wrote hhooks hcode here (operation_of_remaining hrest).2
        (by rw [failed]) hmove (by simp) (.inl rfl)
  | write _ here wrote =>
      rw [State.control_setControl_self, remaining_afterWrite] at hrest hsame
      have hold := hsame (by rw [here]; rfl)
      obtain ⟨hop, hc⟩ := operation_of_remaining hrest
      exact hold.wroteBack hhooks hcode hop hc here wrote hmove
  | pass here unused available =>
      have hold := hsame (by
        rcases here with here | here <;>
          simp [here, Control.remaining, Control.unsettled])
      exact hold.passed (hold.vacant_at_gate hcounted hgate here unused) hmove
  | wait here used =>
      have hold := hsame (by simp [here, Control.remaining, Control.unsettled])
      exact hold.waited here hmove
  | @setFlag c here =>
      rw [State.control_setControl_self] at hrest
      obtain ⟨loop, hloop, hpair⟩ := Option.map_eq_some_iff.mp hrest
      simp only [Prod.mk.injEq] at hpair
      obtain ⟨hop, rfl⟩ := hpair
      have hold : LoopState registry i s (c.inst :: loop.1) := by
        apply h
        rw [here, ← hop]
        simp [Control.remaining, Control.unsettled, hloop]
      rw [hop] at hmove ⊢
      exact hold.flagged here hmove
  | @unlock c returns here =>
      rw [State.control_setControl_self] at hrest hsame
      have hold := hsame (by
        rw [here]
        unfold OpCall.afterUnlock at hrest ⊢
        cases hbulk : c.bulk <;> cases returns <;>
          simp_all [Control.remaining, Control.unsettled])
      have hplain : (c.afterUnlock returns).plain = true := by
        unfold OpCall.afterUnlock
        split <;> rfl
      exact hold.stay hmove rfl (by simp) (by simpa using hplain)
  | lockRegistry free path =>
      rcases path with ⟨op, here, rfl⟩ | ⟨here, rfl⟩
      · have hold := hsame (by simp [here, Control.remaining, Control.unsettled])
        exact hold.stay hmove rfl (by simp) (by simp [Control.plain])
      · rw [State.control_setControl_self] at hrest
        cases hrest
  | @skip op j later numChanged here same =>
      rw [State.control_setControl_self] at hrest
      cases hrest
      have hold : LoopState registry i s (j :: rest) := by
        apply h
        rw [here]
        rfl
      exact hold.skipped same hmove
  | unlockRegistry here =>
      rw [State.control_setControl_self] at hrest
      cases hrest

/-! ## The whole call -/

omit [DecidableEq Tid] in
theorem State.Vacant.not_isBeingCalled [Fintype Tid]
    (h : s.Vacant j) (hcounted : CallsCounted s) :
    s.isBeingCalled j = false := by
  unfold isBeingCalled
  rw [decide_eq_false_iff_not, hcounted j, Nat.not_lt, Nat.le_zero]
  exact Finset.sum_eq_zero fun t _ => List.count_eq_zero.mpr (h.unused t).2

structure Draining (registry : List Inst) (inner : Inst → Inner) (i : Tid)
    [Fintype Tid] (s : State Tid Inst) : Prop where
  others : ∀ t, t ≠ i → (s.control t).looksUp = true
  code : SameCode inner s
  counted : CallsCounted s
  loop : ∀ rest, (s.control i).remaining registry = some (.uninstall, rest) →
    LoopState registry i s rest

variable [Fintype Tid]

theorem Draining.next (h : Draining registry inner i s)
    (hhooks : HooksApart registry inner)
    (hstep : next registry s (t, a) = some s') (ha : a.leavesHooks = true)
    (hgate : NoneEntering s t) : Draining registry inner i s' := by
  have htrans := next_transition hstep
  refine ⟨?_, ?_, h.counted.transition htrans, ?_⟩
  · intro u hu
    by_cases hut : u = t
    · subst hut
      exact looksUp_next hstep ha (h.others u hu)
    · rw [htrans.control_ne hut]
      exact h.others u hu
  · intro j
    obtain ⟨flag, hinner⟩ := h.code j
    obtain ⟨flag', hinner'⟩ := htrans.inner_eq j
    exact ⟨flag', by rw [hinner', hinner]⟩
  · intro rest hrest
    by_cases hit : i = t
    · subst hit
      cases hlooks : (s.control i).looksUp with
      | true =>
          have hlooks' := looksUp_next hstep ha hlooks
          cases hcontrol : s'.control i <;>
            simp [hcontrol, Control.looksUp, Control.remaining,
              Control.unsettled] at hlooks' hrest
      | false =>
          exact LoopState.own h.loop hhooks h.code h.counted hgate hlooks htrans
            hrest
    · rw [htrans.control_ne hit] at hrest
      exact (h.loop rest hrest).other hit htrans (h.others t (Ne.symm hit))

/-- A bulk uninstall starts while no other operation is under way and no detour
of a hook that is not installed is running.  If meanwhile no operation is started
and no call is overtaken on its way to the gate, then at the end every hook is
uninstalled, and no thread is in a detour or led to one. -/
theorem uninstall_all_drains {s₀ : State Tid Inst}
    (hstart : (registrySystem registry inner).Reachable s₀)
    (hhooks : HooksApart registry inner)
    (here : s₀.control i = .bulkLocking .uninstall)
    (hothers : ∀ t, t ≠ i → (s₀.control t).looksUp = true)
    (hvacant : ∀ j ∈ registry, s₀.isInstalled j = false → s₀.Vacant j)
    (h : ((registrySystem registry inner).startingAt s₀).ReachableUnder
      (fun s e _ => e.2.leavesHooks = true ∧ NoneEntering s e.1) s)
    {numChanged : Nat}
    (hdone : s.control i = .bulkUnlocking .uninstall (some numChanged)) :
    ∀ j ∈ registry, s.isInstalled j = false ∧ s.isBeingCalled j = false ∧
      s.Vacant j := by
  have hdrained : Draining registry inner i s := by
    apply ReachableUnder.invariant _ _ h
    · rintro s rfl
      refine ⟨hothers, fun j => reachable_inner_eq hstart j,
        reachable_callsCounted hstart, fun rest hrest => ?_⟩
      rw [here] at hrest
      cases hrest
      exact ⟨List.Subset.refl _, fun j hj hnot => absurd hj hnot, hvacant,
        by simp [here], by simp [here], by simp [here]⟩
    · rintro s ⟨t, a⟩ s' hdraining hstep ⟨ha, hgate⟩
      exact hdraining.next hhooks hstep ha hgate
  have hloop := hdrained.loop [] (by rw [hdone]; rfl)
  intro j hj
  have hnot := hloop.settled j hj List.not_mem_nil
  have hvacated := hloop.vacant j hj hnot
  exact ⟨hnot, hvacated.not_isBeingCalled hdrained.counted, hvacated⟩

end Steps

def inDetour : List (Bool × Act Bool) :=
  performs true .install false ++ performs true .install true ++
    [(true, .call false), (true, .frame), (false, .startBulk .uninstall)]

def waitsForDetour : List (Bool × Act Bool) :=
  advances false 6 ++ (true, .frame) :: advances false 11

theorem nopsInner_apart : HooksApart [false, true] nopsInner where
  wellFormed := by
    intro j _
    cases j <;> exact ⟨by decide, by decide, by decide⟩
  headNotJmp := by
    intro j _
    cases j <;> simp [Inner.HeadNotJmp, nopsInner, Inner.nopInner]
  apart := by
    intro j _ k _ hne
    rw [Set.disjoint_left]
    intro x hx hx'
    obtain ⟨n, hn, -, rfl⟩ := eq_offset_of_mem_span hx
    cases j <;> cases k <;> simp only [ne_eq, not_true_eq_false] at hne <;>
      interval_cases n <;> exact absurd hx' (by decide)

theorem uninstall_all_drains_nops :
    ∃ s₀ s : State Bool Bool,
      (registrySystem [false, true] nopsInner).Reachable s₀ ∧
      s₀.frames true = [.body false] ∧
      s₀.control false = .bulkLocking .uninstall ∧
      ((registrySystem [false, true] nopsInner).startingAt s₀).Reachable s ∧
      s.control false = .bulkUnlocking .uninstall (some 2) ∧
      s.frames true = [.locking false] ∧
      ∀ j, s.isInstalled j = false ∧ s.isBeingCalled j = false ∧
        s.Vacant j := by
  have hprefix : (replay (next [false, true]) nopsState inDetour).map
      (fun s => (s.control false, s.frames true, (s.control true).looksUp &&
        s.isInstalled false && s.isInstalled true,
        (replayUnder (next [false, true])
          (fun s e => e.2.leavesHooks && decide (NoneEntering s e.1)) s
          waitsForDetour).map (fun s => decide
            (s.control false = .bulkUnlocking .uninstall (some 2) ∧
              s.frames true = [.locking false])))) =
      some (.bulkLocking .uninstall, [.body false], true, some true) := by
    decide +kernel
  obtain ⟨s₀, hreplay, hfacts⟩ := Option.map_eq_some_iff.mp hprefix
  simp only [Prod.mk.injEq, Bool.and_eq_true] at hfacts
  obtain ⟨hcontrol, hframes, ⟨⟨hlooks, hfirst⟩, hsecond⟩, hlater⟩ := hfacts
  obtain ⟨s, hreplay', hends⟩ := Option.map_eq_some_iff.mp hlater
  obtain ⟨hdone, hleaving⟩ := of_decide_eq_true hends
  obtain ⟨earlier, hrun₀⟩ :=
    nopsState_run.replay (fun _ _ _ hstep => hstep) hreplay
  have hinit : ((registrySystem [false, true] nopsInner).startingAt s₀).Run
      s₀ [] := .init rfl
  obtain ⟨history, hrun, hallowed⟩ :=
    hinit.replayUnder (fun _ _ _ hstep => hstep) (by simp) hreplay'
  simp only [Bool.and_eq_true, decide_eq_true_eq] at hallowed
  have hothers : ∀ t, t ≠ false → (s₀.control t).looksUp = true := by
    intro t ht
    rw [Bool.eq_true_of_not_eq_false ht]
    exact hlooks
  have hinstalled : ∀ j, s₀.isInstalled j = true := by
    intro j
    cases j with
    | false => exact hfirst
    | true => exact hsecond
  have hdrained := uninstall_all_drains hrun₀.reachable nopsInner_apart hcontrol
    hothers (fun j _ hnot => by simp [hinstalled j] at hnot)
    (hrun.reachableUnder hallowed) hdone
  refine ⟨s₀, s, hrun₀.reachable, hframes, hcontrol, hrun.reachable, hdone,
    hleaving, fun j => hdrained j (by cases j <;> decide)⟩

end Registry

end Ztour
