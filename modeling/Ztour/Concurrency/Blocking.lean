import Ztour.Concurrency.Registry
import Ztour.Foundation.WaitGraph

/-!
# Threads that block each other

Four things block a thread: a hook's mutex, the registry mutex, a call gate with
calls of other threads or of its own, and the mutex of a gate.  Whoever holds
one of the first two and is blocked is an uninstall at its gate, or a bulk call
behind one; and the calls that a gate waits for may be blocked in turn.
-/

namespace Ztour

open Ztour.Foundation

namespace Registry

open Concurrency TransitionSystem

variable {Tid Inst : Type}

section WaitsFor

variable [DecidableEq Tid] [DecidableEq Inst] (s : State Tid Inst)

/-- Thread `t` is blocked on a mutex that `u` holds, or on a gate that a call of
`u` keeps above 0. -/
def State.waitsFor (t u : Tid) : Bool :=
  match s.control t with
  | .idle =>
      match s.frames t with
      | .locking j :: _ => (s.cells j).condMutex = some u
      | _ => false
  | .locking c => (s.cells c.inst).accessMutex = some u
  | .waiting c =>
      .body c.inst ∈ s.frames u || (s.cells c.inst).condMutex = some u
  | .bulkLocking _ | .lookupLocking => s.registryMutex = some u
  | _ => false

/-- The same without the mutexes of the gates. -/
def State.blockedBy (t u : Tid) : Bool :=
  match s.control t with
  | .locking c => (s.cells c.inst).accessMutex = some u
  | .waiting c => .body c.inst ∈ s.frames u
  | .bulkLocking _ | .lookupLocking => s.registryMutex = some u
  | _ => false

theorem waitsFor_of_blockedBy {t u : Tid} (h : s.blockedBy t u = true) :
    s.waitsFor t u = true := by
  unfold State.blockedBy at h
  unfold State.waitsFor
  split at h <;> simp_all

def State.DeadlockFree : Prop :=
  ∀ T, ¬ Deadlocked (s.waitsFor · ·) T

end WaitsFor

section Waits

variable [DecidableEq Tid] [DecidableEq Inst] {registry : List Inst}
  {s s' : State Tid Inst} {i t u : Tid} {a : Act Inst} {inner : Inst → Inner}
  {j : Inst} {T : Set Tid}

theorem FrameTransition.frames_ne (h : FrameTransition s i s') (hne : t ≠ i) :
    s'.frames t = s.frames t := by
  cases h <;> simp [State.frames_setFrames_ne _ _ hne]

theorem Transition.frames_ne (h : Transition registry s i a s') (hne : t ≠ i) :
    s'.frames t = s.frames t := by
  cases h with
  | frame here step => exact step.frames_ne hne
  | _ => simp

theorem Transition.cases_of_idle (h : Transition registry s i a s')
    (hidle : s.control i = .idle) :
    s.inUserCode i = true ∨ FrameTransition s i s' := by
  cases h with
  | start here outside there => exact .inl outside
  | frame here step => exact .inr step
  | pass here unused available => simp [hidle] at here
  | lockRegistry free path => simp [hidle] at path
  | unlockRegistry here => simp [hidle] at here
  | lock here _ | refuse here _ | prepare here _ | writeFail _ here _
  | write _ here _ | wait here _ | setFlag here | unlock here | skip here _
  | visit here _ | finish here => simp [hidle] at here

theorem Transition.frame_or_not (h : Transition registry s i a s') :
    (s.control i = .idle ∧ FrameTransition s i s') ∨
      (s'.frames = s.frames ∧
        ∀ j, (s'.cells j).condMutex = (s.cells j).condMutex) := by
  cases h with
  | frame here step => exact .inl ⟨here, step⟩
  | _ => exact .inr ⟨by simp, by simp⟩

/-! ## The mutexes of the gates -/

def Frame.holdsGate : Frame Inst → Option Inst
  | .notifying j | .unlocking j => some j
  | _ => none

def State.holdsGate (s : State Tid Inst) (t : Tid) : Option Inst :=
  (s.frames t).head?.bind Frame.holdsGate

def GateMutexesHeld (s : State Tid Inst) : Prop :=
  ∀ j t, (s.cells j).condMutex = some t →
    s.control t = .idle ∧ s.holdsGate t = some j

omit [DecidableEq Tid] [DecidableEq Inst] in
theorem holdsGate_of_inUserCode (h : s.inUserCode t = true) :
    s.holdsGate t = none := by
  unfold State.inUserCode at h
  unfold State.holdsGate
  cases hhead : (s.frames t).head? with
  | none => rfl
  | some f => cases f <;> simp_all [Frame.isBody, Frame.holdsGate]

theorem FrameTransition.condMutex_of_ne (h : FrameTransition s i s')
    (hne : t ≠ i) (hholds : (s'.cells j).condMutex = some t) :
    (s.cells j).condMutex = some t := by
  cases h with
  | @lockGate k rest top available =>
      by_cases hj : j = k
      · subst hj
        simp [Ne.symm hne] at hholds
      · simpa [State.condMutex_setCondMutex_ne _ hj] using hholds
  | @unlockGate k rest top =>
      by_cases hj : j = k
      · subst hj
        simp at hholds
      · simpa [State.condMutex_setCondMutex_ne _ hj] using hholds
  | _ => simpa using hholds

theorem FrameTransition.holdsGate_self (h : FrameTransition s i s')
    (hgates : GateMutexesHeld s) (hholds : (s'.cells j).condMutex = some i) :
    s'.holdsGate i = some j := by
  have hold := fun h => (hgates j i h).2
  unfold State.holdsGate
  cases h with
  | @lockGate k rest top available =>
      by_cases hj : j = k
      · subst hj
        simp [Frame.holdsGate]
      · simp only [State.setFrames_cells,
          State.condMutex_setCondMutex_ne _ hj] at hholds
        simpa [State.holdsGate, top, Frame.holdsGate] using hold hholds
  | notify top =>
      simpa [State.holdsGate, top, Frame.holdsGate] using hold hholds
  | @unlockGate k rest top =>
      by_cases hj : j = k
      · subst hj
        simp at hholds
      · simp only [State.setFrames_cells,
          State.condMutex_setCondMutex_ne _ hj] at hholds
        have hk := hold hholds
        simp [State.holdsGate, top, Frame.holdsGate, Ne.symm hj] at hk
  | call outside patched =>
      have hnone := hold hholds
      rw [holdsGate_of_inUserCode outside] at hnone
      cases hnone
  | enter top | leave top _ | ret top =>
      have hnone := hold (by simpa using hholds)
      simp [State.holdsGate, top, Frame.holdsGate] at hnone

theorem GateMutexesHeld.transition (h : GateMutexesHeld s)
    (hstep : Transition registry s i a s') : GateMutexesHeld s' := by
  intro j t hholds
  rcases hstep.frame_or_not with ⟨here, step⟩ | ⟨hframes, hcond⟩
  · rw [step.control_eq]
    by_cases ht : t = i
    · subst ht
      exact ⟨here, step.holdsGate_self h hholds⟩
    · unfold State.holdsGate
      rw [step.frames_ne ht]
      exact h j t (step.condMutex_of_ne ht hholds)
  · rw [hcond] at hholds
    obtain ⟨hidle, hgate⟩ := h j t hholds
    have hgate' : s'.holdsGate t = some j := by
      unfold State.holdsGate
      rw [hframes]
      exact hgate
    by_cases ht : t = i
    · subst ht
      rcases hstep.cases_of_idle hidle with houtside | step
      · rw [holdsGate_of_inUserCode houtside] at hgate
        cases hgate
      · exact ⟨by rw [step.control_eq, hidle], hgate'⟩
    · exact ⟨by rw [hstep.control_ne ht, hidle], hgate'⟩

theorem reachable_gateMutexesHeld
    (h : (registrySystem registry inner).Reachable s) : GateMutexesHeld s := by
  apply ReachableUnder.invariant _ _ h
  · rintro s ⟨m, rfl⟩ j t hholds
    cases hholds
  · intro s e s' hgates hstep _
    exact hgates.transition (next_transition hstep)

omit [DecidableEq Tid] [DecidableEq Inst] in
theorem frames_of_holdsGate (h : s.holdsGate t = some j) :
    ∃ rest, s.frames t = .notifying j :: rest ∨
      s.frames t = .unlocking j :: rest := by
  unfold State.holdsGate at h
  cases hframes : s.frames t with
  | nil => simp [hframes] at h
  | cons f rest =>
      rw [hframes] at h
      cases f <;> simp_all [Frame.holdsGate]

theorem GateMutexesHeld.not_waitsFor (h : GateMutexesHeld s)
    (hholds : (s.cells j).condMutex = some u) (v : Tid) :
    s.waitsFor u v = false := by
  obtain ⟨hidle, hgate⟩ := h j u hholds
  obtain ⟨rest, hframes | hframes⟩ := frames_of_holdsGate hgate <;>
    simp [State.waitsFor, hidle, hframes]

theorem blockedBy_or_gate (h : s.waitsFor t u = true) :
    s.blockedBy t u = true ∨ ∃ j, (s.cells j).condMutex = some u := by
  unfold State.waitsFor at h
  unfold State.blockedBy
  cases hcontrol : s.control t with
  | idle =>
      rw [hcontrol] at h
      cases hframes : s.frames t with
      | nil => simp [hframes] at h
      | cons f rest =>
          cases f <;> simp [hframes] at h
          exact .inr ⟨_, h⟩
  | waiting c =>
      simp only [hcontrol, Bool.or_eq_true, decide_eq_true_eq] at h
      rcases h with hbody | hmutex
      · exact .inl (by simpa using hbody)
      · exact .inr ⟨c.inst, hmutex⟩
  | locking c | bulkLocking op | lookupLocking =>
      exact .inl (by simpa [hcontrol] using h)
  | _ => simp [hcontrol] at h

/-- The mutexes of the gates make no deadlock. -/
theorem deadlocked_iff_blockedBy (h : GateMutexesHeld s) :
    Deadlocked (s.waitsFor · ·) T ↔ Deadlocked (s.blockedBy · ·) T := by
  constructor
  · intro hT
    apply hT.restrict
    rintro t - u htu ⟨v, huv⟩
    rcases blockedBy_or_gate htu with hblocked | ⟨j, hholds⟩
    · exact hblocked
    · rw [h.not_waitsFor hholds] at huv
      cases huv
  · intro hT
    exact hT.mono fun t _ u _ htu => waitsFor_of_blockedBy s htu

/-! ## Gates in every deadlock -/

def WaitsAtGate (s : State Tid Inst) (T : Set Tid) : Prop :=
  ∃ t ∈ T, ∃ c, s.control t = .waiting c ∧
    ∃ u ∈ T, .body c.inst ∈ s.frames u

theorem waiting_of_access (hblocked : s.blockedBy t u = true)
    (haccess : (s.control t).access = some j) :
    ∃ c, s.control t = .waiting c ∧ c.inst = j ∧ .body c.inst ∈ s.frames u := by
  cases here : s.control t with
  | waiting c =>
      rw [here] at haccess
      cases haccess
      exact ⟨c, rfl, rfl, by simpa [State.blockedBy, here] using hblocked⟩
  | _ => simp_all [State.blockedBy, Control.access]

theorem waitsAtGate_of_access (hT : Deadlocked (s.blockedBy · ·) T) (ht : t ∈ T)
    (haccess : (s.control t).access = some j) :
    WaitsAtGate s T := by
  obtain ⟨u, hu, htu⟩ := hT.2 t ht
  obtain ⟨c, hc, -, hbody⟩ := waiting_of_access htu haccess
  exact ⟨t, ht, c, hc, u, hu, hbody⟩

theorem waitsAtGate_of_locking (hheld : MutexesHeld s)
    (hT : Deadlocked (s.blockedBy · ·) T) (ht : t ∈ T) {c : OpCall Inst}
    (here : s.control t = .locking c) : WaitsAtGate s T := by
  obtain ⟨u, hu, htu⟩ := hT.2 t ht
  have hmutex : (s.cells c.inst).accessMutex = some u := by
    simpa [State.blockedBy, here] using htu
  exact waitsAtGate_of_access hT hu ((hheld.access _ _).mp hmutex)

theorem waitsAtGate_of_registry (hheld : MutexesHeld s)
    (hT : Deadlocked (s.blockedBy · ·) T) (ht : t ∈ T)
    (hholds : (s.control t).holdsRegistry = true) : WaitsAtGate s T := by
  obtain ⟨u, hu, htu⟩ := hT.2 t ht
  cases here : s.control t with
  | locking c => exact waitsAtGate_of_locking hheld hT ht here
  | waiting c =>
      have haccess : (s.control t).access = some c.inst := by
        rw [here]
        rfl
      exact waitsAtGate_of_access hT ht haccess
  | _ => simp_all [State.blockedBy, Control.holdsRegistry]

/-- Whatever blocks threads for good, a gate is part of it. -/
theorem waitsAtGate_of_deadlocked (hheld : MutexesHeld s)
    (hT : Deadlocked (s.blockedBy · ·) T) : WaitsAtGate s T := by
  obtain ⟨t, ht⟩ := hT.1
  obtain ⟨u, hu, htu⟩ := hT.2 t ht
  have hregistry : s.registryMutex = some u → WaitsAtGate s T := fun hmutex =>
    waitsAtGate_of_registry hheld hT hu ((hheld.registry u).mp hmutex)
  cases here : s.control t with
  | locking c => exact waitsAtGate_of_locking hheld hT ht here
  | waiting c =>
      have hbody : .body c.inst ∈ s.frames u := by
        simpa [State.blockedBy, here] using htu
      exact ⟨t, ht, c, here, u, hu, hbody⟩
  | bulkLocking op => exact hregistry (by simpa [State.blockedBy, here] using htu)
  | lookupLocking => exact hregistry (by simpa [State.blockedBy, here] using htu)
  | _ => simp [State.blockedBy, here] at htu

/-! ## Deadlocks last -/

section Forever

variable [Fintype Tid]

def State.activeCalls (s : State Tid Inst) (j : Inst) : Nat :=
  ∑ t, (s.frames t).count (.body j)

def CallsCounted (s : State Tid Inst) : Prop :=
  ∀ j, (s.cells j).numActiveCalls = s.activeCalls j

omit [DecidableEq Tid] in
theorem activeCalls_congr (h : s'.frames = s.frames) (j : Inst) :
    s'.activeCalls j = s.activeCalls j := by
  simp [State.activeCalls, h]

theorem activeCalls_setFrames (s : State Tid Inst) (i : Tid)
    (fs : List (Frame Inst)) (j : Inst) :
    (s.setFrames i fs).activeCalls j + (s.frames i).count (.body j) =
      s.activeCalls j + fs.count (.body j) := by
  unfold State.activeCalls
  rw [← Finset.add_sum_erase _ _ (Finset.mem_univ i),
    ← Finset.add_sum_erase _ (fun t => (s.frames t).count (Frame.body j))
      (Finset.mem_univ i)]
  have hothers : ∑ t ∈ Finset.univ.erase i,
      ((s.setFrames i fs).frames t).count (Frame.body j) =
        ∑ t ∈ Finset.univ.erase i, (s.frames t).count (Frame.body j) := by
    apply Finset.sum_congr rfl
    intro t ht
    rw [s.frames_setFrames_ne i (Finset.ne_of_mem_erase ht)]
  rw [hothers, s.frames_setFrames_self]
  omega

omit [DecidableEq Tid] in
theorem CallsCounted.ne_zero (h : CallsCounted s)
    (hbody : .body j ∈ s.frames u) : (s.cells j).numActiveCalls ≠ 0 := by
  rw [h j]
  have hpos := List.count_pos_iff.mpr hbody
  have hle := Finset.single_le_sum (f := fun t => (s.frames t).count (.body j))
    (fun t _ => Nat.zero_le _) (Finset.mem_univ u)
  unfold State.activeCalls
  omega

theorem CallsCounted.setActive (hcounted : CallsCounted s) {n : Nat}
    {fs : List (Frame Inst)}
    (hactive : n + (s.frames i).count (.body j) =
      (s.cells j).numActiveCalls + fs.count (.body j))
    (hothers : ∀ k, k ≠ j →
      fs.count (.body k) = (s.frames i).count (.body k)) :
    CallsCounted ((s.setActive j n).setFrames i fs) := by
  intro k
  have hold := hcounted k
  have hframes := activeCalls_setFrames (s.setActive j n) i fs k
  rw [activeCalls_congr (s.frames_setActive j n), State.frames_setActive]
    at hframes
  rw [State.setFrames_cells]
  by_cases hk : k = j
  · subst hk
    rw [State.numActiveCalls_setActive_self]
    omega
  · rw [State.numActiveCalls_setActive_ne s hk]
    have hsame := hothers k hk
    omega

theorem CallsCounted.setFrames (hcounted : CallsCounted s)
    {fs : List (Frame Inst)} (hcells : ∀ k, (s'.cells k).numActiveCalls =
      (s.cells k).numActiveCalls) (hframes : s'.frames = s.frames)
    (hsame : ∀ k, fs.count (.body k) = (s.frames i).count (.body k)) :
    CallsCounted (s'.setFrames i fs) := by
  intro k
  have hcount := activeCalls_setFrames s' i fs k
  rw [activeCalls_congr hframes, hframes, hsame k] at hcount
  rw [State.setFrames_cells, hcells k, hcounted k]
  omega

theorem CallsCounted.frameTransition (hcounted : CallsCounted s)
    (h : FrameTransition s i s') : CallsCounted s' := by
  cases h with
  | call outside patched =>
      exact hcounted.setFrames (fun _ => rfl) rfl (by simp)
  | @enter j rest top =>
      apply hcounted.setActive
      · simp [top]
        omega
      · intro k hk
        simp [top, Ne.symm hk]
  | @leave j f rest top out =>
      have hne := hcounted.ne_zero (j := j) (u := i) (by simp [top])
      apply hcounted.setActive
      · rcases out with rfl | rfl <;>
        · simp [top]
          omega
      · intro k hk
        rcases out with rfl | rfl <;> simp [top, Ne.symm hk]
  | lockGate top available =>
      exact hcounted.setFrames (by simp) (by simp) (by simp [top])
  | notify top => exact hcounted.setFrames (fun _ => rfl) rfl (by simp [top])
  | unlockGate top =>
      exact hcounted.setFrames (by simp) (by simp) (by simp [top])
  | ret top => exact hcounted.setFrames (fun _ => rfl) rfl (by simp [top])

theorem CallsCounted.transition (hcounted : CallsCounted s)
    (h : Transition registry s i a s') : CallsCounted s' := by
  cases h with
  | frame here step => exact hcounted.frameTransition step
  | _ => simpa [CallsCounted, State.activeCalls] using hcounted

theorem reachable_callsCounted (h : (registrySystem registry inner).Reachable s) :
    CallsCounted s := by
  apply ReachableUnder.invariant _ _ h
  · rintro s ⟨m, rfl⟩ j
    simp [start, State.activeCalls, State.frames]
  · intro s e s' hcounted hstep _
    exact hcounted.transition (next_transition hstep)

theorem not_blockedBy_of_transition (hcounted : CallsCounted s)
    (h : Transition registry s i a s') : s.blockedBy i u = false := by
  cases h with
  | lock here available => simp [State.blockedBy, here, available]
  | @pass c here unused available =>
      rcases here with here | here
      · simp [State.blockedBy, here]
      · simp only [State.blockedBy, here, decide_eq_false_iff_not]
        intro hbody
        exact hcounted.ne_zero hbody unused
  | lockRegistry free path =>
      rcases path with ⟨_, here, -⟩ | ⟨here, -⟩ <;>
        simp [State.blockedBy, here, free]
  | unlockRegistry here =>
      rcases here with ⟨_, _, here⟩ | here <;> simp [State.blockedBy, here]
  | start here _ _ | refuse here _ | prepare here _ | writeFail _ here _
  | write _ here _ | wait here _ | setFlag here | unlock here | skip here _
  | visit here _ | finish here | frame here _ =>
      simp [State.blockedBy, here]

theorem deadlocked_next (hheld : MutexesHeld s) (hcounted : CallsCounted s)
    (hT : Deadlocked (s.blockedBy · ·) T)
    (h : next registry s (i, a) = some s') :
    i ∉ T ∧ Deadlocked (s'.blockedBy · ·) T := by
  have htrans := next_transition h
  have hheld' := hheld.transition htrans
  have hi : i ∉ T := by
    apply hT.not_mem
    intro u hiu
    rw [not_blockedBy_of_transition hcounted htrans] at hiu
    cases hiu
  refine ⟨hi, hT.mono fun t ht u hu htu => ?_⟩
  have hti := ne_of_mem_of_not_mem ht hi
  have hui := ne_of_mem_of_not_mem hu hi
  simp only [State.blockedBy, htrans.control_ne hti, hheld'.access,
    hheld'.registry, htrans.control_ne hui, htrans.frames_ne hui]
  simpa only [State.blockedBy, hheld.access, hheld.registry] using htu

/-- Whatever happens afterwards, threads that block each other stay where they
are. -/
theorem deadlocked_forever (h : (registrySystem registry inner).Reachable s)
    (hT : Deadlocked (s.waitsFor · ·) T) (ht : t ∈ T)
    {steps : List (Tid × Act Inst)}
    (hrun : replay (next registry) s steps = some s') :
    s'.control t = s.control t ∧ s'.frames t = s.frames t ∧
      Deadlocked (s'.waitsFor · ·) T := by
  induction steps generalizing s with
  | nil =>
      cases hrun
      exact ⟨rfl, rfl, hT⟩
  | cons e rest ih =>
      obtain ⟨s₁, hs₁, hrest⟩ := Option.bind_eq_some_iff.mp hrun
      have htrans := next_transition hs₁
      have hgates := reachable_gateMutexesHeld h
      rw [deadlocked_iff_blockedBy hgates] at hT
      obtain ⟨hi, hT₁⟩ := deadlocked_next (reachable_mutexesHeld h)
        (reachable_callsCounted h) hT hs₁
      have hne := ne_of_mem_of_not_mem ht hi
      have hlater := ih (.step h hs₁ trivial)
        ((deadlocked_iff_blockedBy (hgates.transition htrans)).mpr hT₁) hrest
      rw [htrans.control_ne hne, htrans.frames_ne hne] at hlater
      exact hlater

end Forever

end Waits

end Registry

end Ztour
