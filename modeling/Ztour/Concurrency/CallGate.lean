import Ztour.Concurrency.OrphanedPatch

/-!
# The call gate

The gate counts the calls between the two steps on its counter, and no others.
As long as `uninstall` never finds it at zero while a call is at a place that
is not counted, an `Inner` is replaced only after all its calls have left.
-/

namespace Ztour

open Ztour.Foundation

namespace Concurrency

variable {Tid : Type}

/-! ## The places of a call -/

namespace Frame

def gates : Frame → List Nat
  | .trampoline | .outerFunc | .returning => []
  | .entering j | .body j => [j]
  | .exiting g j | .locking g j | .notifying g j | .unlocking g j => [g, j]

/-- The call has entered its gate and not begun to leave it. -/
def counted : Frame → Bool
  | .body _ | .exiting _ _ => true
  | .trampoline | .outerFunc | .entering _ | .locking _ _ | .notifying _ _
  | .unlocking _ _ | .returning => false

/-- The call has entered its gate and not finished `on_exit_call`. -/
def guarded : Frame → Bool
  | .body _ | .exiting _ _ | .locking _ _ | .notifying _ _
  | .unlocking _ _ => true
  | .trampoline | .outerFunc | .entering _ | .returning => false

def left (late : Bool) : Frame → Bool
  | .returning => late
  | .trampoline | .outerFunc | .entering _ | .body _ | .exiting _ _
  | .locking _ _ | .notifying _ _ | .unlocking _ _ => false

variable {late : Bool} {f : Frame}

theorem eq_returning_of_left (h : f.left late = true) : f = .returning := by
  cases f with
  | returning => rfl
  | trampoline | outerFunc | entering j | body g | exiting g j | locking g j
  | notifying g j | unlocking g j => cases h

end Frame

def Control.drained : Control → Bool
  | .flagging .uninstall _ | .unlocking .uninstall _ true => true
  | .flagging .install _ | .unlocking .install _ _ | .unlocking _ _ false
  | .idle | .locking _ _ | .testing _ _ | .writing _ _ _ | .gateTest _
  | .waitLock _ | .waitCheck _ | .asleep _ | .changeTest _
  | .changeConstruct _ | .changeReplace _ => false

namespace State

def Vacated (late : Bool) (s : State Tid) : Prop :=
  ∀ i, ∀ f ∈ s.frames i, f.left late = true

instance [Fintype Tid] (late : Bool) (s : State Tid) :
    Decidable (s.Vacated late) :=
  inferInstanceAs (Decidable (∀ i, ∀ f ∈ s.frames i, f.left late = true))

def openCalls [Fintype Tid] (s : State Tid) : Int :=
  ∑ i, ((s.frames i).countP Frame.counted : Int)

section OpenCalls

variable [Fintype Tid] {s s' : State Tid}

theorem openCalls_nonneg (s : State Tid) : 0 ≤ s.openCalls :=
  Finset.sum_nonneg fun _ _ => Int.natCast_nonneg _

theorem openCalls_congr (h : ∀ i, s'.frames i = s.frames i) :
    s'.openCalls = s.openCalls := by
  simp [openCalls, h]

theorem openCalls_of_vacated {late : Bool} (h : s.Vacated late) :
    s.openCalls = 0 := by
  refine Finset.sum_eq_zero fun i _ => ?_
  rw [Int.natCast_eq_zero, List.countP_eq_zero]
  intro f hf
  rw [Frame.eq_returning_of_left (h i f hf)]
  simp [Frame.counted]

theorem openCalls_setFrames [DecidableEq Tid] (s : State Tid) (i : Tid)
    (fs : List Frame) :
    (s.setFrames i fs).openCalls = s.openCalls -
      ((s.frames i).countP Frame.counted : Int) +
      (fs.countP Frame.counted : Int) := by
  have hupdate : (fun t => (((s.setFrames i fs).frames t).countP
      Frame.counted : Int)) = Function.update
        (fun t => ((s.frames t).countP Frame.counted : Int)) i
        (fs.countP Frame.counted : Int) := by
    funext t
    by_cases ht : t = i
    · subst ht
      simp
    · simp [frames_setFrames_ne s i ht, ht]
  have htotal := Finset.add_sum_erase Finset.univ
    (fun t => ((s.frames t).countP Frame.counted : Int)) (Finset.mem_univ i)
  unfold openCalls
  rw [hupdate, Finset.sum_update_of_mem (Finset.mem_univ i),
    Finset.sdiff_singleton_eq_erase]
  omega

end OpenCalls

/-! ## The counter -/

theorem frames_setFrames_cases [DecidableEq Tid] {s : State Tid} {i t : Tid}
    {fs : List Frame} {f : Frame} (hf : f ∈ (s.setFrames i fs).frames t) :
    f ∈ fs ∨ f ∈ s.frames t := by
  by_cases ht : t = i
  · subst ht
    rw [frames_setFrames] at hf
    exact .inl hf
  · rw [frames_setFrames_ne s i ht] at hf
    exact .inr hf

/-- The scope guards use the current gate, which counts the open calls. -/
structure Counted [Fintype Tid] (s : State Tid) : Prop where
  gates : ∀ i, ∀ f ∈ s.frames i, ∀ j ∈ f.gates, j = s.cur
  count : (s.cells s.cur).numActiveCalls = s.openCalls
  nonneg : ∀ j, 0 ≤ (s.cells j).numActiveCalls

section Counted

variable [Fintype Tid] {s s' : State Tid} {i : Tid}

theorem Counted.congr (h : s.Counted) (hcur : s'.cur = s.cur)
    (hframes : ∀ t, s'.frames t = s.frames t)
    (hcount : ∀ j, (s'.cells j).numActiveCalls = (s.cells j).numActiveCalls) :
    s'.Counted := by
  constructor
  · intro t f hf j hj
    rw [hframes] at hf
    exact (h.gates t f hf j hj).trans hcur.symm
  · rw [hcur, hcount, openCalls_congr hframes]
    exact h.count
  · intro j
    rw [hcount]
    exact h.nonneg j

theorem Counted.framed [DecidableEq Tid] (h : s.Counted) {fs : List Frame}
    {d : Int} (hcur : s'.cur = s.cur) (hframes : ∀ t, s'.frames t = s.frames t)
    (hcount : ∀ j, (s'.cells j).numActiveCalls =
      (s.cells j).numActiveCalls + if j = s.cur then d else 0)
    (hd : (fs.countP Frame.counted : Int) =
      (s.frames i).countP Frame.counted + d)
    (hgates : ∀ f ∈ fs, ∀ j ∈ f.gates, j = s.cur) :
    (s'.setFrames i fs).Counted := by
  have hopen := openCalls_setFrames s' i fs
  rw [openCalls_congr hframes, hframes] at hopen
  have htotal : (s'.cells s'.cur).numActiveCalls =
      (s'.setFrames i fs).openCalls := by
    rw [hcur, hcount, if_pos rfl, h.count]
    omega
  refine ⟨?_, htotal, ?_⟩
  · intro t f hf j hj
    refine Eq.trans ?_ hcur.symm
    rcases frames_setFrames_cases hf with hnew | hold
    · exact hgates f hnew j hj
    · rw [hframes] at hold
      exact h.gates t f hold j hj
  · intro j
    by_cases hj : j = s.cur
    · subst hj
      rw [← hcur]
      exact htotal ▸ openCalls_nonneg _
    · change 0 ≤ (s'.cells j).numActiveCalls
      rw [hcount, if_neg hj]
      have := h.nonneg j
      omega

end Counted

end State

namespace FrameMove

variable {s : State Tid} {fs fs' : List Frame}

theorem countP (move : FrameMove s fs fs') :
    fs'.countP Frame.counted = fs.countP Frame.counted := by
  cases move with
  | call fs patched =>
      rw [List.countP_cons]
      rfl
  | «return» fs =>
      rw [List.countP_cons]
      rfl
  | enterFunc fs | readGate fs | leave g fs | lock g j fs | notify g j fs
  | unlock g j fs =>
      rw [List.countP_cons, List.countP_cons]
      rfl

theorem gates (move : FrameMove s fs fs')
    (h : ∀ f ∈ fs, ∀ j ∈ f.gates, j = s.cur) :
    ∀ f ∈ fs', ∀ j ∈ f.gates, j = s.cur := by
  cases move with
  | call fs patched =>
      rw [List.forall_mem_cons]
      exact ⟨by simp [Frame.gates], h⟩
  | «return» fs => exact (List.forall_mem_cons.mp h).2
  | enterFunc fs | unlock g j fs | readGate fs =>
      rw [List.forall_mem_cons] at h ⊢
      exact ⟨by simp [Frame.gates], h.2⟩
  | leave g fs =>
      rw [List.forall_mem_cons] at h ⊢
      exact ⟨by simpa [Frame.gates] using h.1, h.2⟩
  | lock g j fs | notify g j fs =>
      rw [List.forall_mem_cons] at h ⊢
      exact h

theorem left {late : Bool} (move : FrameMove s fs fs')
    (h : ∀ f ∈ fs, f.left late = true) :
    s.entryPatched = true ∨ ∀ f ∈ fs', f.left late = true := by
  cases move with
  | call fs patched => exact .inl patched
  | «return» fs => exact .inr (List.forall_mem_cons.mp h).2
  | enterFunc fs | readGate fs | leave g fs | lock g j fs | notify g j fs
  | unlock g j fs => cases (List.forall_mem_cons.mp h).1

end FrameMove

namespace State

section Step

variable [Fintype Tid] {z : Zydis} {a : Act} {s s' : State Tid} {i : Tid}

theorem Counted.replaced (h : s.Counted) (m : Mem) (newInner : Inner)
    (hvacated : s.Vacated true) : (s.replaceInner m newInner).Counted := by
  constructor
  · intro t f hf j hj
    rw [Frame.eq_returning_of_left (hvacated t f hf)] at hj
    cases hj
  · have hopen : (s.replaceInner m newInner).openCalls = 0 :=
      openCalls_of_vacated hvacated
    rw [hopen]
    simp [replaceInner]
  · intro j
    by_cases hj : j = s.cur + 1
    · simp [replaceInner, hj]
    · simpa [replaceInner, hj] using h.nonneg j

variable [DecidableEq Tid]

theorem Counted.step (h : s.Counted) (hstep : Step z s i a s')
    (hreplace : ∀ newInner, s.control i = .changeReplace newInner →
      s.Vacated true) : s'.Counted := by
  cases hstep with
  | moved a j owner c move =>
      exact h.congr rfl (frames_setControl _ i c)
        (numActiveCalls_setCondMutex s j owner)
  | locked os op j place free =>
      exact h.congr rfl (frames_setControl _ i _)
        (numActiveCalls_setAccessMutex s j (some i))
  | cut os op j bytes place short | wrote os op j bytes place whole =>
      exact h.congr rfl (frames_setControl _ i _) fun _ => rfl
  | flagged os op j place =>
      exact h.congr rfl (frames_setControl _ i _)
        (numActiveCalls_setInstalled s j op.flag)
  | unlocked os op j returns place =>
      exact h.congr rfl (frames_setControl _ i _)
        (numActiveCalls_setAccessMutex s j none)
  | dropped os p e process place built
  | constructed os p newInner process place built =>
      exact h.congr rfl (frames_setControl _ i _) fun _ => rfl
  | replaced os newInner m place destroyed =>
      exact (h.replaced m newInner (hreplace newInner place)).congr rfl
        (frames_setControl _ i _) fun _ => rfl
  | framed a j owner fs move =>
      refine h.framed (d := 0) rfl (fun _ => rfl) ?_ ?_
        (move.gates (h.gates i))
      · intro k
        rw [numActiveCalls_setCondMutex, ite_self, add_zero]
      · rw [move.countP, add_zero]
  | entered a j rest place =>
      have hgates := h.gates i
      rw [place, List.forall_mem_cons] at hgates
      have hcell : j = s.cur := hgates.1 j (List.mem_singleton_self j)
      subst hcell
      refine h.framed (d := 1) rfl (fun _ => rfl)
        (numActiveCalls_addActive s s.cur 1) ?_ ?_
      · rw [place, List.countP_cons, List.countP_cons]
        simp [Frame.counted]
      · rw [List.forall_mem_cons]
        exact hgates
  | exited a g j rest f place left =>
      have hgates := h.gates i
      rw [place, List.forall_mem_cons] at hgates
      have hcell : j = s.cur := hgates.1 j (by simp [Frame.gates])
      subst hcell
      refine h.framed (d := -1) rfl (fun _ => rfl)
        (numActiveCalls_addActive s s.cur (-1)) ?_ ?_
      · rw [place, List.countP_cons, List.countP_cons]
        rcases left with rfl | rfl <;> simp [Frame.counted]
      · rw [List.forall_mem_cons]
        refine ⟨?_, hgates.2⟩
        rcases left with rfl | rfl
        · exact hgates.1
        · simp [Frame.gates]

end Step

/-! ## The patched entry -/

section Entry

variable {s s' : State Tid} {i : Tid}

theorem entryPatched_iff : s.entryPatched = true ↔
    s.inner.targetFunc ≠ 0 ∧ s.process.mem.Holds s.inner.targetFunc
      (relJumpBytes s.inner.targetFunc s.inner.codeEnterDetour) := by
  unfold entryPatched
  rw [Bool.and_eq_true, decide_eq_true_eq, decide_eq_true_eq,
    Memory.read_eq_some_iff]
  simp

theorem entryPatched_of_kept (hinner : s'.inner = s.inner)
    (hmem : ∀ x, s.process.mem x ≠ none → s'.process.mem x = s.process.mem x)
    (h : s.entryPatched = true) : s'.entryPatched = true := by
  rw [entryPatched_iff] at h ⊢
  rw [hinner]
  exact ⟨h.1, h.2.of_mapped hmem⟩

theorem Restored.not_entryPatched (h : s.Restored)
    (hwf : s.inner.WellFormed) (hhead : s.inner.HeadNotJmp) :
    s.entryPatched = false := by
  by_contra hentry
  rw [Bool.not_eq_false, entryPatched_iff] at hentry
  obtain ⟨htarget, hjump⟩ := hentry
  have hlen := hwf.length_ge htarget
  unfold Restored at h
  unfold Inner.HeadNotJmp at hhead
  cases hbytes : s.inner.patchedOriginalBytes with
  | nil => simp [hbytes] at hlen
  | cons byte bytes =>
      rw [hbytes] at h hhead
      have hbyte := (Memory.holds_cons.mp h).1
      rw [(Memory.holds_cons.mp hjump).1] at hbyte
      exact hhead hbyte.symm

theorem entryPatched_afterStore (os : Os) {bytes : List Byte}
    (hwf : s.inner.WellFormed) (hprep : s.inner.prepareInstall = .ok bytes)
    (h : s.entryPatched = true) :
    (afterStore s os s.cur bytes).entryPatched = true := by
  rw [entryPatched_iff] at h ⊢
  obtain ⟨-, -, hlen, -, rfl⟩ := Inner.prepareInstall_eq_ok hprep
  have hlt := hwf.length_lt
  refine ⟨h.1, h.2.write_take ?_ _⟩
  rw [length_relJumpBytes, List.length_replicate]
  omega

theorem Place.restored_of_drained {c : Control} (h : s.Place i c)
    (hc : c.drained = true) : s.Restored := by
  cases c with
  | idle | locking op j | testing op j | writing op j bytes | gateTest j
  | waitLock j | waitCheck j | asleep j | changeTest p | changeConstruct p
  | changeReplace newInner => cases hc
  | flagging op j =>
      cases op with
      | install => cases hc
      | uninstall => exact h.2.2
  | unlocking op j returns =>
      cases op with
      | install => cases returns <;> cases hc
      | uninstall =>
          cases returns with
          | false => cases hc
          | true => exact h.2.2

theorem vacated_setFrames [DecidableEq Tid] {late : Bool} {fs : List Frame}
    (h : s.Vacated late) (hentry : s.entryPatched = false)
    (move : FrameMove s (s.frames i) fs)
    (hframes : ∀ t, s'.frames t = s.frames t) :
    (s'.setFrames i fs).Vacated late := by
  intro t f hf
  rcases frames_setFrames_cases hf with hnew | hold
  · rcases move.left (h i) with hpatched | hleft
    · rw [hentry] at hpatched
      cases hpatched
    · exact hleft f hnew
  · rw [hframes] at hold
    exact h t f hold

end Entry

end State

/-! ## The invariant -/

/-- Where `uninstall` finds the counter at zero, every call of the hooked
function is at a place that is counted, or has left. -/
def gateClear [Fintype Tid] (late : Bool) (s : State Tid) (e : Tid × Act) :
    Bool :=
  match s.control e.1 with
  | .gateTest j | .waitCheck j =>
      (s.cells j).numActiveCalls ≠ 0 ||
        decide (∀ i, ∀ f ∈ s.frames i, f.counted = true ∨ f.left late = true)
  | _ => true

/-- `_inner` is replaced while no call of `install` or `uninstall` is at work
and the hook is neither installed nor its entry patched. -/
def replacesUnhooked [Fintype Tid] [DecidableEq Tid] (s : State Tid)
    (e : Tid × Act) : Bool :=
  match s.control e.1 with
  | .changeReplace _ =>
      !s.inner.isInstalled && !s.entryPatched && decide s.NoCalls
  | _ => true

def gateGuards [Fintype Tid] [DecidableEq Tid] (late : Bool) (s : State Tid)
    (e : Tid × Act) : Bool :=
  gateClear late s e && replacesUnhooked s e

structure Gated [Fintype Tid] (late : Bool) (s : State Tid) : Prop where
  controlled : s.Controlled
  made : State.Made Inner.HeadNotJmp s
  live : s.aborted = false
  counted : s.Counted
  quiet : s.inner.isInstalled = false → s.entryPatched = false →
    s.Vacated late
  drained : ∀ i, (s.control i).drained = true → s.Vacated late

section Gated

variable [Fintype Tid] {z : Zydis} {late : Bool} {a : Act} {s s' : State Tid}
  {i : Tid}

theorem Gated.passed (h : Gated late s) {j : Nat}
    (hclear : gateClear late s (i, a) = true)
    (hplace : s.control i = .gateTest j ∨ s.control i = .waitCheck j)
    (hzero : (s.cells j).numActiveCalls = 0) : s.Vacated late := by
  have hcell : j = s.cur := by
    rcases hplace with hp | hp
    · exact (h.controlled.place i).cell (by rw [hp]; rfl)
    · exact (h.controlled.place i).cell (by rw [hp]; rfl)
  have hclear' : ∀ t, ∀ f ∈ s.frames t,
      f.counted = true ∨ f.left late = true := by
    unfold gateClear at hclear
    rcases hplace with hp | hp <;> simpa [hp, hzero] using hclear
  have hopen : s.openCalls = 0 := by
    rw [← h.counted.count, ← hcell]
    exact hzero
  intro t f hf
  -- a call that has not left would be counted, and the sum is zero
  refine (hclear' t f hf).resolve_left ?_
  have hnone := (Finset.sum_eq_zero_iff_of_nonneg
    fun _ _ => Int.natCast_nonneg _).mp hopen t (Finset.mem_univ t)
  rw [Int.natCast_eq_zero, List.countP_eq_zero] at hnone
  exact hnone f hf

theorem Gated.quiet_of_kept (h : Gated late s) (s' : State Tid)
    (hinner : s'.inner = s.inner)
    (hmem : ∀ x, s.process.mem x ≠ none → s'.process.mem x = s.process.mem x)
    (hframes : ∀ t, s'.frames t = s.frames t)
    (hflag : s'.inner.isInstalled = false) (hentry : s'.entryPatched = false) :
    s'.Vacated late := by
  intro t f hf
  rw [hframes] at hf
  refine h.quiet (hinner ▸ hflag) ?_ t f hf
  by_contra hs
  rw [Bool.not_eq_false] at hs
  rw [State.entryPatched_of_kept hinner hmem hs] at hentry
  cases hentry

theorem Gated.not_entryPatched (h : Gated late s)
    (hi : (s.control i).drained = true) : s.entryPatched = false :=
  ((h.controlled.place i).restored_of_drained hi).not_entryPatched
    h.controlled.wellFormed h.made.current

variable [DecidableEq Tid]

theorem Gated.drained_setControl (h : Gated late s) (s' : State Tid)
    {c : Control}
    (hcontrol : ∀ t, s'.control t = s.control t)
    (hframes : ∀ t, s'.frames t = s.frames t)
    (hc : c.drained = true → s.Vacated late) :
    ∀ t, ((s'.setControl i c).control t).drained = true →
      (s'.setControl i c).Vacated late := by
  intro t ht
  have hvacated : s.Vacated late := by
    by_cases hti : t = i
    · subst hti
      rw [State.control_setControl] at ht
      exact hc ht
    · rw [State.control_setControl_ne s' i hti, hcontrol] at ht
      exact h.drained t ht
  intro u f hf
  rw [State.frames_setControl, hframes] at hf
  exact hvacated u f hf

theorem Gated.quiet_of_framed (h : Gated late s) {fs : List Frame}
    (hinner : s'.inner = s.inner) (hmem : s'.process.mem = s.process.mem)
    (hleft : s.Vacated late → s.entryPatched = false →
      (s'.setFrames i fs).Vacated late)
    (hflag : (s'.setFrames i fs).inner.isInstalled = false)
    (hentry : (s'.setFrames i fs).entryPatched = false) :
    (s'.setFrames i fs).Vacated late := by
  have hentry' : s.entryPatched = false := by
    by_contra hs
    rw [Bool.not_eq_false] at hs
    have hpatched : s'.entryPatched = true :=
      State.entryPatched_of_kept hinner (fun x _ => by rw [hmem]) hs
    exact Bool.false_ne_true (hentry.symm.trans hpatched)
  have hflag' : s.inner.isInstalled = false := by
    rw [← hinner]
    exact hflag
  exact hleft (h.quiet hflag' hentry') hentry'

theorem Gated.quiet_step (h : Gated late s) (hstep : Step z s i a s')
    (hreplace : ∀ newInner, s.control i = .changeReplace newInner →
      s.inner.isInstalled = false ∧ s.entryPatched = false) :
    s'.inner.isInstalled = false → s'.entryPatched = false →
      s'.Vacated late := by
  have hi := h.controlled.place i
  cases hstep with
  | moved a j owner c move =>
      exact h.quiet_of_kept _ (State.inner_setCondMutex s j owner s.cur)
        (fun _ _ => rfl) (State.frames_setControl _ i c)
  | locked os op j place free =>
      exact h.quiet_of_kept _ (State.inner_setAccessMutex s j (some i) s.cur)
        (fun _ _ => rfl) (State.frames_setControl _ i _)
  | unlocked os op j returns place =>
      exact h.quiet_of_kept _ (State.inner_setAccessMutex s j none s.cur)
        (fun _ _ => rfl) (State.frames_setControl _ i _)
  | cut os op j bytes place short | wrote os op j bytes place whole =>
      rw [place] at hi
      have hcell : j = s.cur := hi.1.cell
      subst hcell
      intro hflag hentry
      cases op with
      | uninstall =>
          -- the flag is still set while the bytes are put back
          have hinstalled := (Inner.prepareUninstall_eq_ok hi.2).1
          exact absurd (hinstalled.symm.trans hflag) Bool.noConfusion
      | install =>
          have hnot := (Inner.prepareInstall_eq_ok hi.2).1
          intro t f hf
          rw [State.frames_setControl] at hf
          refine h.quiet hnot ?_ t f hf
          by_contra hs
          rw [Bool.not_eq_false] at hs
          have hpatched := State.entryPatched_afterStore os
            h.controlled.wellFormed hi.2 hs
          exact Bool.false_ne_true (hentry.symm.trans hpatched)
  | flagged os op j place =>
      have hcell : j = s.cur := hi.cell (by rw [place]; rfl)
      subst hcell
      intro hflag _ t f hf
      rw [State.frames_setControl] at hf
      cases op with
      | install =>
          have hinner := State.inner_setInstalled s true
          change (s.setInstalled s.cur true).inner.isInstalled = false at hflag
          rw [hinner] at hflag
          cases hflag
      | uninstall => exact h.drained i (by rw [place]; rfl) t f hf
  | dropped os p e process place built
  | constructed os p newInner process place built =>
      exact h.quiet_of_kept ((s.setProcess process).setControl i _) rfl
        (fun x hx => built.mem_eq (.inl hx)) (State.frames_setControl _ i _)
  | replaced os newInner m place destroyed =>
      obtain ⟨hflag, hentry⟩ := hreplace newInner place
      intro _ _ t f hf
      rw [State.frames_setControl] at hf
      exact h.quiet hflag hentry t f hf
  | framed a j owner fs move =>
      refine h.quiet_of_framed (State.inner_setCondMutex s j owner s.cur) rfl ?_
      intro hvacated hentry
      exact State.vacated_setFrames hvacated hentry move fun _ => rfl
  | entered a j rest place =>
      refine h.quiet_of_framed (State.inner_addActive s j 1 s.cur) rfl ?_
      intro hvacated
      have hleft := hvacated i (.entering j) (by rw [place]; simp)
      cases hleft
  | exited a g j rest f place left =>
      refine h.quiet_of_framed (State.inner_addActive s j (-1) s.cur) rfl ?_
      intro hvacated
      have hleft := hvacated i (.exiting g j) (by rw [place]; simp)
      cases hleft

theorem Gated.drained_step (h : Gated late s) (hstep : Step z s i a s')
    (hclear : gateClear late s (i, a) = true) :
    ∀ t, (s'.control t).drained = true → s'.Vacated late := by
  cases hstep with
  | moved a j owner c move =>
      refine h.drained_setControl _ (fun _ => rfl) (fun _ => rfl) ?_
      intro hc
      generalize hplace : s.control i = c₀ at move
      cases move with
      | pass j hzero => exact h.passed hclear (.inl hplace) hzero
      | passWaiting j hzero => exact h.passed hclear (.inr hplace) hzero
      | refuse op j e hprep => cases op <;> cases hc
      | start op | startChange p | prepare op j bytes hprep | wait j | check j
      | sleep j | wake j | changeRefuse p | changeAllow p => cases hc
  | locked os op j place free =>
      exact h.drained_setControl _ (fun _ => rfl) (fun _ => rfl)
        fun hc => by cases hc
  | cut os op j bytes place short =>
      refine h.drained_setControl _ (fun _ => rfl) (fun _ => rfl) fun hc => ?_
      cases op <;> cases hc
  | wrote os op j bytes place whole =>
      refine h.drained_setControl _ (fun _ => rfl) (fun _ => rfl) fun hc => ?_
      cases op <;> cases hc
  | flagged os op j place =>
      refine h.drained_setControl _ (fun _ => rfl) (fun _ => rfl) fun hc => ?_
      cases op with
      | install => cases hc
      | uninstall => exact h.drained i (by rw [place]; rfl)
  | unlocked os op j returns place =>
      exact h.drained_setControl _ (fun _ => rfl) (fun _ => rfl)
        fun hc => by cases hc
  | dropped os p e process place built
  | constructed os p newInner process place built =>
      exact h.drained_setControl (s.setProcess process) (fun _ => rfl)
        (fun _ => rfl) fun hc => by cases hc
  | replaced os newInner m place destroyed =>
      exact h.drained_setControl (s.replaceInner m newInner)
        (fun _ => rfl) (fun _ => rfl) fun hc => by cases hc
  | framed a j owner fs move =>
      intro t ht
      rw [State.control_setFrames] at ht
      exact State.vacated_setFrames (h.drained t ht) (h.not_entryPatched ht)
        move fun _ => rfl
  | entered a j rest place =>
      intro t ht
      rw [State.control_setFrames] at ht
      have hleft := h.drained t ht i (.entering j) (by rw [place]; simp)
      cases hleft
  | exited a g j rest f place left =>
      intro t ht
      rw [State.control_setFrames] at ht
      have hleft := h.drained t ht i (.exiting g j) (by rw [place]; simp)
      cases hleft

theorem Gated.step (hz : z.Lawful) (hjmp : z.DecodesJmp) (h : Gated late s)
    (hstep : Step z s i a s') (hcond : gateGuards late s (i, a) = true) :
    Gated late s' := by
  obtain ⟨hclear, hunhooked⟩ := Bool.and_eq_true_iff.mp hcond
  have hreplace : ∀ newInner, s.control i = .changeReplace newInner →
      (s.inner.isInstalled = false ∧ s.entryPatched = false) ∧ s.NoCalls := by
    intro newInner hplace
    simpa [replacesUnhooked, hplace] using hunhooked
  have hvacated : ∀ newInner, s.control i = .changeReplace newInner →
      s.Vacated true := by
    intro newInner hplace t f hf
    obtain ⟨⟨hflag, hentry⟩, -⟩ := hreplace newInner hplace
    rw [Frame.eq_returning_of_left (h.quiet hflag hentry t f hf)]
    rfl
  refine ⟨?_, ?_, ?_, ?_, ?_, ?_⟩
  · exact h.controlled.step hstep fun newInner hplace =>
      (hreplace newInner hplace).2
  · exact h.made.step h.controlled hstep (fun _ _ hhead => hhead)
      fun _ _ _ _ _ built => built.headNotJmp hz hjmp
  · cases hstep with
    | replaced os newInner m place destroyed =>
        have hzero := h.counted.count.trans
          (State.openCalls_of_vacated (hvacated newInner place))
        change decide ((s.cells s.cur).numActiveCalls ≠ 0) = false
        simp [hzero]
    | moved | locked | cut | wrote | flagged | unlocked | dropped
    | constructed | framed | entered | exited => exact h.live
  · exact h.counted.step hstep hvacated
  · exact h.quiet_step hstep fun newInner hplace =>
      (hreplace newInner hplace).1
  · exact h.drained_step hstep hclear

theorem gated_start (hz : z.Lawful) (hjmp : z.DecodesJmp) {m₀ : Mem}
    (hinit : (threadSystem z m₀).init s) : Gated late s := by
  obtain ⟨os, p, name, t, d, out, inner, p', rfl, hnew, rfl⟩ := hinit
  have hbuilt := Inner.new_outcome hz os p name t d out
  rw [hnew] at hbuilt
  have hvacated : (start p' inner : State Tid).Vacated late := by
    intro t f hf
    cases hf
  refine ⟨State.controlled_start hbuilt,
    State.made_start (hbuilt.headNotJmp hz hjmp), rfl, ⟨?_, ?_, ?_⟩,
    fun _ _ => hvacated, fun _ _ => hvacated⟩
  · intro t f hf
    cases hf
  · exact (State.openCalls_of_vacated hvacated).symm
  · intro j
    exact le_refl _

theorem reachable_gated (hz : z.Lawful) (hjmp : z.DecodesJmp) {m₀ : Mem}
    (h : (threadSystem z m₀).ReachableUnder
      (fun s e _ => gateGuards late s e = true) s) : Gated late s := by
  refine h.invariant (I := Gated late) (fun _ hs => gated_start hz hjmp hs) ?_
  intro s e s' hI hstep hcond
  exact hI.step hz hjmp (next_step hz hstep).2 hcond

/-- In every state of a run in which the gate is found empty only after all
calls have left it: no destructor has failed, every guard uses the current gate
for entering and for leaving, and so does every thread that waits at it; the
counter is the number of calls between the two, and the hook is replaced only
while no guard is at work. -/
theorem gates_outlive_guards (hz : z.Lawful) (hjmp : z.DecodesJmp) {m₀ : Mem}
    (h : (threadSystem z m₀).ReachableUnder
      (fun s e _ => gateGuards true s e = true) s) :
    s.aborted = false ∧
    (∀ i, ∀ f ∈ s.frames i, ∀ j ∈ f.gates, j = s.cur) ∧
    (∀ i j, (s.control i).cell? = some j → j = s.cur) ∧
    (s.cells s.cur).numActiveCalls = s.openCalls ∧
    (∀ j, 0 ≤ (s.cells j).numActiveCalls) ∧
    (∀ e s', next z s e = some s' → gateGuards true s e = true →
      s'.cur ≠ s.cur → ∀ i, ∀ f ∈ s.frames i, f.guarded = false) := by
  have hI := reachable_gated hz hjmp h
  refine ⟨hI.live, hI.counted.gates, fun i j hj => (hI.controlled.place i).cell hj,
    hI.counted.count, hI.counted.nonneg, ?_⟩
  intro e s' hstep hcond hcur i f hf
  obtain ⟨newInner, hplace⟩ := replaced_of_cur_ne (next_step hz hstep).2 hcur
  have hunhooked := (Bool.and_eq_true_iff.mp hcond).2
  have hquiet : (s.inner.isInstalled = false ∧ s.entryPatched = false) ∧
      s.NoCalls := by
    simpa [replacesUnhooked, hplace] using hunhooked
  have hleft := hI.quiet hquiet.1.1 hquiet.1.2 i f hf
  rw [Frame.eq_returning_of_left hleft]
  rfl

end Gated

/-! ## Two threads on a function of five NOPs -/

def calls (i : Bool) (n : Nat) : List (Bool × Act) :=
  (i, .call) :: List.replicate n (i, .frame)

def waitedFor : List (Bool × Act) :=
  installs false ++ calls true 3 ++ (false, .start .uninstall) ::
    advances false 6 ++ List.replicate 5 (true, .frame) ++ advances false 5 ++
    changes false

theorem gates_outlive_guards_nop :
    ∃ s, TransitionSystem.replayUnder (next (tableZydis smallTable))
        (gateGuards true) nopState waitedFor = some s ∧
      s.cur = 1 ∧ s.frames true = [.returning] ∧
      s.aborted = false ∧ ∀ j, 0 ≤ (s.cells j).numActiveCalls := by
  have hrun : (TransitionSystem.replayUnder (next (tableZydis smallTable))
      (gateGuards true) nopState waitedFor).map (fun s =>
        (s.cur, s.frames true)) = some (1, [.returning]) := by
    decide +kernel
  obtain ⟨s, hreplay, hs⟩ := Option.map_eq_some_iff.mp hrun
  rw [Prod.mk.injEq] at hs
  have hreach := TransitionSystem.ReachableUnder.replay (fun _ _ _ h => h)
    (.init nopState_init) hreplay
  obtain ⟨hlive, -, -, -, hnonneg, -⟩ := gates_outlive_guards
    (tableZydis_lawful _) smallTable_decodesJmp hreach
  exact ⟨s, hreplay, hs.1, hs.2, hlive, hnonneg⟩

def leavesLate : List (Bool × Act) :=
  installs false ++ calls true 5 ++ uninstalls false ++ changes false

def entersLate : List (Bool × Act) :=
  installs false ++ calls true 2 ++ uninstalls false ++ changes false ++
    List.replicate 3 (true, .frame)

/-- A guard that has yet to lock the mutex of a destroyed gate; and a counter
below zero, because a guard has entered another gate than it left. -/
theorem gate_destroyed_in_use :
    (∃ s, (threadSystem (tableZydis smallTable) nopProcess.mem).Reachable s ∧
      s.cur = 1 ∧ s.frames true = [.locking 0 0]) ∧
    ∃ s : State Bool,
      (threadSystem (tableZydis smallTable) nopProcess.mem).Reachable s ∧
      s.cur = 1 ∧ (s.cells 0).numActiveCalls = 1 ∧
        (s.cells 1).numActiveCalls = -1 := by
  have hleaves : (TransitionSystem.replay (next (tableZydis smallTable))
      nopState leavesLate).map (fun s => (s.cur, s.frames true)) =
      some (1, [.locking 0 0]) := by
    decide +kernel
  have henters : (TransitionSystem.replay (next (tableZydis smallTable))
      nopState entersLate).map (fun s => (s.cur, (s.cells 0).numActiveCalls,
        (s.cells 1).numActiveCalls)) = some (1, 1, -1) := by
    decide +kernel
  obtain ⟨s, hs, hleft⟩ := Option.map_eq_some_iff.mp hleaves
  obtain ⟨t, ht, hcount⟩ := Option.map_eq_some_iff.mp henters
  simp only [Prod.mk.injEq] at hleft hcount
  exact ⟨⟨s, nopState_replay hs, hleft⟩, t, nopState_replay ht, hcount⟩

end Concurrency

end Ztour
