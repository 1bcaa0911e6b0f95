import Ztour.Concurrency.Control
import Ztour.HookInst.ControlFlow

/-!
# No patch is left behind

The memory tells, by the flag and by the place of the thread that holds the
access mutex, whether the patch is at the target.  As long as the target is
changed only while nobody else changes the hook, the memory is the original one
but for the patch of an installed hook.
-/

namespace Ztour

open Ztour.Foundation

structure Inner.MadeFrom (m₀ : Mem) (inner : Inner) : Prop where
  saved : ∀ x, m₀ x ≠ none →
    m₀.write inner.targetFunc inner.patchedOriginalBytes x = m₀ x
  page : ∀ page, inner.codePage = some page → ∀ x ∈ page.range, m₀ x = none

theorem Inner.NewOutcome.madeFrom {z : Zydis} {os : Os} {m₀ : Mem}
    {p p' : Process} {name : String} {t d out : Ptr} {inner : Inner}
    (h : NewOutcome z os p name t d out (.ok inner, p'))
    (hmem : ∀ x, m₀ x ≠ none → p.mem x = m₀ x) : inner.MadeFrom m₀ := by
  cases h with
  | noTarget d resolved => exact ⟨by simp [withoutTarget], by simp [withoutTarget]⟩
  | constructed inner page m m' resolved nonnull fresh filled named output =>
      have hfresh : ∀ x ∈ span page.memory page.size, m₀ x = none := by
        intro x hx
        by_contra hne
        exact hne ((hmem x hne).symm.trans (fresh.unmapped x hx))
      constructor
      · intro x hx
        have hout : x ∉ span page.memory page.size := fun hin =>
          hx (hfresh x hin)
        have hm : m x = m₀ x := (fresh.mem_outside hout).trans (hmem x hx)
        rw [← hm]
        exact Memory.write_restore filled.saved fun _ => hm.symm
      · intro own hown x hx
        obtain ⟨page', hpage, hmemory, hsize⟩ := filled.page
        cases hown.symm.trans hpage
        unfold MemPage.range at hx
        rw [hmemory, hsize] at hx
        exact hfresh x hx

namespace Concurrency

variable {Tid : Type}

/-! ## Whether the patch is in memory -/

/-- Between the overwrite and the update of the flag, the flag is behind. -/
def Control.patchedWhen (flag : Bool) : Control → Bool
  | .flagging .install _ => true
  | .gateTest _ | .waitLock _ | .waitCheck _ | .asleep _
  | .flagging .uninstall _ => false
  | .idle | .locking _ _ | .testing _ _ | .writing _ _ _ | .unlocking _ _ _
  | .changeTest _ | .changeConstruct _ | .changeReplace _ => flag

namespace State

variable (s : State Tid)

def ownerControl : Control :=
  match (s.cells s.cur).accessMutex with
  | some i => s.control i
  | none => .idle

def patchWritten : Bool := s.ownerControl.patchedWhen s.inner.isInstalled

variable {s} {s' : State Tid} {i : Tid} {c : Control}

theorem patchWritten_of_owner
    (h : (s.cells s.cur).accessMutex = some i) :
    s.patchWritten = (s.control i).patchedWhen s.inner.isInstalled := by
  simp [patchWritten, ownerControl, h]

theorem patchWritten_of_free (h : (s.cells s.cur).accessMutex = none) :
    s.patchWritten = s.inner.isInstalled := by
  simp [patchWritten, ownerControl, h, Control.patchedWhen]

theorem patchedWhen_of_cell?_none (flag : Bool) (h : c.cell? = none) :
    c.patchedWhen flag = flag := by
  cases c with
  | idle | changeTest p | changeConstruct p | changeReplace newInner => rfl
  | locking op j | testing op j | writing op j bytes | gateTest j | waitLock j
  | waitCheck j | asleep j | flagging op j | unlocking op j returns => cases h

theorem patchWritten_of_noCalls (h : s.NoCalls) :
    s.patchWritten = s.inner.isInstalled := by
  unfold patchWritten ownerControl
  split
  · exact patchedWhen_of_cell?_none _ (h _)
  · rfl

theorem patchWritten_of_same (hsame : s.SameHook s')
    (hcontrol : ∀ t, s'.control t = s.control t) :
    s'.patchWritten = s.patchWritten := by
  have hmutex := hsame.mutex
  rw [← hsame.cur] at hmutex
  unfold patchWritten ownerControl
  rw [hmutex, hsame.cur, hsame.inner]
  simp only [hcontrol]

theorem patchWritten_setControl [DecidableEq Tid]
    (h : c.patchedWhen s.inner.isInstalled =
      (s.control i).patchedWhen s.inner.isInstalled) :
    (s.setControl i c).patchWritten = s.patchWritten := by
  cases hmutex : (s.cells s.cur).accessMutex with
  | none =>
      rw [patchWritten_of_free hmutex]
      exact patchWritten_of_free hmutex
  | some t =>
      rw [patchWritten_of_owner hmutex,
        patchWritten_of_owner (s := s.setControl i c) hmutex]
      by_cases ht : t = i
      · subst ht
        rw [control_setControl]
        exact h
      · rw [control_setControl_ne s i ht]
        rfl

theorem patchedWhen_moved {c' : Control} (move : ControlMove s c c')
    (flag : Bool) : c'.patchedWhen flag = c.patchedWhen flag := by
  cases move <;> rfl

/-! ## The memory -/

structure Original (m₀ : Mem) (s : State Tid) : Prop where
  original : ∀ x, m₀ x ≠ none →
    (s.patchWritten = true → x ∉ s.inner.range) → s.process.mem x = m₀ x
  patched : s.patchWritten = true → s.Patched

variable {m₀ : Mem}

theorem Original.of_unwritten (h : s.Original m₀)
    (hnot : s.patchWritten = false) (x : Ptr) (hx : m₀ x ≠ none) :
    s.process.mem x = m₀ x := by
  refine h.original x hx fun hwritten => ?_
  rw [hnot] at hwritten
  cases hwritten

theorem Original.of_same (h : s.Original m₀) (hsame : s.SameHook s')
    (hwritten : s'.patchWritten = s.patchWritten) : s'.Original m₀ := by
  constructor
  · intro x hx hout
    rw [hwritten, hsame.inner] at hout
    have hmem := h.original x hx hout
    rw [hsame.mem x (hmem ▸ hx), hmem]
  · intro hs'
    exact hsame.patched (h.patched (hwritten ▸ hs'))

theorem Original.of_kept (h : s.Original m₀) (hsame : s.SameHook s')
    (hcontrol : ∀ t, s'.control t = s.control t) : s'.Original m₀ :=
  h.of_same hsame (patchWritten_of_same hsame hcontrol)

theorem Original.congr (h : s.Original m₀)
    (hmem : s'.process.mem = s.process.mem) (hinner : s'.inner = s.inner)
    (hwritten : s'.patchWritten = s.patchWritten) : s'.Original m₀ := by
  constructor
  · intro x hx hout
    rw [hwritten, hinner] at hout
    rw [hmem]
    exact h.original x hx hout
  · intro hs
    obtain ⟨htarget, hfits, hholds⟩ := h.patched (hwritten ▸ hs)
    refine ⟨hinner ▸ htarget, hinner ▸ hfits, ?_⟩
    rw [hmem, hinner]
    exact hholds

theorem sameHook_afterStore {os : Os} {j : Nat} {bytes : List Byte}
    (h : bytes.take (stored s os j bytes) = []) :
    s.SameHook (afterStore s os j bytes) where
  cur := rfl
  inner := rfl
  mutex := rfl
  mem := by
    intro x _
    unfold afterStore
    rw [h, Memory.write_nil]
    rfl

theorem Original.replaced {os : Os} {m : Mem} {newInner : Inner}
    (h : s.Original m₀)
    (destroyed : s.inner.destroy os s.process.mem = .ok m)
    (hmade : s.inner.MadeFrom m₀) (hnew : newInner.isInstalled = false)
    (hnot : s.patchWritten = false) :
    (s.replaceInner m newInner).Original m₀ := by
  have hafter : (s.replaceInner m newInner).patchWritten = false := by
    rw [patchWritten_of_free (by simp [replaceInner]), inner_replaceInner]
    exact hnew
  constructor
  · intro x hx _
    refine Eq.trans ?_ (h.of_unwritten hnot x hx)
    refine Inner.destroy_of_not_mem destroyed fun page hpage hin => ?_
    exact hx (hmade.page page hpage x hin)
  · intro hw
    rw [hafter] at hw
    cases hw

section Step

variable [DecidableEq Tid] {z : Zydis} {a : Act}

theorem Original.setControl (h : s.Original m₀)
    (hc : c.patchedWhen s.inner.isInstalled =
      (s.control i).patchedWhen s.inner.isInstalled) :
    (s.setControl i c).Original m₀ :=
  h.of_same sameHook_setControl (patchWritten_setControl hc)

theorem Original.moved {owner : Option Tid} (h : s.Original m₀) (j : Nat)
    (move : ControlMove s (s.control i) c) :
    ((s.setCondMutex j owner).setControl i c).Original m₀ := by
  have hkept := h.of_kept (sameHook_setCondMutex j owner) fun _ => rfl
  exact hkept.setControl (patchedWhen_moved move _)

theorem Original.constructed {p : Ptr} {process : Process}
    (h : s.Original m₀) (place : s.control i = .changeConstruct p)
    (hmem : ∀ x, s.process.mem x ≠ none → process.mem x = s.process.mem x)
    (hc : ∀ flag, c.patchedWhen flag = flag) :
    ((s.setProcess process).setControl i c).Original m₀ := by
  have hkept := h.of_kept (sameHook_setProcess hmem) fun _ => rfl
  refine hkept.setControl ((hc _).trans ?_)
  rw [show (s.setProcess process).control i = _ from place]
  rfl

theorem Original.locked {op : ControlOp} {j : Nat} (h : s.Original m₀)
    (hcell : j = s.cur) (free : (s.cells j).accessMutex = none) :
    ((s.setAccessMutex j (some i)).setControl i (.testing op j)).Original
      m₀ := by
  subst hcell
  have hinner : (s.setAccessMutex s.cur (some i)).inner = s.inner :=
    inner_setAccessMutex s s.cur (some i) s.cur
  have hafter := patchWritten_of_owner (s := (s.setAccessMutex s.cur
    (some i)).setControl i (.testing op s.cur))
    (accessMutex_setAccessMutex s s.cur (some i))
  rw [control_setControl] at hafter
  refine h.congr rfl hinner ?_
  rw [hafter, patchWritten_of_free free]
  exact congrArg Inner.isInstalled hinner

theorem Original.unlocked {op : ControlOp} {j : Nat} {returns : Bool}
    (h : s.Original m₀) (hplace : s.Place i (s.control i))
    (place : s.control i = .unlocking op j returns) :
    ((s.setAccessMutex j none).setControl i .idle).Original m₀ := by
  have hcell : j = s.cur := hplace.cell (by rw [place]; rfl)
  have hbefore := patchWritten_of_owner (hplace.mutex (by rw [place]; rfl))
  rw [place] at hbefore
  subst hcell
  have hinner : (s.setAccessMutex s.cur none).inner = s.inner :=
    inner_setAccessMutex s s.cur none s.cur
  have hafter := patchWritten_of_free (s := (s.setAccessMutex s.cur
    none).setControl i .idle) (accessMutex_setAccessMutex s s.cur none)
  refine h.congr rfl hinner ?_
  rw [hafter, hbefore]
  exact congrArg Inner.isInstalled hinner

theorem Original.cut {os : Os} {op : ControlOp} {j : Nat} {bytes : List Byte}
    (h : s.Original m₀) (place : s.control i = .writing op j bytes)
    (short : bytes ≠ [] → stored s os j bytes ≠ bytes.length)
    (hstored : stored s os j bytes = 0 ∨
      stored s os j bytes = bytes.length) :
    ((afterStore s os j bytes).setControl i (.unlocking op j false)).Original
      m₀ := by
  have hnone : bytes.take (stored s os j bytes) = [] := by
    rcases hstored with hzero | hall
    · rw [hzero, List.take_zero]
    · by_contra hne
      refine short ?_ hall
      rintro rfl
      exact hne List.take_nil
  have hkept := h.of_kept (sameHook_afterStore hnone) fun _ => rfl
  refine hkept.setControl ?_
  rw [show (afterStore s os j bytes).control i = _ from place]
  rfl

theorem Original.of_owner (howner : (s.cells s.cur).accessMutex = some i)
    (horiginal : ∀ x, m₀ x ≠ none →
      (c.patchedWhen s.inner.isInstalled = true → x ∉ s.inner.range) →
      s.process.mem x = m₀ x)
    (hpatched : c.patchedWhen s.inner.isInstalled = true → s.Patched) :
    (s.setControl i c).Original m₀ := by
  have hwritten : (s.setControl i c).patchWritten =
      c.patchedWhen s.inner.isInstalled := by
    rw [patchWritten_of_owner (s := s.setControl i c) howner,
      control_setControl]
    rfl
  constructor
  · intro x hx hout
    exact horiginal x hx (hwritten ▸ hout)
  · intro hs
    exact sameHook_setControl.patched (hpatched (hwritten ▸ hs))

theorem Original.wrote {os : Os} {op : ControlOp} {j : Nat}
    {bytes : List Byte} (h : s.Original m₀) (hcontrolled : s.Controlled)
    (hmade : s.inner.MadeFrom m₀) (hplace : s.control i = .writing op j bytes)
    (whole : stored s os j bytes = bytes.length) :
    ((afterStore s os j bytes).setControl i (op.afterWrite j)).Original m₀ := by
  have hi := hcontrolled.place i
  have hmutex := hi.mutex (by rw [hplace]; rfl)
  have hbefore := patchWritten_of_owner hmutex
  rw [hplace] at hi hbefore
  have hafter := place_afterWrite hcontrolled.wellFormed hi whole
  obtain ⟨howns, hprep⟩ := hi
  have hcell : j = s.cur := howns.cell
  subst hcell
  have hmem : (afterStore s os s.cur bytes).process.mem =
      s.process.mem.write s.inner.targetFunc bytes := mem_afterStore whole
  refine Original.of_owner hmutex ?_ ?_
  · intro x hx hout
    rw [hmem]
    cases op with
    | install =>
        obtain ⟨hflag, -, hlen, -, rfl⟩ := Inner.prepareInstall_eq_ok hprep
        have hrange : x ∉ span s.inner.targetFunc s.inner.patch.length := by
          rw [Inner.length_patch hlen]
          exact hout rfl
        rw [Memory.write_of_not_mem hrange]
        exact h.of_unwritten (hbefore.trans hflag) x hx
    | uninstall =>
        -- the saved bytes are those of `m₀` at the target
        obtain ⟨-, rfl⟩ := Inner.prepareUninstall_eq_ok hprep
        refine (Memory.write_congr fun hrange => ?_).trans (hmade.saved x hx)
        exact h.original x hx fun _ => hrange
  · intro hwritten
    cases op with
    | install => exact hafter.2.2
    | uninstall => cases hwritten

theorem Original.flagged {op : ControlOp} {j : Nat} (h : s.Original m₀)
    (hcontrolled : s.Controlled) (hplace : s.control i = .flagging op j) :
    ((s.setInstalled j op.flag).setControl i
      (.unlocking op j true)).Original m₀ := by
  have hi := hcontrolled.place i
  have hmutex := hi.mutex (by rw [hplace]; rfl)
  have hcell : j = s.cur := hi.cell (by rw [hplace]; rfl)
  have hbefore := patchWritten_of_owner hmutex
  rw [hplace] at hbefore
  subst hcell
  have hinner := inner_setInstalled s op.flag
  have hmutex' : ((s.setInstalled s.cur op.flag).cells s.cur).accessMutex =
      some i := (accessMutex_setInstalled s s.cur op.flag s.cur).trans hmutex
  have hwritten : s.patchWritten = op.flag := by
    rw [hbefore]
    cases op <;> rfl
  refine Original.of_owner hmutex' ?_ ?_
  · intro x hx hout
    rw [hinner] at hout
    exact h.original x hx fun hw => hout (hwritten.symm.trans hw)
  · intro hw
    rw [hinner] at hw
    obtain ⟨htarget, hfits, hholds⟩ := h.patched (hwritten.trans hw)
    refine ⟨?_, ?_, ?_⟩
    · rw [hinner]
      exact htarget
    · rw [hinner]
      exact hfits
    · rw [hinner]
      exact hholds

end Step

end State

/-! ## Every run -/

section Runs

variable [DecidableEq Tid] {z : Zydis} {m₀ : Mem} {s s' : State Tid} {i : Tid}
  {a : Act}

structure Settled (m₀ : Mem) (s : State Tid) : Prop where
  controlled : s.Controlled
  made : State.Made (Inner.MadeFrom m₀) s
  original : s.Original m₀

theorem settled_start (hz : z.Lawful) (hinit : (threadSystem z m₀).init s) :
    Settled m₀ s := by
  obtain ⟨os, p, name, t, d, out, inner, p', rfl, hnew, rfl⟩ := hinit
  have hbuilt := Inner.new_outcome hz os p name t d out
  rw [hnew] at hbuilt
  have hinstalled := hbuilt.notInstalled
  have hwritten : (start p' inner : State Tid).patchWritten = false :=
    (State.patchWritten_of_free rfl).trans hinstalled
  refine ⟨State.controlled_start hbuilt,
    State.made_start (hbuilt.madeFrom fun _ _ => rfl), ?_, ?_⟩
  · intro x hx _
    exact hbuilt.mem_eq (.inl hx)
  · intro hs
    rw [hwritten] at hs
    cases hs

variable [Fintype Tid]

/-- A new `Inner` is constructed only while the patch is not in memory, and put
in place only while the hook is not installed and no other call is at work. -/
def changesAlone (s : State Tid) (e : Tid × Act) : Bool :=
  match s.control e.1 with
  | .changeConstruct _ => !s.patchWritten
  | .changeReplace _ => !s.inner.isInstalled && decide s.NoCalls
  | _ => true

def writesWhole (s : State Tid) (e : Tid × Act) : Bool :=
  match s.control e.1, e.2 with
  | .writing _ j bytes, .advance os =>
      stored s os j bytes = 0 || stored s os j bytes = bytes.length
  | _, _ => true

def controlsApart (s : State Tid) (e : Tid × Act) : Bool :=
  changesAlone s e && writesWhole s e

theorem Settled.step (h : Settled m₀ s) (hstep : Step z s i a s')
    (hcond : controlsApart s (i, a) = true) : Settled m₀ s' := by
  obtain ⟨halone, hwhole⟩ := Bool.and_eq_true_iff.mp hcond
  have hreplace : ∀ newInner, s.control i = .changeReplace newInner →
      s.inner.isInstalled = false ∧ s.NoCalls := by
    intro newInner hplace
    simpa [changesAlone, hplace] using halone
  have hnew : ∀ os p newInner process, s.control i = .changeConstruct p →
      Inner.NewOutcome z os s.process s.inner.name p s.inner.detourFunc
        s.inner.outputOriginalFunc (.ok newInner, process) →
      newInner.MadeFrom m₀ := by
    intro os p newInner process hplace hbuilt
    have hnot : s.patchWritten = false := by
      simpa [changesAlone, hplace] using halone
    exact hbuilt.madeFrom (h.original.of_unwritten hnot)
  have hcontrolled := h.controlled.step hstep fun newInner hplace =>
    (hreplace newInner hplace).2
  have hmade := h.made.step h.controlled hstep
    (fun _ _ hfrom => ⟨hfrom.saved, hfrom.page⟩) hnew
  refine ⟨hcontrolled, hmade, ?_⟩
  have horiginal := h.original
  cases hstep with
  | moved a j owner c move => exact horiginal.moved j move
  | locked os op j place free =>
      have hcell := (h.controlled.place i).cell (j := j) (by rw [place]; rfl)
      exact horiginal.locked hcell free
  | cut os op j bytes place short =>
      refine horiginal.cut place short ?_
      simpa [writesWhole, place] using hwhole
  | wrote os op j bytes place whole =>
      exact horiginal.wrote h.controlled h.made.current place whole
  | flagged os op j place => exact horiginal.flagged h.controlled place
  | unlocked os op j returns place =>
      exact horiginal.unlocked (h.controlled.place i) place
  | dropped os p e process place built =>
      exact horiginal.constructed place (fun x hx => built.mem_eq (.inl hx))
        fun _ => rfl
  | constructed os p newInner process place built =>
      exact horiginal.constructed place (fun x hx => built.mem_eq (.inl hx))
        fun _ => rfl
  | replaced os newInner m place destroyed =>
      obtain ⟨hflag, hnone⟩ := hreplace newInner place
      have hnot := (State.patchWritten_of_noCalls hnone).trans hflag
      have hpending := h.controlled.place i
      rw [place] at hpending
      refine (horiginal.replaced destroyed h.made.current hpending.2
        hnot).setControl ?_
      rw [show (s.replaceInner m newInner).control i = _ from place]
      rfl
  | framed a j owner fs move =>
      exact horiginal.of_kept (State.sameHook_condFrames j owner i fs)
        fun t => State.control_setFrames _ i fs t
  | entered a j rest place =>
      exact horiginal.of_kept (State.sameHook_countFrames j 1 i _)
        fun t => State.control_setFrames _ i _ t
  | exited a g j rest f place left =>
      exact horiginal.of_kept (State.sameHook_countFrames j (-1) i _)
        fun t => State.control_setFrames _ i _ t

theorem reachable_settled (hz : z.Lawful)
    (h : (threadSystem z m₀).ReachableUnder
      (fun s e _ => controlsApart s e = true) s) : Settled m₀ s := by
  refine h.invariant (I := Settled m₀) (fun _ hs => settled_start hz hs) ?_
  intro s e s' hI hstep hcond
  exact hI.step (next_step hz hstep).2 hcond

/-- In every state of a run in which control calls stay apart, the calls in
progress work on the current hook.  Between the calls, the memory is the
original one but for the patch of the hook, if that is installed. -/
theorem no_orphaned_patch (hz : z.Lawful)
    (h : (threadSystem z m₀).ReachableUnder
      (fun s e _ => controlsApart s e = true) s) :
    (∀ i j, (s.control i).cell? = some j → j = s.cur) ∧
    ((∀ i, s.control i = .idle) →
      (∀ x, m₀ x ≠ none →
        (s.inner.isInstalled = true → x ∉ s.inner.range) →
        s.process.mem x = m₀ x) ∧
      (s.inner.isInstalled = true →
        s.process.mem.Holds s.inner.targetFunc s.inner.patch)) := by
  have hI := reachable_settled hz h
  refine ⟨fun i j hj => (hI.controlled.place i).cell hj, ?_⟩
  intro hidle
  have hnone : s.NoCalls := by
    intro i
    rw [hidle]
    rfl
  have hwritten := State.patchWritten_of_noCalls hnone
  constructor
  · intro x hx hout
    exact hI.original.original x hx fun hw => hout (hwritten ▸ hw)
  · intro hinstalled
    exact (hI.original.patched (hwritten.trans hinstalled)).holds

end Runs

/-! ## Two threads on a function of five NOPs -/

def nopState : State Bool := start Inner.nopHooked Inner.nopInner

theorem nopState_init :
    (threadSystem (tableZydis smallTable) nopProcess.mem).init nopState :=
  ⟨smallOs, nopProcess, _, _, _, _, _, _, rfl, Inner.new_nop, rfl⟩

theorem nopState_replay {actions : List (Bool × Act)} {s : State Bool}
    (h : TransitionSystem.replay (next (tableZydis smallTable)) nopState
      actions = some s) :
    (threadSystem (tableZydis smallTable) nopProcess.mem).Reachable s := by
  obtain ⟨history, hhistory⟩ := TransitionSystem.Run.replay
    (T := threadSystem (tableZydis smallTable) nopProcess.mem)
    (fun _ _ _ h => h) (.init nopState_init) h
  exact hhistory.reachable

def advances (i : Bool) (n : Nat) : List (Bool × Act) :=
  List.replicate n (i, .advance smallOs)

def installs (i : Bool) : List (Bool × Act) :=
  (i, .start .install) :: advances i 5

def uninstalls (i : Bool) : List (Bool × Act) :=
  (i, .start .uninstall) :: advances i 6

def changes (i : Bool) : List (Bool × Act) :=
  (i, .startChange 0) :: advances i 3

def inTurn : List (Bool × Act) :=
  installs true ++ uninstalls true ++ changes false

theorem no_orphaned_patch_nop :
    ∃ s, TransitionSystem.replayUnder (next (tableZydis smallTable))
        controlsApart nopState inTurn = some s ∧
      s.cur = 1 ∧
      ∀ x, nopProcess.mem x ≠ none → s.process.mem x = nopProcess.mem x := by
  have hrun : (TransitionSystem.replayUnder (next (tableZydis smallTable))
      controlsApart nopState inTurn).map (fun s =>
        (s.cur, s.inner.isInstalled, decide (∀ i, s.control i = .idle))) =
      some (1, false, true) := by
    decide +kernel
  obtain ⟨s, hreplay, hs⟩ := Option.map_eq_some_iff.mp hrun
  simp only [Prod.mk.injEq, decide_eq_true_eq] at hs
  obtain ⟨hcur, hflag, hidle⟩ := hs
  refine ⟨s, hreplay, hcur, fun x hx => ?_⟩
  have hreach := TransitionSystem.ReachableUnder.replay (fun _ _ _ h => h)
    (.init nopState_init) hreplay
  refine ((no_orphaned_patch (tableZydis_lawful _) hreach).2 hidle).1 x hx ?_
  intro hinstalled
  rw [hflag] at hinstalled
  cases hinstalled

def raced : List (Bool × Act) :=
  (false, .startChange 0) :: advances false 1 ++ installs true ++
    advances false 2

theorem orphaned_patch :
    ∃ s, (threadSystem (tableZydis smallTable) nopProcess.mem).Reachable s ∧
      (∀ i : Bool, s.control i = .idle) ∧ s.inner.isInstalled = false ∧
      nopProcess.mem 0x1000 = some 0x90 ∧
      s.process.mem 0x1000 = some 0xE9 := by
  have hrun : (TransitionSystem.replay (next (tableZydis smallTable)) nopState
      raced).map (fun s => (decide (∀ i, s.control i = .idle),
        s.inner.isInstalled, s.process.mem 0x1000)) =
      some (true, false, some 0xE9) := by
    decide +kernel
  obtain ⟨s, hreplay, hs⟩ := Option.map_eq_some_iff.mp hrun
  simp only [Prod.mk.injEq, decide_eq_true_eq] at hs
  exact ⟨s, nopState_replay hreplay, hs.1, hs.2.1, by decide +kernel, hs.2.2⟩

end Concurrency

end Ztour
