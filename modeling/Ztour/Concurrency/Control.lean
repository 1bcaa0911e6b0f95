import Ztour.Concurrency.Steps

/-!
# What a thread in a control call can rely on

As long as an `Inner` is replaced only while no thread is in `install` or
`uninstall`, these calls work on the current `Inner`, and its mutex lets one of
them at a time past its lock.
-/

namespace Ztour

open Ztour.Foundation

namespace Concurrency

variable {Tid : Type}

/-! ## The places of a control call -/

namespace Control

def cell? : Control → Option Nat
  | .locking _ j | .testing _ j | .writing _ j _ | .gateTest j | .waitLock j
  | .waitCheck j | .asleep j | .flagging _ j | .unlocking _ j _ => some j
  | .idle | .changeTest _ | .changeConstruct _ | .changeReplace _ => none

def critical : Control → Bool
  | .testing _ _ | .writing _ _ _ | .gateTest _ | .waitLock _ | .waitCheck _
  | .asleep _ | .flagging _ _ | .unlocking _ _ _ => true
  | .idle | .locking _ _ | .changeTest _ | .changeConstruct _
  | .changeReplace _ => false

end Control

namespace State

variable (s : State Tid)

/-- Thread `i` holds the mutex of the current `Inner`, which is at `j`. -/
structure Owns (i : Tid) (j : Nat) : Prop where
  cell : j = s.cur
  mutex : (s.cells s.cur).accessMutex = some i

def Restored : Prop :=
  s.process.mem.Holds s.inner.targetFunc s.inner.patchedOriginalBytes

structure Patched : Prop where
  target : s.inner.targetFunc ≠ 0
  fits : FitsSigned 32 (s.inner.codeEnterDetour - (s.inner.targetFunc + 5))
  holds : s.process.mem.Holds s.inner.targetFunc s.inner.patch

/-- What holds while thread `i` is at a place of a control call. -/
def Place (i : Tid) : Control → Prop
  | .idle | .changeTest _ | .changeConstruct _ => True
  | .locking _ j => j = s.cur
  | .testing _ j => s.Owns i j
  | .writing op j bytes => s.Owns i j ∧ op.prepare s.inner = .ok bytes
  | .gateTest j | .waitLock j | .waitCheck j | .asleep j
  | .flagging .uninstall j =>
      s.Owns i j ∧ s.inner.isInstalled = true ∧ s.Restored
  | .flagging .install j =>
      s.Owns i j ∧ s.inner.isInstalled = false ∧ s.Patched
  | .unlocking .uninstall j true =>
      s.Owns i j ∧ s.inner.isInstalled = false ∧ s.Restored
  | .unlocking _ j _ => s.Owns i j
  | .changeReplace newInner =>
      newInner.WellFormed ∧ newInner.isInstalled = false

structure Controlled : Prop where
  wellFormed : s.inner.WellFormed
  place : ∀ i, s.Place i (s.control i)

def NoCalls : Prop := ∀ i, (s.control i).cell? = none

instance [Fintype Tid] : Decidable s.NoCalls :=
  inferInstanceAs (Decidable (∀ i, (s.control i).cell? = none))

structure SameHook (s' : State Tid) : Prop where
  cur : s'.cur = s.cur
  inner : s'.inner = s.inner
  mutex : (s'.cells s.cur).accessMutex = (s.cells s.cur).accessMutex
  mem : ∀ x, s.process.mem x ≠ none → s'.process.mem x = s.process.mem x

variable {s} {s' : State Tid} {i t : Tid} {c : Control}

theorem Place.cell (h : s.Place i c) {j : Nat} (hj : c.cell? = some j) :
    j = s.cur := by
  cases c with
  | idle | changeTest p | changeConstruct p | changeReplace newInner => cases hj
  | locking op k => cases hj; exact h
  | testing op k => cases hj; exact h.cell
  | writing op k bytes | gateTest k | waitLock k | waitCheck k | asleep k =>
      cases hj; exact h.1.cell
  | flagging op k => cases op <;> cases hj <;> exact h.1.cell
  | unlocking op k returns =>
      cases hj
      cases op with
      | install => exact h.cell
      | uninstall =>
          cases returns with
          | false => exact h.cell
          | true => exact h.1.cell

theorem Place.mutex (h : s.Place i c) (hc : c.critical = true) :
    (s.cells s.cur).accessMutex = some i := by
  cases c with
  | idle | locking op k | changeTest p | changeConstruct p
  | changeReplace newInner => cases hc
  | testing op k => exact h.mutex
  | writing op k bytes | gateTest k | waitLock k | waitCheck k | asleep k =>
      exact h.1.mutex
  | flagging op k => cases op <;> exact h.1.mutex
  | unlocking op k returns =>
      cases op with
      | install => exact h.mutex
      | uninstall =>
          cases returns with
          | false => exact h.mutex
          | true => exact h.1.mutex

/-! ## Places under the steps of other threads -/

section SameHook

variable (hsame : s.SameHook s')

include hsame

theorem SameHook.owns {j : Nat} (h : s.Owns i j) : s'.Owns i j := by
  refine ⟨h.cell.trans hsame.cur.symm, ?_⟩
  rw [hsame.cur, hsame.mutex]
  exact h.mutex

theorem SameHook.restored (h : s.Restored) : s'.Restored := by
  unfold Restored
  rw [hsame.inner]
  exact Memory.Holds.of_mapped h hsame.mem

theorem SameHook.patched (h : s.Patched) : s'.Patched := by
  refine ⟨?_, ?_, ?_⟩
  · rw [hsame.inner]
    exact h.target
  · rw [hsame.inner]
    exact h.fits
  · rw [hsame.inner]
    exact h.holds.of_mapped hsame.mem

theorem SameHook.place (h : s.Place i c) : s'.Place i c := by
  have howns := fun {j} => hsame.owns (i := i) (j := j)
  cases c with
  | idle | changeTest p | changeConstruct p | changeReplace newInner => exact h
  | locking op j => exact Eq.trans h hsame.cur.symm
  | testing op j => exact howns h
  | writing op j bytes => exact ⟨howns h.1, hsame.inner ▸ h.2⟩
  | gateTest j | waitLock j | waitCheck j | asleep j =>
      exact ⟨howns h.1, hsame.inner ▸ h.2.1, hsame.restored h.2.2⟩
  | flagging op j =>
      cases op with
      | install => exact ⟨howns h.1, hsame.inner ▸ h.2.1, hsame.patched h.2.2⟩
      | uninstall =>
          exact ⟨howns h.1, hsame.inner ▸ h.2.1, hsame.restored h.2.2⟩
  | unlocking op j returns =>
      cases op with
      | install => exact howns h
      | uninstall =>
          cases returns with
          | false => exact howns h
          | true =>
              exact ⟨howns h.1, hsame.inner ▸ h.2.1, hsame.restored h.2.2⟩

end SameHook

theorem Place.of_not_critical (h : s.Place t c) (hc : c.critical = false)
    (hcur : s'.cur = s.cur) : s'.Place t c := by
  cases c with
  | idle | changeTest p | changeConstruct p | changeReplace newInner => exact h
  | locking op j => exact Eq.trans h hcur.symm
  | testing op j | writing op j bytes | gateTest j | waitLock j | waitCheck j
  | asleep j | flagging op j | unlocking op j returns => cases hc

theorem Place.of_cell?_none (h : s.Place t c) (hc : c.cell? = none) :
    s'.Place t c := by
  cases c with
  | idle | changeTest p | changeConstruct p | changeReplace newInner => exact h
  | locking op j | testing op j | writing op j bytes | gateTest j | waitLock j
  | waitCheck j | asleep j | flagging op j | unlocking op j returns => cases hc

/-! ## One step -/

theorem SameHook.trans {s'' : State Tid} (h : s.SameHook s')
    (h' : s'.SameHook s'') : s.SameHook s'' := by
  refine ⟨h'.cur.trans h.cur, h'.inner.trans h.inner, ?_, ?_⟩
  · have hmutex := h'.mutex
    rw [h.cur] at hmutex
    exact hmutex.trans h.mutex
  · intro x hx
    have hkept := h.mem x hx
    rw [h'.mem x (hkept ▸ hx), hkept]

theorem sameHook_setCondMutex (j : Nat) (owner : Option Tid) :
    s.SameHook (s.setCondMutex j owner) where
  cur := rfl
  inner := inner_setCondMutex s j owner s.cur
  mutex := accessMutex_setCondMutex s j owner s.cur
  mem := fun _ _ => rfl

theorem sameHook_addActive (j : Nat) (change : Int) :
    s.SameHook (s.addActive j change) where
  cur := rfl
  inner := inner_addActive s j change s.cur
  mutex := accessMutex_addActive s j change s.cur
  mem := fun _ _ => rfl

theorem sameHook_setProcess {p : Process}
    (h : ∀ x, s.process.mem x ≠ none → p.mem x = s.process.mem x) :
    s.SameHook (s.setProcess p) where
  cur := rfl
  inner := rfl
  mutex := rfl
  mem := h

theorem sameHook_setControl [DecidableEq Tid] : s.SameHook (s.setControl i c) where
  cur := rfl
  inner := rfl
  mutex := rfl
  mem := fun _ _ => rfl

theorem sameHook_setFrames [DecidableEq Tid] (i : Tid) (fs : List Frame) :
    s.SameHook (s.setFrames i fs) where
  cur := rfl
  inner := rfl
  mutex := rfl
  mem := fun _ _ => rfl

theorem sameHook_condFrames [DecidableEq Tid] (j : Nat) (owner : Option Tid)
    (i : Tid) (fs : List Frame) :
    s.SameHook ((s.setCondMutex j owner).setFrames i fs) :=
  (sameHook_setCondMutex j owner).trans (sameHook_setFrames i fs)

theorem sameHook_countFrames [DecidableEq Tid] (j : Nat) (change : Int)
    (i : Tid) (fs : List Frame) :
    s.SameHook ((s.addActive j change).setFrames i fs) :=
  (sameHook_addActive j change).trans (sameHook_setFrames i fs)

theorem Controlled.of_same (h : s.Controlled) (hsame : s.SameHook s')
    (hcontrol : ∀ t, s'.control t = s.control t) : s'.Controlled := by
  constructor
  · rw [hsame.inner]
    exact h.wellFormed
  · intro t
    rw [hcontrol]
    exact hsame.place (h.place t)

theorem Controlled.setControl [DecidableEq Tid] (hwf : s.inner.WellFormed)
    (hplace : s.Place i c) (hothers : ∀ t, t ≠ i → s.Place t (s.control t)) :
    (s.setControl i c).Controlled := by
  constructor
  · exact hwf
  · intro t
    refine sameHook_setControl.place ?_
    by_cases ht : t = i
    · subst ht
      rw [control_setControl]
      exact hplace
    · rw [control_setControl_ne s i ht]
      exact hothers t ht

theorem Controlled.not_critical (h : s.Controlled)
    (hi : (s.control i).critical = true) (hne : t ≠ i) :
    (s.control t).critical = false := by
  by_contra hc
  rw [Bool.not_eq_false] at hc
  have heq := ((h.place t).mutex hc).symm.trans ((h.place i).mutex hi)
  exact hne (Option.some.inj heq)

theorem Controlled.others (h : s.Controlled) (s' : State Tid)
    (hi : (s.control i).critical = true) (hcur : s'.cur = s.cur)
    (hcontrol : ∀ t, s'.control t = s.control t) :
    ∀ t, t ≠ i → s'.Place t (s'.control t) := by
  intro t ht
  rw [hcontrol]
  exact (h.place t).of_not_critical (h.not_critical hi ht) hcur

theorem Place.moved {c' : Control} (h : s.Place i c)
    (move : ControlMove s c c') : s.Place i c' := by
  cases move with
  | start op => exact rfl
  | startChange p | changeRefuse p | changeAllow p => trivial
  | refuse op j e hprep =>
      cases op with
      | install => exact h
      | uninstall => exact h
  | prepare op j bytes hprep =>
      have hcell : j = s.cur := Owns.cell h
      subst hcell
      exact ⟨h, hprep⟩
  | wait j | check j | sleep j | wake j | pass j hzero
  | passWaiting j hzero => exact h

theorem place_afterWrite {os : Os} {op : ControlOp} {j : Nat}
    {bytes : List Byte} (hwf : s.inner.WellFormed)
    (h : s.Place i (.writing op j bytes))
    (whole : stored s os j bytes = bytes.length) :
    (afterStore s os j bytes).Place i (op.afterWrite j) := by
  obtain ⟨howns, hprep⟩ := h
  have hcell : j = s.cur := howns.cell
  subst hcell
  have hmem : (afterStore s os s.cur bytes).process.mem =
      s.process.mem.write s.inner.targetFunc bytes := mem_afterStore whole
  cases op with
  | install =>
      obtain ⟨hflag, htarget, -, hfits, -⟩ := Inner.prepareInstall_eq_ok hprep
      refine ⟨⟨rfl, howns.mutex⟩, hflag, htarget, hfits, ?_⟩
      rw [hmem]
      exact World.done_holds hwf hprep
  | uninstall =>
      obtain ⟨hflag, rfl⟩ := Inner.prepareUninstall_eq_ok hprep
      have hlt := hwf.length_lt
      refine ⟨⟨rfl, howns.mutex⟩, hflag, ?_⟩
      unfold Restored
      rw [hmem]
      exact Memory.holds_write (by omega)

section Step

variable [DecidableEq Tid] {z : Zydis} {a : Act}

theorem Controlled.locked {op : ControlOp} {j : Nat} (h : s.Controlled)
    (hcell : j = s.cur) (free : (s.cells j).accessMutex = none) :
    ((s.setAccessMutex j (some i)).setControl i (.testing op j)).Controlled := by
  subst hcell
  refine Controlled.setControl ?_
    ⟨rfl, accessMutex_setAccessMutex s s.cur (some i)⟩ ?_
  · unfold State.inner
    rw [inner_setAccessMutex]
    exact h.wellFormed
  · intro t ht
    refine (h.place t).of_not_critical ?_ rfl
    -- a thread in the critical section would own the mutex that was free
    by_contra hc
    rw [Bool.not_eq_false] at hc
    have hsome := (h.place t).mutex hc
    rw [free] at hsome
    cases hsome

theorem Controlled.flagged {op : ControlOp} {j : Nat} (h : s.Controlled)
    (hplace : s.control i = .flagging op j) :
    ((s.setInstalled j op.flag).setControl i
      (.unlocking op j true)).Controlled := by
  have hi := h.place i
  have hcritical : (s.control i).critical = true := by rw [hplace]; rfl
  have hcell : j = s.cur := hi.cell (by rw [hplace]; rfl)
  have hmutex := hi.mutex hcritical
  subst hcell
  have hinner := inner_setInstalled s op.flag
  have howns : (s.setInstalled s.cur op.flag).Owns i s.cur :=
    ⟨rfl, (accessMutex_setInstalled s s.cur op.flag s.cur).trans hmutex⟩
  have hothers := h.others (s.setInstalled s.cur op.flag) hcritical rfl
    fun _ => rfl
  rw [hplace] at hi
  cases op with
  | install =>
      obtain ⟨-, -, hpatched⟩ := hi
      refine Controlled.setControl ?_ howns hothers
      rw [hinner]
      exact ⟨h.wellFormed.length_lt, h.wellFormed.length_ge,
        fun _ => ⟨hpatched.target, hpatched.fits⟩⟩
  | uninstall =>
      obtain ⟨-, -, hrestored⟩ := hi
      refine Controlled.setControl ?_ ⟨howns, ?_, ?_⟩ hothers
      · rw [hinner]
        exact ⟨h.wellFormed.length_lt, h.wellFormed.length_ge,
          fun hflag => by cases hflag⟩
      · rw [hinner]
        rfl
      · unfold Restored
        rw [hinner]
        exact hrestored

theorem Controlled.step {s' : State Tid} (h : s.Controlled)
    (hstep : Step z s i a s')
    (hreplace : ∀ newInner, s.control i = .changeReplace newInner →
      s.NoCalls) : s'.Controlled := by
  have hi := h.place i
  cases hstep with
  | moved a j owner c move =>
      have hsame := sameHook_setCondMutex (s := s) j owner
      refine Controlled.setControl ?_ (hsame.place (hi.moved move)) ?_
      · rw [hsame.inner]
        exact h.wellFormed
      · intro t ht
        exact hsame.place (h.place t)
  | locked os op j place free =>
      rw [place] at hi
      exact h.locked hi free
  | cut os op j bytes place short =>
      have hothers := h.others (i := i) (afterStore s os j bytes)
        (by rw [place]; rfl) rfl fun _ => rfl
      rw [place] at hi
      have howns : (afterStore s os j bytes).Owns i j :=
        ⟨hi.1.cell, hi.1.mutex⟩
      refine Controlled.setControl h.wellFormed ?_ hothers
      cases op with
      | install => exact howns
      | uninstall => exact howns
  | wrote os op j bytes place whole =>
      have hothers := h.others (i := i) (afterStore s os j bytes)
        (by rw [place]; rfl) rfl fun _ => rfl
      rw [place] at hi
      exact Controlled.setControl h.wellFormed
        (place_afterWrite h.wellFormed hi whole) hothers
  | flagged os op j place => exact h.flagged place
  | unlocked os op j returns place =>
      have hothers := h.others (i := i) (s.setAccessMutex j none)
        (by rw [place]; rfl) rfl fun _ => rfl
      refine Controlled.setControl ?_ trivial hothers
      unfold State.inner
      rw [inner_setAccessMutex]
      exact h.wellFormed
  | dropped os p e process place built =>
      have hsame := sameHook_setProcess (s := s) (p := process)
        fun x hx => built.mem_eq (.inl hx)
      exact Controlled.setControl h.wellFormed trivial
        fun t _ => hsame.place (h.place t)
  | constructed os p newInner process place built =>
      have hsame := sameHook_setProcess (s := s) (p := process)
        fun x hx => built.mem_eq (.inl hx)
      exact Controlled.setControl h.wellFormed
        ⟨built.wellFormed, built.notInstalled⟩
        fun t _ => hsame.place (h.place t)
  | replaced os newInner m place destroyed =>
      have hnone := hreplace newInner place
      rw [place] at hi
      refine Controlled.setControl ?_ trivial ?_
      · rw [inner_replaceInner]
        exact hi.1
      · intro t _
        exact (h.place t).of_cell?_none (hnone t)
  | framed a j owner fs move =>
      exact h.of_same (sameHook_condFrames j owner i fs)
        fun t => control_setFrames _ i fs t
  | entered a j rest place =>
      exact h.of_same (sameHook_countFrames j 1 i _)
        fun t => control_setFrames _ i _ t
  | exited a g j rest f place left =>
      exact h.of_same (sameHook_countFrames j (-1) i _)
        fun t => control_setFrames _ i _ t

/-! ## What every constructed hook satisfies -/

structure Made (P : Inner → Prop) (s : State Tid) : Prop where
  current : P s.inner
  pending : ∀ i newInner, s.control i = .changeReplace newInner → P newInner

theorem Made.setControl {P : Inner → Prop} (h : Made P s)
    (hc : ∀ newInner, c = .changeReplace newInner → P newInner) :
    Made P (s.setControl i c) := by
  refine ⟨h.current, ?_⟩
  intro t newInner ht
  by_cases hti : t = i
  · subst hti
    rw [control_setControl] at ht
    exact hc newInner ht
  · rw [control_setControl_ne s i hti] at ht
    exact h.pending t newInner ht

theorem Made.step {P : Inner → Prop} {s' : State Tid} (h : Made P s)
    (hcontrolled : s.Controlled) (hstep : Step z s i a s')
    (hflag : ∀ inner flag, P inner → P { inner with isInstalled := flag })
    (hnew : ∀ os p newInner process, s.control i = .changeConstruct p →
      Inner.NewOutcome z os s.process s.inner.name p s.inner.detourFunc
        s.inner.outputOriginalFunc (.ok newInner, process) → P newInner) :
    Made P s' := by
  have hsame : ∀ s₁ : State Tid, s₁.inner = s.inner →
      (∀ t, s₁.control t = s.control t) → Made P s₁ := by
    intro s₁ hinner hcontrol
    refine ⟨hinner ▸ h.current, ?_⟩
    intro t newInner ht
    rw [hcontrol] at ht
    exact h.pending t newInner ht
  cases hstep with
  | moved a j owner c move =>
      refine (hsame _ (inner_setCondMutex s j owner s.cur)
        fun _ => rfl).setControl ?_
      rintro newInner rfl
      generalize s.control i = c at move
      cases move
  | locked os op j place free =>
      exact (hsame _ (inner_setAccessMutex s j (some i) s.cur)
        fun _ => rfl).setControl fun _ hc => by cases hc
  | cut os op j bytes place short =>
      exact (hsame (afterStore s os j bytes) rfl
        fun _ => rfl).setControl fun _ hc => by cases hc
  | wrote os op j bytes place whole =>
      refine (hsame (afterStore s os j bytes) rfl
        fun _ => rfl).setControl fun _ hc => ?_
      cases op <;> cases hc
  | flagged os op j place =>
      have hcell : j = s.cur := (hcontrolled.place i).cell (by rw [place]; rfl)
      subst hcell
      refine Made.setControl ⟨?_, h.pending⟩ fun _ hc => by cases hc
      rw [inner_setInstalled]
      exact hflag _ _ h.current
  | unlocked os op j returns place =>
      exact (hsame _ (inner_setAccessMutex s j none s.cur)
        fun _ => rfl).setControl fun _ hc => by cases hc
  | dropped os p e process place built =>
      exact (hsame (s.setProcess process) rfl
        fun _ => rfl).setControl fun _ hc => by cases hc
  | constructed os p newInner process place built =>
      refine (hsame (s.setProcess process) rfl
        fun _ => rfl).setControl fun other hc => ?_
      cases hc
      exact hnew os p newInner process place built
  | replaced os newInner m place destroyed =>
      refine Made.setControl ⟨?_, h.pending⟩ fun _ hc => by cases hc
      rw [inner_replaceInner]
      exact h.pending i newInner place
  | framed a j owner fs move =>
      exact hsame _ (inner_setCondMutex s j owner s.cur)
        fun t => control_setFrames _ i fs t
  | entered a j rest place =>
      exact hsame _ (inner_addActive s j 1 s.cur)
        fun t => control_setFrames _ i _ t
  | exited a g j rest f place left =>
      exact hsame _ (inner_addActive s j (-1) s.cur)
        fun t => control_setFrames _ i _ t

end Step

theorem controlled_start {z : Zydis} {os : Os} {p process : Process}
    {name : String} {target detour out : Ptr} {inner : Inner}
    (h : Inner.NewOutcome z os p name target detour out
      (.ok inner, process)) : (start process inner : State Tid).Controlled :=
  ⟨h.wellFormed, fun _ => trivial⟩

theorem made_start {P : Inner → Prop} {process : Process} {inner : Inner}
    (h : P inner) : Made P (start process inner : State Tid) := by
  refine ⟨h, ?_⟩
  intro i newInner hc
  change Control.idle = .changeReplace newInner at hc
  cases hc

end State

end Concurrency

end Ztour
