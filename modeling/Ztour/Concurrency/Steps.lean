import Ztour.Concurrency.Model

/-!
# What one step of a thread can do

Every step is one of a few kinds, told apart by the shared state it changes.
All invariants are proved from this classification.
-/

namespace Ztour

open Ztour.Foundation

namespace Concurrency

variable {Tid : Type}

/-! ## Fields after an update -/

namespace State

variable (s : State Tid)

@[simp] theorem cells_setCell_self (j : Nat) (cell : Cell Tid) :
    (s.setCell j cell).cells j = cell := by
  simp [setCell]

theorem cells_setCell_field {α : Type} (field : Cell Tid → α) {j : Nat}
    {cell : Cell Tid} (h : field cell = field (s.cells j)) (k : Nat) :
    field ((s.setCell j cell).cells k) = field (s.cells k) := by
  by_cases hk : k = j
  · subst hk
    rw [cells_setCell_self, h]
  · simp [setCell, hk]

theorem inner_setCondMutex (j : Nat) (owner : Option Tid) (k : Nat) :
    ((s.setCondMutex j owner).cells k).inner = (s.cells k).inner := by
  refine cells_setCell_field s Cell.inner ?_ k
  rfl

theorem accessMutex_setCondMutex (j : Nat) (owner : Option Tid) (k : Nat) :
    ((s.setCondMutex j owner).cells k).accessMutex =
      (s.cells k).accessMutex := by
  refine cells_setCell_field s Cell.accessMutex ?_ k
  rfl

theorem numActiveCalls_setCondMutex (j : Nat) (owner : Option Tid) (k : Nat) :
    ((s.setCondMutex j owner).cells k).numActiveCalls =
      (s.cells k).numActiveCalls := by
  refine cells_setCell_field s Cell.numActiveCalls ?_ k
  rfl

theorem inner_addActive (j : Nat) (change : Int) (k : Nat) :
    ((s.addActive j change).cells k).inner = (s.cells k).inner := by
  refine cells_setCell_field s Cell.inner ?_ k
  rfl

theorem accessMutex_addActive (j : Nat) (change : Int) (k : Nat) :
    ((s.addActive j change).cells k).accessMutex = (s.cells k).accessMutex := by
  refine cells_setCell_field s Cell.accessMutex ?_ k
  rfl

theorem inner_setAccessMutex (j : Nat) (owner : Option Tid) (k : Nat) :
    ((s.setAccessMutex j owner).cells k).inner = (s.cells k).inner := by
  refine cells_setCell_field s Cell.inner ?_ k
  rfl

theorem accessMutex_setAccessMutex (j : Nat) (owner : Option Tid) :
    ((s.setAccessMutex j owner).cells j).accessMutex = owner :=
  congrArg Cell.accessMutex (cells_setCell_self s j _)

theorem numActiveCalls_setAccessMutex (j : Nat) (owner : Option Tid)
    (k : Nat) :
    ((s.setAccessMutex j owner).cells k).numActiveCalls =
      (s.cells k).numActiveCalls := by
  refine cells_setCell_field s Cell.numActiveCalls ?_ k
  rfl

theorem accessMutex_setInstalled (j : Nat) (flag : Bool) (k : Nat) :
    ((s.setInstalled j flag).cells k).accessMutex = (s.cells k).accessMutex := by
  refine cells_setCell_field s Cell.accessMutex ?_ k
  rfl

theorem numActiveCalls_setInstalled (j : Nat) (flag : Bool) (k : Nat) :
    ((s.setInstalled j flag).cells k).numActiveCalls =
      (s.cells k).numActiveCalls := by
  refine cells_setCell_field s Cell.numActiveCalls ?_ k
  rfl

theorem numActiveCalls_addActive (j : Nat) (change : Int) (k : Nat) :
    ((s.addActive j change).cells k).numActiveCalls =
      (s.cells k).numActiveCalls + if k = j then change else 0 := by
  by_cases hk : k = j
  · subst hk
    simp [addActive]
  · simp [addActive, setCell, hk]

theorem inner_setInstalled (flag : Bool) :
    (s.setInstalled s.cur flag).inner =
      { s.inner with isInstalled := flag } := by
  unfold inner setInstalled
  exact congrArg Cell.inner (cells_setCell_self s s.cur _)

@[simp] theorem inner_replaceInner (m : Mem) (newInner : Inner) :
    (s.replaceInner m newInner).inner = newInner := by
  simp [replaceInner, inner]

@[simp] theorem setCondMutex_self (j : Nat) :
    s.setCondMutex j (s.cells j).condMutex = s := by
  simp [setCondMutex, setCell]

variable [DecidableEq Tid] (i : Tid)

@[simp] theorem inner_setControl (c : Control) :
    (s.setControl i c).inner = s.inner := rfl

@[simp] theorem control_setControl (c : Control) :
    (s.setControl i c).control i = c := by
  simp [setControl, control]

theorem control_setControl_ne {t : Tid} (h : t ≠ i) (c : Control) :
    (s.setControl i c).control t = s.control t := by
  simp [setControl, control, h]

@[simp] theorem frames_setControl (c : Control) (t : Tid) :
    (s.setControl i c).frames t = s.frames t := by
  by_cases h : t = i
  · subst h
    simp [setControl, frames]
  · simp [setControl, frames, h]

@[simp] theorem frames_setFrames (fs : List Frame) :
    (s.setFrames i fs).frames i = fs := by
  simp [setFrames, frames]

theorem frames_setFrames_ne {t : Tid} (h : t ≠ i) (fs : List Frame) :
    (s.setFrames i fs).frames t = s.frames t := by
  simp [setFrames, frames, h]

@[simp] theorem control_setFrames (fs : List Frame) (t : Tid) :
    (s.setFrames i fs).control t = s.control t := by
  by_cases h : t = i
  · subst h
    simp [setFrames, control]
  · simp [setFrames, control, h]

end State

/-! ## Steps by what they change -/

/-- The steps of a control call that change no more than the call's place, a
condition mutex apart. -/
inductive ControlMove (s : State Tid) : Control → Control → Prop
  | start (op) : ControlMove s .idle (.locking op s.cur)
  | startChange (p) : ControlMove s .idle (.changeTest p)
  | refuse (op j e) (h : op.prepare (s.cells j).inner = .error e) :
      ControlMove s (.testing op j) (.unlocking op j false)
  | prepare (op j bytes) (h : op.prepare (s.cells j).inner = .ok bytes) :
      ControlMove s (.testing op j) (.writing op j bytes)
  | wait (j) : ControlMove s (.gateTest j) (.waitLock j)
  | check (j) : ControlMove s (.waitLock j) (.waitCheck j)
  | sleep (j) : ControlMove s (.waitCheck j) (.asleep j)
  | wake (j) : ControlMove s (.asleep j) (.waitLock j)
  | pass (j) (h : (s.cells j).numActiveCalls = 0) :
      ControlMove s (.gateTest j) (.flagging .uninstall j)
  | passWaiting (j) (h : (s.cells j).numActiveCalls = 0) :
      ControlMove s (.waitCheck j) (.flagging .uninstall j)
  | changeRefuse (p) : ControlMove s (.changeTest p) .idle
  | changeAllow (p) : ControlMove s (.changeTest p) (.changeConstruct p)

/-- The steps of a call of the hooked function that leave the counters. -/
inductive FrameMove (s : State Tid) : List Frame → List Frame → Prop
  | call (fs) (h : s.entryPatched = true) : FrameMove s fs (.trampoline :: fs)
  | enterFunc (fs) : FrameMove s (.trampoline :: fs) (.outerFunc :: fs)
  | readGate (fs) : FrameMove s (.outerFunc :: fs) (.entering s.cur :: fs)
  | leave (g fs) : FrameMove s (.body g :: fs) (.exiting g s.cur :: fs)
  | lock (g j fs) : FrameMove s (.locking g j :: fs) (.notifying g j :: fs)
  | notify (g j fs) :
      FrameMove s (.notifying g j :: fs) (.unlocking g j :: fs)
  | unlock (g j fs) : FrameMove s (.unlocking g j :: fs) (.returning :: fs)
  | return (fs) : FrameMove s (.returning :: fs) fs

def stored (s : State Tid) (os : Os) (j : Nat) (bytes : List Byte) : Nat :=
  os.selfMem.stored s.process.mem (s.cells j).inner.targetFunc bytes.length

def afterStore (s : State Tid) (os : Os) (j : Nat) (bytes : List Byte) :
    State Tid :=
  s.setMem (s.process.mem.write (s.cells j).inner.targetFunc
    (bytes.take (stored s os j bytes)))

theorem mem_afterStore {s : State Tid} {os : Os} {j : Nat} {bytes : List Byte}
    (whole : stored s os j bytes = bytes.length) :
    (afterStore s os j bytes).process.mem =
      s.process.mem.write (s.cells j).inner.targetFunc bytes := by
  unfold afterStore
  rw [whole, List.take_length]
  rfl

section Step

variable [DecidableEq Tid] (z : Zydis) (s : State Tid) (i : Tid)

inductive Step : Act → State Tid → Prop
  | moved (a j owner c) (move : ControlMove s (s.control i) c) :
      Step a ((s.setCondMutex j owner).setControl i c)
  | locked (os op j) (place : s.control i = .locking op j)
      (free : (s.cells j).accessMutex = none) :
      Step (.advance os)
        ((s.setAccessMutex j (some i)).setControl i (.testing op j))
  | cut (os op j bytes) (place : s.control i = .writing op j bytes)
      (short : bytes ≠ [] → stored s os j bytes ≠ bytes.length) :
      Step (.advance os)
        ((afterStore s os j bytes).setControl i (.unlocking op j false))
  | wrote (os op j bytes) (place : s.control i = .writing op j bytes)
      (whole : stored s os j bytes = bytes.length) :
      Step (.advance os)
        ((afterStore s os j bytes).setControl i (op.afterWrite j))
  | flagged (os op j) (place : s.control i = .flagging op j) :
      Step (.advance os)
        ((s.setInstalled j op.flag).setControl i (.unlocking op j true))
  | unlocked (os op j returns) (place : s.control i = .unlocking op j returns) :
      Step (.advance os) ((s.setAccessMutex j none).setControl i .idle)
  | dropped (os p e process) (place : s.control i = .changeConstruct p)
      (built : Inner.NewOutcome z os s.process s.inner.name p
        s.inner.detourFunc s.inner.outputOriginalFunc (.error e, process)) :
      Step (.advance os) ((s.setProcess process).setControl i .idle)
  | constructed (os p newInner process)
      (place : s.control i = .changeConstruct p)
      (built : Inner.NewOutcome z os s.process s.inner.name p
        s.inner.detourFunc s.inner.outputOriginalFunc
        (.ok newInner, process)) :
      Step (.advance os)
        ((s.setProcess process).setControl i (.changeReplace newInner))
  | replaced (os newInner m) (place : s.control i = .changeReplace newInner)
      (destroyed : s.inner.destroy os s.process.mem = .ok m) :
      Step (.advance os) ((s.replaceInner m newInner).setControl i .idle)
  | framed (a j owner fs) (move : FrameMove s (s.frames i) fs) :
      Step a ((s.setCondMutex j owner).setFrames i fs)
  | entered (a j rest) (place : s.frames i = .entering j :: rest) :
      Step a ((s.addActive j 1).setFrames i (.body j :: rest))
  | exited (a g j rest f) (place : s.frames i = .exiting g j :: rest)
      (left : f = .locking g j ∨ f = .returning) :
      Step a ((s.addActive j (-1)).setFrames i (f :: rest))

end Step

section Classification

variable [DecidableEq Tid] {z : Zydis} {s s' : State Tid} {i : Tid} {a : Act}

theorem Step.moved_only {c : Control} (move : ControlMove s (s.control i) c) :
    Step z s i a (s.setControl i c) := by
  have h := Step.moved (z := z) a 0 (s.cells 0).condMutex c move
  rwa [State.setCondMutex_self] at h

theorem Step.framed_only {fs : List Frame} (move : FrameMove s (s.frames i) fs) :
    Step z s i a (s.setFrames i fs) := by
  have h := Step.framed (z := z) a 0 (s.cells 0).condMutex fs move
  rwa [State.setCondMutex_self] at h

theorem Step.moved_cond {j : Nat} {owner : Option Tid} {c : Control}
    (move : ControlMove s (s.control i) c) :
    Step z s i a ((s.setCondMutex j owner).setControl i c) :=
  .moved a j owner c move

theorem writing_step {os : Os} {op : ControlOp} {j : Nat} {bytes : List Byte}
    (hplace : s.control i = .writing op j bytes)
    (h : stepControl z os s i (.writing op j bytes) = some s') :
    Step z s i (.advance os) s' := by
  have hmem := overwriteExecutableMem_mem os s.process.mem bytes
    (s.cells j).inner.targetFunc
  have hok := overwriteExecutableMem_eq_ok os s.process.mem bytes
    (s.cells j).inner.targetFunc
  have hshort := overwriteExecutableMem_short os s.process.mem bytes
    (s.cells j).inner.targetFunc
  simp only [stepControl] at h
  generalize overwriteExecutableMem os s.process.mem bytes
    (s.cells j).inner.targetFunc = written at hmem hok hshort h
  obtain ⟨res, m⟩ := written
  dsimp only at hmem hok hshort h
  subst hmem
  cases res with
  | error e =>
      cases h
      exact .cut os op j bytes hplace (hshort e rfl)
  | ok u =>
      cases h
      exact .wrote os op j bytes hplace (hok rfl).1

theorem constructing_step (hz : z.Lawful) {os : Os} {p : Ptr}
    (hplace : s.control i = .changeConstruct p)
    (h : stepControl z os s i (.changeConstruct p) = some s') :
    Step z s i (.advance os) s' := by
  have hnew := Inner.new_outcome hz os s.process s.inner.name p
    s.inner.detourFunc s.inner.outputOriginalFunc
  simp only [stepControl] at h
  generalize Inner.new z os s.process s.inner.name p s.inner.detourFunc
    s.inner.outputOriginalFunc = result at hnew h
  obtain ⟨res, process⟩ := result
  cases res with
  | ok newInner =>
      cases h
      exact .constructed os p newInner process hplace hnew
  | error e =>
      cases e with
      | thrown what =>
          cases h
          exact .dropped os p _ process hplace hnew
      | fault address => cases h
      | aborted => cases h
      | outOfFuel => cases h

theorem stepControl_step (hz : z.Lawful) {os : Os} {c : Control}
    (hplace : s.control i = c) (h : stepControl z os s i c = some s') :
    Step z s i (.advance os) s' := by
  cases c with
  | idle => cases h
  | locking op j =>
      simp only [stepControl] at h
      split at h
      · rename_i hfree
        cases h
        exact .locked os op j hplace (Option.isNone_iff_eq_none.mp hfree)
      · cases h
  | testing op j =>
      simp only [stepControl] at h
      cases hprep : op.prepare (s.cells j).inner with
      | error e =>
          rw [hprep] at h
          cases h
          exact Step.moved_only (hplace ▸ .refuse op j e hprep)
      | ok bytes =>
          rw [hprep] at h
          cases h
          exact Step.moved_only (hplace ▸ .prepare op j bytes hprep)
  | writing op j bytes => exact writing_step hplace h
  | gateTest j =>
      simp only [stepControl] at h
      split at h
      · rename_i hzero
        cases h
        exact Step.moved_only (hplace ▸ .pass j hzero)
      · cases h
        exact Step.moved_only (hplace ▸ .wait j)
  | waitLock j =>
      simp only [stepControl] at h
      split at h
      · cases h
        exact Step.moved_cond (hplace ▸ .check j)
      · cases h
  | waitCheck j =>
      simp only [stepControl] at h
      split at h
      · rename_i hzero
        cases h
        exact Step.moved_cond (hplace ▸ .passWaiting j hzero)
      · cases h
        exact Step.moved_cond (hplace ▸ .sleep j)
  | asleep j =>
      cases h
      exact Step.moved_only (hplace ▸ .wake j)
  | flagging op j =>
      cases h
      exact .flagged os op j hplace
  | unlocking op j returns =>
      cases h
      exact .unlocked os op j returns hplace
  | changeTest p =>
      simp only [stepControl] at h
      split at h
      · cases h
        exact Step.moved_only (hplace ▸ .changeRefuse p)
      · cases h
        exact Step.moved_only (hplace ▸ .changeAllow p)
  | changeConstruct p => exact constructing_step hz hplace h
  | changeReplace newInner =>
      simp only [stepControl] at h
      split at h
      · rename_i m hdestroy
        cases h
        exact .replaced os newInner m hplace hdestroy
      · cases h

theorem stepFrame_step {f : Frame} {rest : List Frame}
    (hplace : s.frames i = f :: rest) (h : stepFrame s i rest f = some s') :
    Step z s i a s' := by
  cases f with
  | trampoline =>
      cases h
      exact Step.framed_only (hplace ▸ .enterFunc rest)
  | outerFunc =>
      cases h
      exact Step.framed_only (hplace ▸ .readGate rest)
  | entering j =>
      cases h
      exact .entered a j rest hplace
  | body g =>
      cases h
      exact Step.framed_only (hplace ▸ .leave g rest)
  | exiting g j =>
      simp only [stepFrame] at h
      split at h
      · cases h
        exact .exited a g j rest _ hplace (.inl rfl)
      · cases h
        exact .exited a g j rest _ hplace (.inr rfl)
  | locking g j =>
      simp only [stepFrame] at h
      split at h
      · cases h
        exact .framed a j (some i) _ (hplace ▸ .lock g j rest)
      · cases h
  | notifying g j =>
      cases h
      exact Step.framed_only (hplace ▸ .notify g j rest)
  | unlocking g j =>
      cases h
      exact .framed a j none _ (hplace ▸ .unlock g j rest)
  | returning =>
      cases h
      exact Step.framed_only (hplace ▸ .return rest)

theorem next_step (hz : z.Lawful) (h : next z s (i, a) = some s') :
    s.aborted = false ∧ Step z s i a s' := by
  unfold next at h
  split at h
  · cases h
  · rename_i haborted
    refine ⟨by simpa using haborted, ?_⟩
    cases a with
    | start op =>
        dsimp only at h
        split at h
        · rename_i hfree
          have hidle : s.control i = .idle := by
            simpa [State.free] using (Bool.and_eq_true_iff.mp hfree).1
          cases h
          exact Step.moved_only (hidle ▸ .start op)
        · cases h
    | startChange p =>
        dsimp only at h
        split at h
        · rename_i hfree
          have hidle : s.control i = .idle := by
            simpa [State.free] using (Bool.and_eq_true_iff.mp hfree).1
          cases h
          exact Step.moved_only (hidle ▸ .startChange p)
        · cases h
    | advance os => exact stepControl_step hz rfl h
    | call =>
        dsimp only at h
        split at h
        · rename_i henter
          cases h
          exact Step.framed_only
            (.call _ (Bool.and_eq_true_iff.mp henter).2)
        · cases h
    | frame =>
        dsimp only at h
        split at h
        · cases hframes : s.frames i with
          | nil =>
              rw [hframes] at h
              cases h
          | cons f rest =>
              rw [hframes] at h
              exact stepFrame_step hframes h
        · cases h

theorem replaced_of_cur_ne (hstep : Step z s i a s') (hcur : s'.cur ≠ s.cur) :
    ∃ newInner, s.control i = .changeReplace newInner := by
  cases hstep with
  | replaced os newInner m place destroyed => exact ⟨newInner, place⟩
  | moved | locked | cut | wrote | flagged | unlocked | dropped | constructed
  | framed | entered | exited => exact absurd rfl hcur

end Classification

end Concurrency

end Ztour
