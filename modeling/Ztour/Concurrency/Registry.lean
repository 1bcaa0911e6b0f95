import Ztour.Concurrency.Model
import Ztour.HookInst.ControlFlow

/-!
# Many hooks and many threads

Threads install and uninstall single hooks, all hooks of the registry at once,
look hooks up by name, and do so from detours as well.  An uninstall waits at a
call gate until it sees the counter at 0 with the gate's mutex.  The registry
does not change, since no hook is created or retargeted meanwhile.
-/

namespace Ztour

open Ztour.Foundation

namespace Registry

open Concurrency TransitionSystem

/-! ## Where a thread is -/

/-- A call of `install` or `uninstall`.  One that `set_all_hooks_installed` makes
keeps the hooks of the loop that are still to come and `num_changed`. -/
structure OpCall (Inst : Type) where
  op : ControlOp
  inst : Inst
  bulk : Option (List Inst × Nat)
  deriving DecidableEq

inductive Control (Inst : Type) where
  | idle
  | locking (c : OpCall Inst)
  | testing (c : OpCall Inst)
  | writing (c : OpCall Inst) (bytes : List Byte)
  | gateTest (c : OpCall Inst)
  | waiting (c : OpCall Inst)
  | flagging (c : OpCall Inst)
  | unlocking (c : OpCall Inst) (returns : Bool)
  | bulkLocking (op : ControlOp)
  | bulkTesting (op : ControlOp) (rest : List Inst) (numChanged : Nat)
  | bulkUnlocking (op : ControlOp) (result : Option Nat)
  | lookupLocking
  | lookupUnlocking
  deriving DecidableEq

/-- The place of a call of a hooked function.  The last four are on its way out,
after the gate has counted it off. -/
inductive Frame (Inst : Type) where
  | entering (inst : Inst)
  | body (inst : Inst)
  | locking (inst : Inst)
  | notifying (inst : Inst)
  | unlocking (inst : Inst)
  | returning (inst : Inst)
  deriving DecidableEq, Repr

structure Thread (Inst : Type) where
  control : Control Inst
  frames : List (Frame Inst)

structure Cell (Tid : Type) where
  inner : Inner
  accessMutex : Option Tid
  condMutex : Option Tid
  numActiveCalls : Nat

structure State (Tid Inst : Type) where
  mem : Mem
  cells : Inst → Cell Tid
  registryMutex : Option Tid
  threads : Tid → Thread Inst

variable {Tid Inst : Type}

namespace State

variable (s : State Tid Inst)

def control (i : Tid) : Control Inst := (s.threads i).control

def frames (i : Tid) : List (Frame Inst) := (s.threads i).frames

def isInstalled (j : Inst) : Bool := (s.cells j).inner.isInstalled

@[simps]
def setMem (m : Mem) : State Tid Inst := { s with mem := m }

@[simps]
def setRegistryMutex (owner : Option Tid) : State Tid Inst :=
  { s with registryMutex := owner }

section Cells

variable [DecidableEq Inst]

@[simps]
def setCell (j : Inst) (cell : Cell Tid) : State Tid Inst :=
  { s with cells := Function.update s.cells j cell }

def setInstalled (j : Inst) (flag : Bool) : State Tid Inst :=
  s.setCell j { s.cells j with
    inner := { (s.cells j).inner with isInstalled := flag } }

def setAccessMutex (j : Inst) (owner : Option Tid) : State Tid Inst :=
  s.setCell j { s.cells j with accessMutex := owner }

def setCondMutex (j : Inst) (owner : Option Tid) : State Tid Inst :=
  s.setCell j { s.cells j with condMutex := owner }

def setActive (j : Inst) (numActiveCalls : Nat) : State Tid Inst :=
  s.setCell j { s.cells j with numActiveCalls }

end Cells

section Threads

variable [DecidableEq Tid]

@[simps]
def setControl (i : Tid) (control : Control Inst) : State Tid Inst :=
  { s with
    threads := Function.update s.threads i
      { s.threads i with control := control } }

@[simps]
def setFrames (i : Tid) (frames : List (Frame Inst)) : State Tid Inst :=
  { s with
    threads := Function.update s.threads i
      { s.threads i with frames := frames } }

end Threads

end State

/-! ## Fields after an update -/

namespace State

variable (s : State Tid Inst)

section Cells

variable [DecidableEq Inst]

@[simp] theorem cells_setCell_self (j : Inst) (cell : Cell Tid) :
    (s.setCell j cell).cells j = cell := by
  simp

theorem cells_setCell_ne {j k : Inst} (h : k ≠ j) (cell : Cell Tid) :
    (s.setCell j cell).cells k = s.cells k := by
  simp [h]

theorem cells_setCell_field {α : Type} (field : Cell Tid → α) {j : Inst}
    {cell : Cell Tid} (h : field cell = field (s.cells j)) (k : Inst) :
    field ((s.setCell j cell).cells k) = field (s.cells k) := by
  by_cases hk : k = j
  · subst hk
    rw [cells_setCell_self, h]
  · rw [cells_setCell_ne s hk]

@[simp] theorem accessMutex_setInstalled (j : Inst) (flag : Bool) (k : Inst) :
    ((s.setInstalled j flag).cells k).accessMutex = (s.cells k).accessMutex := by
  apply cells_setCell_field s Cell.accessMutex
  rfl

@[simp] theorem accessMutex_setActive (j : Inst) (n : Nat) (k : Inst) :
    ((s.setActive j n).cells k).accessMutex = (s.cells k).accessMutex := by
  apply cells_setCell_field s Cell.accessMutex
  rfl

@[simp] theorem accessMutex_setCondMutex (j : Inst) (owner : Option Tid)
    (k : Inst) : ((s.setCondMutex j owner).cells k).accessMutex =
      (s.cells k).accessMutex := by
  apply cells_setCell_field s Cell.accessMutex
  rfl

@[simp] theorem condMutex_setAccessMutex (j : Inst) (owner : Option Tid)
    (k : Inst) : ((s.setAccessMutex j owner).cells k).condMutex =
      (s.cells k).condMutex := by
  apply cells_setCell_field s Cell.condMutex
  rfl

@[simp] theorem condMutex_setInstalled (j : Inst) (flag : Bool) (k : Inst) :
    ((s.setInstalled j flag).cells k).condMutex = (s.cells k).condMutex := by
  apply cells_setCell_field s Cell.condMutex
  rfl

@[simp] theorem condMutex_setActive (j : Inst) (n : Nat) (k : Inst) :
    ((s.setActive j n).cells k).condMutex = (s.cells k).condMutex := by
  apply cells_setCell_field s Cell.condMutex
  rfl

@[simp] theorem inner_setAccessMutex (j : Inst) (owner : Option Tid) (k : Inst) :
    ((s.setAccessMutex j owner).cells k).inner = (s.cells k).inner := by
  apply cells_setCell_field s Cell.inner
  rfl

@[simp] theorem inner_setCondMutex (j : Inst) (owner : Option Tid) (k : Inst) :
    ((s.setCondMutex j owner).cells k).inner = (s.cells k).inner := by
  apply cells_setCell_field s Cell.inner
  rfl

@[simp] theorem inner_setActive (j : Inst) (n : Nat) (k : Inst) :
    ((s.setActive j n).cells k).inner = (s.cells k).inner := by
  apply cells_setCell_field s Cell.inner
  rfl

@[simp] theorem numActiveCalls_setAccessMutex (j : Inst) (owner : Option Tid)
    (k : Inst) : ((s.setAccessMutex j owner).cells k).numActiveCalls =
      (s.cells k).numActiveCalls := by
  apply cells_setCell_field s Cell.numActiveCalls
  rfl

@[simp] theorem numActiveCalls_setCondMutex (j : Inst) (owner : Option Tid)
    (k : Inst) : ((s.setCondMutex j owner).cells k).numActiveCalls =
      (s.cells k).numActiveCalls := by
  apply cells_setCell_field s Cell.numActiveCalls
  rfl

@[simp] theorem numActiveCalls_setInstalled (j : Inst) (flag : Bool)
    (k : Inst) : ((s.setInstalled j flag).cells k).numActiveCalls =
      (s.cells k).numActiveCalls := by
  apply cells_setCell_field s Cell.numActiveCalls
  rfl

@[simp] theorem accessMutex_setAccessMutex_self (j : Inst)
    (owner : Option Tid) :
    ((s.setAccessMutex j owner).cells j).accessMutex = owner :=
  congrArg Cell.accessMutex (cells_setCell_self s j _)

theorem accessMutex_setAccessMutex_ne {j k : Inst} (h : k ≠ j)
    (owner : Option Tid) :
    ((s.setAccessMutex j owner).cells k).accessMutex =
      (s.cells k).accessMutex :=
  congrArg Cell.accessMutex (cells_setCell_ne s h _)

@[simp] theorem condMutex_setCondMutex_self (j : Inst) (owner : Option Tid) :
    ((s.setCondMutex j owner).cells j).condMutex = owner :=
  congrArg Cell.condMutex (cells_setCell_self s j _)

theorem condMutex_setCondMutex_ne {j k : Inst} (h : k ≠ j)
    (owner : Option Tid) :
    ((s.setCondMutex j owner).cells k).condMutex = (s.cells k).condMutex :=
  congrArg Cell.condMutex (cells_setCell_ne s h _)

@[simp] theorem numActiveCalls_setActive_self (j : Inst) (n : Nat) :
    ((s.setActive j n).cells j).numActiveCalls = n :=
  congrArg Cell.numActiveCalls (cells_setCell_self s j _)

theorem numActiveCalls_setActive_ne {j k : Inst} (h : k ≠ j) (n : Nat) :
    ((s.setActive j n).cells k).numActiveCalls = (s.cells k).numActiveCalls :=
  congrArg Cell.numActiveCalls (cells_setCell_ne s h _)

@[simp] theorem isInstalled_setInstalled_self (j : Inst) (flag : Bool) :
    (s.setInstalled j flag).isInstalled j = flag :=
  congrArg (fun cell => cell.inner.isInstalled) (cells_setCell_self s j _)

@[simp] theorem control_setInstalled (j : Inst) (flag : Bool) :
    (s.setInstalled j flag).control = s.control := rfl

@[simp] theorem control_setAccessMutex (j : Inst) (owner : Option Tid) :
    (s.setAccessMutex j owner).control = s.control := rfl

@[simp] theorem control_setCondMutex (j : Inst) (owner : Option Tid) :
    (s.setCondMutex j owner).control = s.control := rfl

@[simp] theorem control_setActive (j : Inst) (n : Nat) :
    (s.setActive j n).control = s.control := rfl

@[simp] theorem frames_setInstalled (j : Inst) (flag : Bool) :
    (s.setInstalled j flag).frames = s.frames := rfl

@[simp] theorem frames_setAccessMutex (j : Inst) (owner : Option Tid) :
    (s.setAccessMutex j owner).frames = s.frames := rfl

@[simp] theorem frames_setCondMutex (j : Inst) (owner : Option Tid) :
    (s.setCondMutex j owner).frames = s.frames := rfl

@[simp] theorem frames_setActive (j : Inst) (n : Nat) :
    (s.setActive j n).frames = s.frames := rfl

@[simp] theorem registryMutex_setInstalled (j : Inst) (flag : Bool) :
    (s.setInstalled j flag).registryMutex = s.registryMutex := rfl

@[simp] theorem registryMutex_setAccessMutex (j : Inst) (owner : Option Tid) :
    (s.setAccessMutex j owner).registryMutex = s.registryMutex := rfl

@[simp] theorem registryMutex_setCondMutex (j : Inst) (owner : Option Tid) :
    (s.setCondMutex j owner).registryMutex = s.registryMutex := rfl

@[simp] theorem registryMutex_setActive (j : Inst) (n : Nat) :
    (s.setActive j n).registryMutex = s.registryMutex := rfl

end Cells

@[simp] theorem control_setMem (m : Mem) : (s.setMem m).control = s.control :=
  rfl

@[simp] theorem frames_setMem (m : Mem) : (s.setMem m).frames = s.frames := rfl

@[simp] theorem control_setRegistryMutex (owner : Option Tid) :
    (s.setRegistryMutex owner).control = s.control := rfl

@[simp] theorem frames_setRegistryMutex (owner : Option Tid) :
    (s.setRegistryMutex owner).frames = s.frames := rfl

section Threads

variable [DecidableEq Tid] (i : Tid)

@[simp] theorem control_setControl_self (q : Control Inst) :
    (s.setControl i q).control i = q := by
  simp [control]

theorem control_setControl_ne {t : Tid} (h : t ≠ i) (q : Control Inst) :
    (s.setControl i q).control t = s.control t := by
  simp [control, h]

@[simp] theorem frames_setControl (q : Control Inst) :
    (s.setControl i q).frames = s.frames := by
  funext t
  by_cases h : t = i
  · subst h
    simp [frames]
  · simp [frames, h]

@[simp] theorem frames_setFrames_self (fs : List (Frame Inst)) :
    (s.setFrames i fs).frames i = fs := by
  simp [frames]

theorem frames_setFrames_ne {t : Tid} (h : t ≠ i) (fs : List (Frame Inst)) :
    (s.setFrames i fs).frames t = s.frames t := by
  simp [frames, h]

@[simp] theorem control_setFrames (fs : List (Frame Inst)) :
    (s.setFrames i fs).control = s.control := by
  funext t
  by_cases h : t = i
  · subst h
    simp [control]
  · simp [control, h]

end Threads

end State

/-! ## Steps -/

namespace OpCall

def afterWrite (c : OpCall Inst) : Control Inst :=
  match c.op with
  | .install => .flagging c
  | .uninstall => .gateTest c

/-- A single call comes back to its caller; in a bulk call the loop goes on, or
the exception leaves it. -/
def afterUnlock (c : OpCall Inst) (returns : Bool) : Control Inst :=
  match c.bulk, returns with
  | none, _ => .idle
  | some (rest, numChanged), true => .bulkTesting c.op rest (numChanged + 1)
  | some _, false => .bulkUnlocking c.op none

end OpCall

section Steps

variable [DecidableEq Tid] [DecidableEq Inst] (registry : List Inst)

def stepControl (os : Os) (s : State Tid Inst) (i : Tid) :
    Control Inst → Option (State Tid Inst)
  | .idle => none
  | .locking c =>
      if (s.cells c.inst).accessMutex.isNone then
        some ((s.setAccessMutex c.inst (some i)).setControl i (.testing c))
      else none
  | .testing c =>
      match c.op.prepare (s.cells c.inst).inner with
      | .error _ => some (s.setControl i (.unlocking c false))
      | .ok bytes => some (s.setControl i (.writing c bytes))
  | .writing c bytes =>
      match overwriteExecutableMem os s.mem bytes
          (s.cells c.inst).inner.targetFunc with
      | (.error _, m) =>
          some ((s.setMem m).setControl i (.unlocking c false))
      | (.ok (), m) => some ((s.setMem m).setControl i c.afterWrite)
  | .gateTest c =>
      if (s.cells c.inst).numActiveCalls = 0 then
        some (s.setControl i (.flagging c))
      else some (s.setControl i (.waiting c))
  | .waiting c =>
      -- the counter is read with the mutex, which is given back at once
      if (s.cells c.inst).numActiveCalls = 0 ∧
          (s.cells c.inst).condMutex.isNone then
        some (s.setControl i (.flagging c))
      else none
  | .flagging c =>
      some ((s.setInstalled c.inst c.op.flag).setControl i
        (.unlocking c true))
  | .unlocking c returns =>
      some ((s.setAccessMutex c.inst none).setControl i
        (c.afterUnlock returns))
  | .bulkLocking op =>
      if s.registryMutex.isNone then
        some ((s.setRegistryMutex (some i)).setControl i
          (.bulkTesting op registry 0))
      else none
  | .bulkTesting op [] numChanged =>
      some (s.setControl i (.bulkUnlocking op (some numChanged)))
  | .bulkTesting op (j :: rest) numChanged =>
      -- the flag is read without the hook's mutex
      if s.isInstalled j ≠ op.flag then
        some (s.setControl i (.locking ⟨op, j, some (rest, numChanged)⟩))
      else some (s.setControl i (.bulkTesting op rest numChanged))
  | .bulkUnlocking _ _ => some ((s.setRegistryMutex none).setControl i .idle)
  | .lookupLocking =>
      if s.registryMutex.isNone then
        some ((s.setRegistryMutex (some i)).setControl i .lookupUnlocking)
      else none
  | .lookupUnlocking => some ((s.setRegistryMutex none).setControl i .idle)

/-- The next step of a call of a hooked function, from the `fetch_add` of its
scope guard on. -/
def stepFrame (s : State Tid Inst) (i : Tid) (rest : List (Frame Inst)) :
    Frame Inst → Option (State Tid Inst)
  | .entering j =>
      some ((s.setActive j ((s.cells j).numActiveCalls + 1)).setFrames i
        (.body j :: rest))
  | .body j =>
      let remaining := (s.cells j).numActiveCalls - 1
      if remaining = 0 then
        some ((s.setActive j remaining).setFrames i (.locking j :: rest))
      else some ((s.setActive j remaining).setFrames i (.returning j :: rest))
  | .locking j =>
      if (s.cells j).condMutex.isNone then
        some ((s.setCondMutex j (some i)).setFrames i (.notifying j :: rest))
      else none
  | .notifying j => some (s.setFrames i (.unlocking j :: rest))
  | .unlocking j =>
      some ((s.setCondMutex j none).setFrames i (.returning j :: rest))
  | .returning _ => some (s.setFrames i rest)

def Frame.isBody : Frame Inst → Bool
  | .body _ => true
  | _ => false

def State.inUserCode (s : State Tid Inst) (i : Tid) : Bool :=
  (s.frames i).head?.all Frame.isBody

/-- Outside the library's code, its own calls and those of hooked functions. -/
def State.free (s : State Tid Inst) (i : Tid) : Bool :=
  s.control i = .idle && s.inUserCode i

def State.entryPatched (s : State Tid Inst) (j : Inst) : Bool :=
  let inner := (s.cells j).inner
  inner.targetFunc ≠ 0 && s.mem.read inner.targetFunc 5 =
    some (relJumpBytes inner.targetFunc inner.codeEnterDetour)

inductive Act (Inst : Type) where
  | startOp (op : ControlOp) (inst : Inst)
  | startBulk (op : ControlOp)
  | startLookup
  | advance (os : Os)
  | call (inst : Inst)
  | frame

def Act.isFrame : Act Inst → Bool
  | call _ | frame => true
  | _ => false

/-- The state after thread `e.1` takes the step `e.2`, if it can.  `is_installed`
changes nothing and waits for nothing, and is no step. -/
def next (s : State Tid Inst) (e : Tid × Act Inst) : Option (State Tid Inst) :=
  match e.2 with
  | .startOp op j =>
      if s.free e.1 then some (s.setControl e.1 (.locking ⟨op, j, none⟩))
      else none
  | .startBulk op =>
      if s.free e.1 then some (s.setControl e.1 (.bulkLocking op)) else none
  | .startLookup =>
      if s.free e.1 then some (s.setControl e.1 .lookupLocking) else none
  | .advance os => stepControl registry os s e.1 (s.control e.1)
  | .call j =>
      if s.free e.1 && s.entryPatched j then
        some (s.setFrames e.1 (.entering j :: s.frames e.1))
      else none
  | .frame =>
      if s.control e.1 = .idle then
        match s.frames e.1 with
        | [] => none
        | f :: rest => stepFrame s e.1 rest f
      else none

end Steps

def start (m : Mem) (inner : Inst → Inner) : State Tid Inst where
  mem := m
  cells := fun j =>
    { inner := inner j, accessMutex := none, condMutex := none,
      numActiveCalls := 0 }
  registryMutex := none
  threads := fun _ => { control := .idle, frames := [] }

/-- All runs of threads on the hooks of a registry, which are installed or not
at first. -/
def registrySystem [DecidableEq Tid] [DecidableEq Inst]
    (registry : List Inst) (inner : Inst → Inner) :
    TransitionSystem (State Tid Inst) (Tid × Act Inst) where
  init s := ∃ m, s = start m inner
  step s e s' := next registry s e = some s'

/-! ## What a step can do -/

section Transitions

variable [DecidableEq Tid] [DecidableEq Inst]

inductive FrameTransition (s : State Tid Inst) (i : Tid) : State Tid Inst → Prop
  | call {j} (outside : s.inUserCode i = true)
      (patched : s.entryPatched j = true) :
      FrameTransition s i (s.setFrames i (.entering j :: s.frames i))
  | enter {j rest} (top : s.frames i = .entering j :: rest) :
      FrameTransition s i
        ((s.setActive j ((s.cells j).numActiveCalls + 1)).setFrames i
          (.body j :: rest))
  | leave {j f rest} (top : s.frames i = .body j :: rest)
      (out : f = .locking j ∨ f = .returning j) :
      FrameTransition s i
        ((s.setActive j ((s.cells j).numActiveCalls - 1)).setFrames i
          (f :: rest))
  | lockGate {j rest} (top : s.frames i = .locking j :: rest)
      (available : (s.cells j).condMutex = none) :
      FrameTransition s i
        ((s.setCondMutex j (some i)).setFrames i (.notifying j :: rest))
  | notify {j rest} (top : s.frames i = .notifying j :: rest) :
      FrameTransition s i (s.setFrames i (.unlocking j :: rest))
  | unlockGate {j rest} (top : s.frames i = .unlocking j :: rest) :
      FrameTransition s i
        ((s.setCondMutex j none).setFrames i (.returning j :: rest))
  | ret {j rest} (top : s.frames i = .returning j :: rest) :
      FrameTransition s i (s.setFrames i rest)

inductive Transition (registry : List Inst) (s : State Tid Inst) (i : Tid)
    (a : Act Inst) : State Tid Inst → Prop
  | start {q} (here : s.control i = .idle) (outside : s.inUserCode i = true)
      (there : (∃ op j, q = .locking ⟨op, j, none⟩) ∨
        (∃ op, q = .bulkLocking op) ∨ q = .lookupLocking) :
      Transition registry s i a (s.setControl i q)
  | lock {c} (here : s.control i = .locking c)
      (available : (s.cells c.inst).accessMutex = none) :
      Transition registry s i a
        ((s.setAccessMutex c.inst (some i)).setControl i (.testing c))
  | refuse {c e} (here : s.control i = .testing c)
      (refused : c.op.prepare (s.cells c.inst).inner = .error e) :
      Transition registry s i a (s.setControl i (.unlocking c false))
  | prepare {c bytes} (here : s.control i = .testing c)
      (ready : c.op.prepare (s.cells c.inst).inner = .ok bytes) :
      Transition registry s i a (s.setControl i (.writing c bytes))
  | writeFail {c bytes os e m} (act : a = .advance os)
      (here : s.control i = .writing c bytes)
      (failed : overwriteExecutableMem os s.mem bytes
        (s.cells c.inst).inner.targetFunc = (.error e, m)) :
      Transition registry s i a ((s.setMem m).setControl i (.unlocking c false))
  | write {c bytes os m} (act : a = .advance os)
      (here : s.control i = .writing c bytes)
      (wrote : overwriteExecutableMem os s.mem bytes
        (s.cells c.inst).inner.targetFunc = (.ok (), m)) :
      Transition registry s i a ((s.setMem m).setControl i c.afterWrite)
  | pass {c} (here : s.control i = .gateTest c ∨ s.control i = .waiting c)
      (unused : (s.cells c.inst).numActiveCalls = 0)
      (available : s.control i = .waiting c →
        (s.cells c.inst).condMutex = none) :
      Transition registry s i a (s.setControl i (.flagging c))
  | wait {c} (here : s.control i = .gateTest c)
      (used : (s.cells c.inst).numActiveCalls ≠ 0) :
      Transition registry s i a (s.setControl i (.waiting c))
  | setFlag {c} (here : s.control i = .flagging c) :
      Transition registry s i a
        ((s.setInstalled c.inst c.op.flag).setControl i (.unlocking c true))
  | unlock {c returns} (here : s.control i = .unlocking c returns) :
      Transition registry s i a
        ((s.setAccessMutex c.inst none).setControl i (c.afterUnlock returns))
  | lockRegistry {q} (free : s.registryMutex = none)
      (path : (∃ op, s.control i = .bulkLocking op ∧
          q = .bulkTesting op registry 0) ∨
        (s.control i = .lookupLocking ∧ q = .lookupUnlocking)) :
      Transition registry s i a ((s.setRegistryMutex (some i)).setControl i q)
  | skip {op j rest numChanged}
      (here : s.control i = .bulkTesting op (j :: rest) numChanged)
      (same : s.isInstalled j = op.flag) :
      Transition registry s i a (s.setControl i (.bulkTesting op rest numChanged))
  | visit {op j rest numChanged}
      (here : s.control i = .bulkTesting op (j :: rest) numChanged)
      (differs : s.isInstalled j ≠ op.flag) :
      Transition registry s i a
        (s.setControl i (.locking ⟨op, j, some (rest, numChanged)⟩))
  | finish {op numChanged} (here : s.control i = .bulkTesting op [] numChanged) :
      Transition registry s i a
        (s.setControl i (.bulkUnlocking op (some numChanged)))
  | unlockRegistry (here : (∃ op r, s.control i = .bulkUnlocking op r) ∨
        s.control i = .lookupUnlocking) :
      Transition registry s i a ((s.setRegistryMutex none).setControl i .idle)
  | frame {s'} (here : s.control i = .idle) (step : FrameTransition s i s') :
      Transition registry s i a s'

variable {registry : List Inst} {s s' : State Tid Inst} {i : Tid}

namespace FrameTransition

theorem control_eq (h : FrameTransition s i s') : s'.control = s.control := by
  cases h <;> simp

theorem mem_eq (h : FrameTransition s i s') : s'.mem = s.mem := by
  cases h <;> rfl

theorem registryMutex_eq (h : FrameTransition s i s') :
    s'.registryMutex = s.registryMutex := by
  cases h <;> rfl

theorem accessMutex_eq (h : FrameTransition s i s') (j : Inst) :
    (s'.cells j).accessMutex = (s.cells j).accessMutex := by
  cases h <;> simp

theorem inner_eq (h : FrameTransition s i s') (j : Inst) :
    (s'.cells j).inner = (s.cells j).inner := by
  cases h <;> simp

end FrameTransition

omit [DecidableEq Tid] in
theorem State.free_iff :
    s.free i = true ↔ s.control i = .idle ∧ s.inUserCode i = true := by
  simp [State.free]

omit [DecidableEq Tid] in
theorem State.control_of_free (h : s.free i = true) : s.control i = .idle :=
  (State.free_iff.mp h).1

theorem stepFrame_transition {f : Frame Inst} {rest : List (Frame Inst)}
    (top : s.frames i = f :: rest) (h : stepFrame s i rest f = some s') :
    FrameTransition s i s' := by
  cases f with
  | entering j =>
      cases h
      exact .enter top
  | body j =>
      simp only [stepFrame] at h
      split at h
      · cases h
        exact .leave top (.inl rfl)
      · cases h
        exact .leave top (.inr rfl)
  | locking j =>
      simp only [stepFrame, Option.isNone_iff_eq_none,
        Option.ite_none_right_eq_some, Option.some.injEq] at h
      rw [← h.2]
      exact .lockGate top h.1
  | notifying j =>
      cases h
      exact .notify top
  | unlocking j =>
      cases h
      exact .unlockGate top
  | returning j =>
      cases h
      exact .ret top

theorem stepControl_transition {os : Os} {p : Control Inst}
    (hp : s.control i = p) (h : stepControl registry os s i p = some s') :
    Transition registry s i (.advance os) s' := by
  cases p with
  | idle => simp [stepControl] at h
  | locking c =>
      simp only [stepControl, Option.isNone_iff_eq_none,
        Option.ite_none_right_eq_some, Option.some.injEq] at h
      rw [← h.2]
      exact .lock hp h.1
  | testing c =>
      simp only [stepControl] at h
      split at h
      · rename_i hrefused
        cases h
        exact .refuse hp hrefused
      · rename_i hready
        cases h
        exact .prepare hp hready
  | writing c bytes =>
      simp only [stepControl] at h
      split at h
      · rename_i hfailed
        cases h
        exact .writeFail rfl hp hfailed
      · rename_i hwrote
        cases h
        exact .write rfl hp hwrote
  | gateTest c =>
      simp only [stepControl] at h
      split at h
      · rename_i hunused
        cases h
        exact .pass (.inl hp) hunused (by simp [hp])
      · rename_i hused
        cases h
        exact .wait hp hused
  | waiting c =>
      simp only [stepControl, Option.isNone_iff_eq_none,
        Option.ite_none_right_eq_some, Option.some.injEq] at h
      rw [← h.2]
      exact .pass (.inr hp) h.1.1 fun _ => h.1.2
  | flagging c =>
      cases h
      exact .setFlag hp
  | unlocking c returns =>
      cases h
      exact .unlock hp
  | bulkLocking op =>
      simp only [stepControl, Option.isNone_iff_eq_none,
        Option.ite_none_right_eq_some, Option.some.injEq] at h
      rw [← h.2]
      exact .lockRegistry h.1 (.inl ⟨op, hp, rfl⟩)
  | bulkTesting op rest numChanged =>
      cases rest with
      | nil =>
          cases h
          exact .finish hp
      | cons j rest =>
          simp only [stepControl] at h
          split at h
          · rename_i hdiffers
            cases h
            exact .visit hp hdiffers
          · rename_i hsame
            cases h
            exact .skip hp (not_not.mp hsame)
  | bulkUnlocking op result =>
      cases h
      exact .unlockRegistry (.inl ⟨op, result, hp⟩)
  | lookupLocking =>
      simp only [stepControl, Option.isNone_iff_eq_none,
        Option.ite_none_right_eq_some, Option.some.injEq] at h
      rw [← h.2]
      exact .lockRegistry h.1 (.inr ⟨hp, rfl⟩)
  | lookupUnlocking =>
      cases h
      exact .unlockRegistry (.inr hp)

theorem frameTransition_of_next {a : Act Inst}
    (h : next registry s (i, a) = some s') (ha : a.isFrame = true) :
    s.control i = .idle ∧ FrameTransition s i s' := by
  cases a with
  | call j =>
      simp only [next, Option.ite_none_right_eq_some, Option.some.injEq,
        Bool.and_eq_true] at h
      obtain ⟨hidle, houtside⟩ := State.free_iff.mp h.1.1
      rw [← h.2]
      exact ⟨hidle, .call houtside h.1.2⟩
  | frame =>
      simp only [next, Option.ite_none_right_eq_some] at h
      obtain ⟨hidle, h⟩ := h
      cases htop : s.frames i with
      | nil => simp [htop] at h
      | cons f rest =>
          rw [htop] at h
          exact ⟨hidle, stepFrame_transition htop h⟩
  | _ => cases ha

theorem next_transition {a : Act Inst} (h : next registry s (i, a) = some s') :
    Transition registry s i a s' := by
  cases a with
  | startOp op j =>
      simp only [next, Option.ite_none_right_eq_some, Option.some.injEq] at h
      obtain ⟨hidle, houtside⟩ := State.free_iff.mp h.1
      rw [← h.2]
      exact .start hidle houtside (.inl ⟨op, j, rfl⟩)
  | startBulk op =>
      simp only [next, Option.ite_none_right_eq_some, Option.some.injEq] at h
      obtain ⟨hidle, houtside⟩ := State.free_iff.mp h.1
      rw [← h.2]
      exact .start hidle houtside (.inr (.inl ⟨op, rfl⟩))
  | startLookup =>
      simp only [next, Option.ite_none_right_eq_some, Option.some.injEq] at h
      obtain ⟨hidle, houtside⟩ := State.free_iff.mp h.1
      rw [← h.2]
      exact .start hidle houtside (.inr (.inr rfl))
  | advance os => exact stepControl_transition rfl h
  | call j | frame =>
      obtain ⟨hidle, hframe⟩ := frameTransition_of_next h rfl
      exact .frame hidle hframe

theorem Transition.control_ne {a : Act Inst}
    (h : Transition registry s i a s') {t : Tid} (hne : t ≠ i) :
    s'.control t = s.control t := by
  cases h with
  | frame here step => rw [step.control_eq]
  | _ => simp [State.control_setControl_ne _ _ hne]

end Transitions

/-! ## The holders of the mutexes -/

namespace Control

def access : Control Inst → Option Inst
  | testing c | writing c _ | gateTest c | waiting c | flagging c
  | unlocking c _ => some c.inst
  | _ => none

def holdsRegistry : Control Inst → Bool
  | locking c | testing c | writing c _ | gateTest c | waiting c | flagging c
  | unlocking c _ => c.bulk.isSome
  | bulkTesting _ _ _ | bulkUnlocking _ _ | lookupUnlocking => true
  | idle | bulkLocking _ | lookupLocking => false

end Control

theorem OpCall.access_afterWrite (c : OpCall Inst) :
    c.afterWrite.access = some c.inst := by
  unfold afterWrite
  cases c.op <;> rfl

theorem OpCall.holdsRegistry_afterWrite (c : OpCall Inst) :
    c.afterWrite.holdsRegistry = c.bulk.isSome := by
  unfold afterWrite
  cases c.op <;> rfl

theorem OpCall.access_afterUnlock (c : OpCall Inst) (returns : Bool) :
    (c.afterUnlock returns).access = none := by
  unfold afterUnlock
  split <;> rfl

theorem OpCall.holdsRegistry_afterUnlock (c : OpCall Inst) (returns : Bool) :
    (c.afterUnlock returns).holdsRegistry = c.bulk.isSome := by
  unfold afterUnlock
  split <;> simp_all [Control.holdsRegistry]

structure MutexesHeld (s : State Tid Inst) : Prop where
  access : ∀ j t, (s.cells j).accessMutex = some t ↔
    (s.control t).access = some j
  registry : ∀ t, s.registryMutex = some t ↔
    (s.control t).holdsRegistry = true

section Mutexes

variable [DecidableEq Tid] {registry : List Inst} {s s' : State Tid Inst}
  {i : Tid}

theorem MutexesHeld.keep (h : MutexesHeld s)
    (haccess : ∀ j, (s'.cells j).accessMutex = (s.cells j).accessMutex)
    (hregistry : s'.registryMutex = s.registryMutex)
    (hothers : ∀ t, t ≠ i → s'.control t = s.control t)
    (hsame : (s'.control i).access = (s.control i).access ∧
      (s'.control i).holdsRegistry = (s.control i).holdsRegistry) :
    MutexesHeld s' := by
  constructor
  · intro j t
    rw [haccess, h.access]
    by_cases heq : t = i
    · rw [heq, hsame.1]
    · rw [hothers t heq]
  · intro t
    rw [hregistry, h.registry]
    by_cases heq : t = i
    · rw [heq, hsame.2]
    · rw [hothers t heq]

variable [DecidableEq Inst]

theorem MutexesHeld.lock {c : OpCall Inst} (h : MutexesHeld s)
    (here : s.control i = .locking c)
    (available : (s.cells c.inst).accessMutex = none) :
    MutexesHeld ((s.setAccessMutex c.inst (some i)).setControl i
      (.testing c)) := by
  constructor
  · intro j t
    have hold := h.access j t
    by_cases hj : j = c.inst
    · subst hj
      by_cases ht : t = i
      · subst ht
        simp [Control.access]
      · simp only [available, reduceCtorEq, false_iff] at hold
        simp [State.control_setControl_ne _ _ ht, hold, Ne.symm ht]
    · by_cases ht : t = i
      · subst ht
        simp only [here, Control.access, reduceCtorEq, iff_false] at hold
        simp [State.accessMutex_setAccessMutex_ne _ hj, hold, Control.access,
          Ne.symm hj]
      · simp [State.accessMutex_setAccessMutex_ne _ hj,
          State.control_setControl_ne _ _ ht, hold]
  · intro t
    have hold := h.registry t
    by_cases ht : t = i
    · subst ht
      simpa [here, Control.holdsRegistry] using hold
    · simpa [State.control_setControl_ne _ _ ht] using hold

theorem MutexesHeld.unlock {c : OpCall Inst} {returns : Bool}
    (h : MutexesHeld s) (here : s.control i = .unlocking c returns) :
    MutexesHeld ((s.setAccessMutex c.inst none).setControl i
      (c.afterUnlock returns)) := by
  have howner : (s.cells c.inst).accessMutex = some i := by
    rw [h.access, here]
    rfl
  constructor
  · intro j t
    have hold := h.access j t
    by_cases ht : t = i
    · subst ht
      rw [State.control_setControl_self, c.access_afterUnlock]
      by_cases hj : j = c.inst
      · subst hj
        simp
      · simp only [here, Control.access, Option.some.injEq] at hold
        simp [State.accessMutex_setAccessMutex_ne _ hj, hold, Ne.symm hj]
    · rw [State.control_setControl_ne _ _ ht]
      by_cases hj : j = c.inst
      · subst hj
        simp only [howner, Option.some.injEq, Ne.symm ht, false_iff] at hold
        simp [hold]
      · simp [State.accessMutex_setAccessMutex_ne _ hj, hold]
  · intro t
    have hold := h.registry t
    by_cases ht : t = i
    · subst ht
      rw [State.control_setControl_self, c.holdsRegistry_afterUnlock]
      simpa [here, Control.holdsRegistry] using hold
    · simpa [State.control_setControl_ne _ _ ht] using hold

omit [DecidableEq Inst] in
theorem MutexesHeld.setRegistry {owner : Option Tid} {q : Control Inst}
    (h : MutexesHeld s) (haccess : q.access = (s.control i).access)
    (hothers : ∀ t, t ≠ i → (s.control t).holdsRegistry = false)
    (howner : ∀ t, owner = some t ↔ t = i ∧ q.holdsRegistry = true) :
    MutexesHeld ((s.setRegistryMutex owner).setControl i q) := by
  constructor
  · intro j t
    have hold := h.access j t
    by_cases ht : t = i
    · subst ht
      simpa [haccess] using hold
    · simpa [State.control_setControl_ne _ _ ht] using hold
  · intro t
    simp only [State.setControl_registryMutex,
      State.setRegistryMutex_registryMutex, howner]
    by_cases ht : t = i
    · subst ht
      simp
    · simp [State.control_setControl_ne _ _ ht, ht, hothers t ht]

theorem MutexesHeld.transition {a : Act Inst} (h : MutexesHeld s)
    (hstep : Transition registry s i a s') : MutexesHeld s' := by
  have hothers : ∀ t, t ≠ i → s'.control t = s.control t :=
    fun t ht => hstep.control_ne ht
  cases hstep with
  | start here outside there =>
      apply h.keep (by simp) (by simp) hothers
      rcases there with ⟨_, _, rfl⟩ | ⟨_, rfl⟩ | rfl <;>
        simp [here, Control.access, Control.holdsRegistry]
  | lock here available => exact h.lock here available
  | unlock here => exact h.unlock here
  | lockRegistry free path =>
      have hnone : ∀ t, (s.control t).holdsRegistry = false := by
        intro t
        have hold := h.registry t
        simpa [free] using hold
      apply h.setRegistry
      · rcases path with ⟨_, here, rfl⟩ | ⟨here, rfl⟩ <;> simp [here, Control.access]
      · exact fun t _ => hnone t
      · intro t
        rcases path with ⟨_, here, rfl⟩ | ⟨here, rfl⟩ <;>
          simp [Control.holdsRegistry, eq_comm]
  | unlockRegistry here =>
      have hheld : s.registryMutex = some i := by
        rw [h.registry]
        rcases here with ⟨_, _, here⟩ | here <;>
          simp [here, Control.holdsRegistry]
      apply h.setRegistry
      · rcases here with ⟨_, _, here⟩ | here <;> simp [here, Control.access]
      · intro t ht
        have hold := h.registry t
        simpa [hheld, Ne.symm ht] using hold
      · simp [Control.holdsRegistry]
  | @write c bytes os m act here wrote =>
      apply h.keep (by simp) (by simp) hothers
      rw [State.control_setControl_self, here, c.access_afterWrite,
        c.holdsRegistry_afterWrite]
      exact ⟨rfl, rfl⟩
  | pass here unused available =>
      apply h.keep (by simp) (by simp) hothers
      rcases here with here | here <;>
        simp [here, Control.access, Control.holdsRegistry]
  | frame here step =>
      apply h.keep step.accessMutex_eq step.registryMutex_eq hothers
      rw [step.control_eq]
      exact ⟨rfl, rfl⟩
  | setFlag here =>
      apply h.keep (by simp) (by simp) hothers
      simp [here, Control.access, Control.holdsRegistry]
  | refuse here _ | prepare here _ | writeFail _ here _ | wait here _
  | skip here _ | visit here _ | finish here =>
      apply h.keep (by simp) (by simp) hothers
      simp [here, Control.access, Control.holdsRegistry]

omit [DecidableEq Tid] [DecidableEq Inst] in
theorem mutexesHeld_start (m : Mem) (inner : Inst → Inner) :
    MutexesHeld (start m inner : State Tid Inst) := by
  constructor <;> simp [start, State.control, Control.access,
    Control.holdsRegistry]

theorem reachable_mutexesHeld {inner : Inst → Inner}
    (h : (registrySystem registry inner).Reachable s) : MutexesHeld s := by
  apply ReachableUnder.invariant _ _ h
  · rintro s ⟨m, rfl⟩
    exact mutexesHeld_start m inner
  · intro s e s' hheld hstep _
    exact hheld.transition (next_transition hstep)

end Mutexes

/-! ## Two hooks of NOPs -/

def nopsMem : Mem :=
  Memory.write (Memory.write (fun _ => none) 0x1000 (List.replicate 5 0x90))
    0x1800 (List.replicate 5 0x90)

def nopsInner (j : Bool) : Inner :=
  if j then { Inner.nopInner with name := "other", targetFunc := 0x1800 }
  else Inner.nopInner

def nopsState : State Bool Bool := start nopsMem nopsInner

theorem nopsState_run :
    (registrySystem [false, true] nopsInner).Run nopsState [] :=
  .init ⟨nopsMem, rfl⟩

def advances (i : Bool) (n : Nat) : List (Bool × Act Bool) :=
  List.replicate n (i, .advance smallOs)

def performs (i : Bool) (op : ControlOp) (j : Bool) : List (Bool × Act Bool) :=
  (i, .startOp op j) ::
    advances i (match op with | .install => 5 | .uninstall => 6)

end Registry

end Ztour
