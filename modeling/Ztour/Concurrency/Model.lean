import Ztour.HookInst.World

/-!
# One hook and many threads

Any number of threads call `install`, `uninstall` and `change_target_func` on a
hook and run its detour, one atomic step at a time.  A thread remembers the
`Inner` that it last read from `_inner` by its position in `cells`; only the
one at `cur` is alive.
-/

namespace Ztour

open Ztour.Foundation

namespace Concurrency

/-! ## Where a thread is -/

inductive ControlOp where
  | install
  | uninstall
  deriving DecidableEq, Repr

/-- The place of a thread in a control call.  `install` and `uninstall` share
the steps of which `ControlOp` tells the difference. -/
inductive Control where
  | idle
  | locking (op : ControlOp) (cell : Nat)
  | testing (op : ControlOp) (cell : Nat)
  | writing (op : ControlOp) (cell : Nat) (bytes : List Byte)
  | gateTest (cell : Nat)
  | waitLock (cell : Nat)
  | waitCheck (cell : Nat)
  | asleep (cell : Nat)
  | flagging (op : ControlOp) (cell : Nat)
  | unlocking (op : ControlOp) (cell : Nat) (returns : Bool)
  | changeTest (newTargetFunc : Ptr)
  | changeConstruct (newTargetFunc : Ptr)
  | changeReplace (newInner : Inner)
  deriving DecidableEq

/-- The place of a call that went through the patched entry.  The scope guard
reads `_inner` when it is constructed and once more when it is destroyed;
`entered` keeps what it read first, which no code does. -/
inductive Frame where
  | trampoline
  | outerFunc
  | entering (gate : Nat)
  | body (entered : Nat)
  | exiting (entered gate : Nat)
  | locking (entered gate : Nat)
  | notifying (entered gate : Nat)
  | unlocking (entered gate : Nat)
  | returning
  deriving DecidableEq, Repr

structure Thread where
  control : Control
  frames : List Frame

/-- An `Inner` with its mutex and its call gate.  The counter is not reduced
modulo `2 ^ 64`: so many calls do not fit into memory. -/
structure Cell (Tid : Type) where
  inner : Inner
  accessMutex : Option Tid
  condMutex : Option Tid
  numActiveCalls : Int

structure State (Tid : Type) where
  process : Process
  cells : Nat → Cell Tid
  cur : Nat
  threads : Tid → Thread
  aborted : Bool

variable {Tid : Type}

namespace State

variable (s : State Tid)

def inner : Inner := (s.cells s.cur).inner

def control (i : Tid) : Control := (s.threads i).control

def frames (i : Tid) : List Frame := (s.threads i).frames

def setProcess (process : Process) : State Tid := { s with process }

def setMem (m : Mem) : State Tid := s.setProcess { s.process with mem := m }

def setCell (j : Nat) (cell : Cell Tid) : State Tid :=
  { s with cells := Function.update s.cells j cell }

def setInstalled (j : Nat) (flag : Bool) : State Tid :=
  s.setCell j { s.cells j with
    inner := { (s.cells j).inner with isInstalled := flag } }

def setAccessMutex (j : Nat) (owner : Option Tid) : State Tid :=
  s.setCell j { s.cells j with accessMutex := owner }

def setCondMutex (j : Nat) (owner : Option Tid) : State Tid :=
  s.setCell j { s.cells j with condMutex := owner }

def addActive (j : Nat) (change : Int) : State Tid :=
  s.setCell j { s.cells j with
    numActiveCalls := (s.cells j).numActiveCalls + change }

variable [DecidableEq Tid]

def setControl (i : Tid) (control : Control) : State Tid :=
  { s with
    threads := Function.update s.threads i
      { s.threads i with control := control } }

def setFrames (i : Tid) (frames : List Frame) : State Tid :=
  { s with
    threads := Function.update s.threads i
      { s.threads i with frames := frames } }

end State

/-! ## Control calls -/

namespace ControlOp

def prepare : ControlOp → Inner → Res (List Byte)
  | .install => Inner.prepareInstall
  | .uninstall => Inner.prepareUninstall

def afterWrite : ControlOp → Nat → Control
  | .install, j => .flagging .install j
  | .uninstall, j => .gateTest j

def flag : ControlOp → Bool
  | .install => true
  | .uninstall => false

end ControlOp

/-- `_inner = std::make_unique<Inner>(..)`: the pointer is swapped and the old
`Inner` destroyed.  The release of its code page leaves the memory `m`, then its
call gate asserts that no call is active.  An exception that leaves a destructor
ends the process. -/
def State.replaceInner (s : State Tid) (m : Mem) (newInner : Inner) :
    State Tid where
  process := { s.process with mem := m }
  cells := Function.update s.cells (s.cur + 1)
    { inner := newInner, accessMutex := none, condMutex := none,
      numActiveCalls := 0 }
  cur := s.cur + 1
  threads := s.threads
  aborted := decide ((s.cells s.cur).numActiveCalls ≠ 0)

section Steps

variable [DecidableEq Tid] (z : Zydis)

/-- The next step of a control call.  A sleeping thread may wake at any time,
notified or not. -/
def stepControl (os : Os) (s : State Tid) (i : Tid) :
    Control → Option (State Tid)
  | .idle => none
  | .locking op j =>
      if (s.cells j).accessMutex.isNone then
        some ((s.setAccessMutex j (some i)).setControl i (.testing op j))
      else none
  | .testing op j =>
      match op.prepare (s.cells j).inner with
      | .error _ => some (s.setControl i (.unlocking op j false))
      | .ok bytes => some (s.setControl i (.writing op j bytes))
  | .writing op j bytes =>
      match overwriteExecutableMem os s.process.mem bytes
          (s.cells j).inner.targetFunc with
      | (.error _, m) =>
          some ((s.setMem m).setControl i (.unlocking op j false))
      | (.ok (), m) => some ((s.setMem m).setControl i (op.afterWrite j))
  | .gateTest j =>
      if (s.cells j).numActiveCalls = 0 then
        some (s.setControl i (.flagging .uninstall j))
      else some (s.setControl i (.waitLock j))
  | .waitLock j =>
      if (s.cells j).condMutex.isNone then
        some ((s.setCondMutex j (some i)).setControl i (.waitCheck j))
      else none
  | .waitCheck j =>
      -- the condition variable gives the mutex back while the thread sleeps
      if (s.cells j).numActiveCalls = 0 then
        some ((s.setCondMutex j none).setControl i (.flagging .uninstall j))
      else some ((s.setCondMutex j none).setControl i (.asleep j))
  | .asleep j => some (s.setControl i (.waitLock j))
  | .flagging op j =>
      some ((s.setInstalled j op.flag).setControl i (.unlocking op j true))
  | .unlocking _ j _ => some ((s.setAccessMutex j none).setControl i .idle)
  | .changeTest newTargetFunc =>
      if s.inner.isInstalled then some (s.setControl i .idle)
      else some (s.setControl i (.changeConstruct newTargetFunc))
  | .changeConstruct newTargetFunc =>
      -- the arguments are read from whatever `_inner` is by now
      match Inner.new z os s.process s.inner.name newTargetFunc
          s.inner.detourFunc s.inner.outputOriginalFunc with
      | (.ok newInner, process) =>
          some ((s.setProcess process).setControl i (.changeReplace newInner))
      | (.error (.thrown _), process) =>
          some ((s.setProcess process).setControl i .idle)
      | (.error _, _) => none
  | .changeReplace newInner =>
      match s.inner.destroy os s.process.mem with
      | .ok m => some ((s.replaceInner m newInner).setControl i .idle)
      | .error _ => none

/-! ## Calls of the hooked function -/

def stepFrame (s : State Tid) (i : Tid) (rest : List Frame) :
    Frame → Option (State Tid)
  | .trampoline => some (s.setFrames i (.outerFunc :: rest))
  | .outerFunc => some (s.setFrames i (.entering s.cur :: rest))
  | .entering j => some ((s.addActive j 1).setFrames i (.body j :: rest))
  | .body g => some (s.setFrames i (.exiting g s.cur :: rest))
  | .exiting g j =>
      let remaining := (s.cells j).numActiveCalls - 1
      if remaining = 0 then
        some ((s.addActive j (-1)).setFrames i (.locking g j :: rest))
      else some ((s.addActive j (-1)).setFrames i (.returning :: rest))
  | .locking g j =>
      if (s.cells j).condMutex.isNone then
        some ((s.setCondMutex j (some i)).setFrames i (.notifying g j :: rest))
      else none
  | .notifying g j => some (s.setFrames i (.unlocking g j :: rest))
  | .unlocking _ j =>
      some ((s.setCondMutex j none).setFrames i (.returning :: rest))
  | .returning => some (s.setFrames i rest)

def Frame.isBody : Frame → Bool
  | .body _ => true
  | _ => false

/-- Outside the library's code: in no control call, and in no call of the hooked
function except in the user's part of it. -/
def State.free (s : State Tid) (i : Tid) : Bool :=
  s.control i = .idle && (s.frames i).head?.all Frame.isBody

def State.entryPatched (s : State Tid) : Bool :=
  s.inner.targetFunc ≠ 0 && s.process.mem.read s.inner.targetFunc 5 =
    some (relJumpBytes s.inner.targetFunc s.inner.codeEnterDetour)

inductive Act where
  | start (op : ControlOp)
  | startChange (newTargetFunc : Ptr)
  | advance (os : Os)
  | call
  | frame

def next (s : State Tid) (e : Tid × Act) : Option (State Tid) :=
  if s.aborted then none
  else
    match e.2 with
    | .start op =>
        if s.free e.1 then some (s.setControl e.1 (.locking op s.cur))
        else none
    | .startChange newTargetFunc =>
        if s.free e.1 then
          some (s.setControl e.1 (.changeTest newTargetFunc))
        else none
    | .advance os => stepControl z os s e.1 (s.control e.1)
    | .call =>
        if s.free e.1 && s.entryPatched then
          some (s.setFrames e.1 (.trampoline :: s.frames e.1))
        else none
    | .frame =>
        if s.control e.1 = .idle then
          match s.frames e.1 with
          | [] => none
          | f :: rest => stepFrame s e.1 rest f
        else none

end Steps

def start (process : Process) (inner : Inner) : State Tid where
  process := process
  cells := fun _ =>
    { inner, accessMutex := none, condMutex := none, numActiveCalls := 0 }
  cur := 0
  threads := fun _ => { control := .idle, frames := [] }
  aborted := false

/-- All runs of threads on one hook that was created in the memory `m₀`. -/
def threadSystem [DecidableEq Tid] (z : Zydis) (m₀ : Mem) :
    TransitionSystem (State Tid) (Tid × Act) where
  init s := ∃ os p name t d out inner p', p.mem = m₀ ∧
    Inner.new z os p name t d out = (.ok inner, p') ∧ s = start p' inner
  step s e s' := next z s e = some s'

end Concurrency

end Ztour
