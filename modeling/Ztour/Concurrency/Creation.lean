import Ztour.HookInst.PatchInPlace

/-!
# Calls of `_create` on many threads

The constructor runs outside the registry lock; only the comparison of the
names and the `push_back` are inside.  A call maps its code page, fills it and
publishes the way to call the original before it learns whether its name is
taken.
-/

namespace Ztour

open Ztour.Foundation

namespace Creation

open TransitionSystem

structure Args where
  name : String
  targetFunc : Ptr
  detourFunc : Ptr
  outputOriginalFunc : Ptr
  deriving DecidableEq

/-- The place of a call.  `replaced` is what `*output_original_func` held before
the call wrote to it, which no code keeps. -/
inductive Phase where
  | notStarted
  | resolving
  | allocating (targetFunc detourFunc : Ptr)
  | filling (targetFunc detourFunc : Ptr) (page : MemPage)
  | unwinding (what : String) (page : MemPage)
  | publishing (inner : Inner)
  | locking (inner : Inner) (replaced : Ptr)
  | comparing (inner : Inner) (replaced : Ptr)
  | unlocking (result : Except String Inner)
  | returned (inner : Inner)
  | thrown (what : String)

/-- A hook in the registry and a mapped code page are kept with the call that
they come from. -/
structure State (Call : Type) where
  process : Process
  insts : List (Call × Inner)
  registryMutex : Option Call
  codePages : List (Call × MemPage)
  phase : Call → Phase

variable {Call : Type}

def State.names (s : State Call) : List String := s.insts.map (·.2.name)

/-- The destructor leaves nothing of the page mapped. -/
def released (os : Os) (page : MemPage) : Bool :=
  match os.freed page.memory with
  | some bytes => (List.range page.size).all fun k =>
      (bytes (page.memory + BitVec.ofNat 64 k)).isNone
  | none => false

namespace State

variable (s : State Call)

@[simps]
def setRegistryMutex (owner : Option Call) : State Call :=
  { s with registryMutex := owner }

@[simps]
def setMem (m : Mem) : State Call :=
  { s with process := { s.process with mem := m } }

@[simps]
def setOut (out value : Ptr) : State Call :=
  { s with process := s.process.setOut out value }

@[simps]
def mapPage (c : Call) (page : MemPage) (m : Mem) : State Call :=
  { s with
    process := { s.process with mem := m, pages := page :: s.process.pages }
    codePages := (c, page) :: s.codePages }

@[simps]
def pushBack (c : Call) (inner : Inner) : State Call :=
  { s with insts := s.insts ++ [(c, inner)] }

variable [DecidableEq Call]

@[simps]
def setPhase (c : Call) (phase : Phase) : State Call :=
  { s with phase := Function.update s.phase c phase }

theorem setPhase_phase_self (c : Call) (phase : Phase) :
    (s.setPhase c phase).phase c = phase :=
  Function.update_self ..

/-- `~MemPage`, which leaves the memory `m`. -/
@[simps]
def destroyPage (c : Call) (os : Os) (page : MemPage) (m : Mem) : State Call :=
  { s with
    process := { s.process with mem := m }
    codePages :=
      if released os page then s.codePages.filter (· ≠ (c, page))
      else s.codePages }

end State

section Steps

variable [DecidableEq Call] (z : Zydis) (args : Call → Args)

def continueWith {α : Type} (r : Res α) (thrown : String → State Call)
    (ok : α → State Call) : Option (State Call) :=
  match r with
  | .ok a => some (ok a)
  | .error (.thrown what) => some (thrown what)
  | .error _ => none

def advance (os : Os) (s : State Call) (c : Call) : Phase → Option (State Call)
  | .notStarted => some (s.setPhase c .resolving)
  | .resolving =>
      continueWith (Inner.resolveArgs s.process.mem (args c).name
          (args c).targetFunc (args c).detourFunc (args c).outputOriginalFunc)
        (fun what => s.setPhase c (.thrown what))
        (fun resolved => s.setPhase c
          (if resolved.1 = 0 then
            .publishing (Inner.withoutTarget (args c).name resolved.2
              (args c).outputOriginalFunc)
          else .allocating resolved.1 resolved.2))
  | .allocating targetFunc detourFunc =>
      continueWith (MemPage.new os s.process.mem targetFunc)
        (fun what => s.setPhase c (.thrown what))
        (fun allocated => (s.mapPage c allocated.1 allocated.2).setPhase c
          (.filling targetFunc detourFunc allocated.1))
  | .filling targetFunc detourFunc page =>
      continueWith (Inner.fill z os s.process.mem page (args c).name targetFunc
          detourFunc (args c).outputOriginalFunc)
        (fun what => s.setPhase c (.unwinding what page))
        (fun filled => (s.setMem filled.2).setPhase c (.publishing filled.1))
  | .unwinding what page =>
      match page.destroy os s.process.mem with
      | .ok m => some ((s.destroyPage c os page m).setPhase c (.thrown what))
      | .error _ => none
  | .publishing inner =>
      some ((s.setOut (args c).outputOriginalFunc inner.codeCallOriginal
        ).setPhase c
          (.locking inner (s.process.outs (args c).outputOriginalFunc)))
  | .locking inner replaced =>
      if s.registryMutex.isNone then
        some ((s.setRegistryMutex (some c)).setPhase c
          (.comparing inner replaced))
      else none
  | .comparing inner _ =>
      if (args c).name ∈ s.names then
        -- the `HookInst` and its `Inner` are not destroyed
        some (s.setPhase c
          (.unlocking (.error (World.duplicateNameText (args c).name))))
      else some ((s.pushBack c inner).setPhase c (.unlocking (.ok inner)))
  | .unlocking (.ok inner) =>
      some ((s.setRegistryMutex none).setPhase c (.returned inner))
  | .unlocking (.error what) =>
      some ((s.setRegistryMutex none).setPhase c (.thrown what))
  | .returned _ => none
  | .thrown _ => none

def next (s : State Call) (e : Call × Os) : Option (State Call) :=
  advance z args e.2 s e.1 (s.phase e.1)

end Steps

def start (process : Process) : State Call where
  process := process
  insts := []
  registryMutex := none
  codePages := []
  phase := fun _ => .notStarted

def createSystem [DecidableEq Call] (z : Zydis) (args : Call → Args) :
    TransitionSystem (State Call) (Call × Os) where
  init s := ∃ process, s = start process
  step s e s' := next z args s e = some s'

/-! ## What a step can do -/

section Transitions

variable [DecidableEq Call] {z : Zydis} {args : Call → Args}

inductive Transition (z : Zydis) (args : Call → Args) (os : Os)
    (s : State Call) (c : Call) : State Call → Prop
  | proceed {phase : Phase} (here : s.phase c = .notStarted ∨
        s.phase c = .resolving ∨ ∃ t d, s.phase c = .allocating t d)
      (there : phase = .resolving ∨ (∃ t d, phase = .allocating t d) ∨
        (∃ d, phase = .publishing (Inner.withoutTarget (args c).name d
          (args c).outputOriginalFunc)) ∨ ∃ what, phase = .thrown what) :
      Transition z args os s c (s.setPhase c phase)
  | mapPage {t d page m} (here : s.phase c = .allocating t d) :
      Transition z args os s c ((s.mapPage c page m).setPhase c
        (.filling t d page))
  | fail {t d page what} (here : s.phase c = .filling t d page) :
      Transition z args os s c (s.setPhase c (.unwinding what page))
  | fill {t d page inner m} (here : s.phase c = .filling t d page)
      (filled : Inner.fill z os s.process.mem page (args c).name t d
        (args c).outputOriginalFunc = .ok (inner, m)) :
      Transition z args os s c ((s.setMem m).setPhase c (.publishing inner))
  | unwind {what page m} (here : s.phase c = .unwinding what page)
      (destroyed : page.destroy os s.process.mem = .ok m) :
      Transition z args os s c ((s.destroyPage c os page m).setPhase c
        (.thrown what))
  | publish {inner} (here : s.phase c = .publishing inner) :
      Transition z args os s c
        ((s.setOut (args c).outputOriginalFunc inner.codeCallOriginal
          ).setPhase c
            (.locking inner (s.process.outs (args c).outputOriginalFunc)))
  | lock {inner replaced} (here : s.phase c = .locking inner replaced)
      (free : s.registryMutex = none) :
      Transition z args os s c ((s.setRegistryMutex (some c)).setPhase c
        (.comparing inner replaced))
  | refuse {inner replaced} (here : s.phase c = .comparing inner replaced)
      (taken : (args c).name ∈ s.names) :
      Transition z args os s c (s.setPhase c
        (.unlocking (.error (World.duplicateNameText (args c).name))))
  | add {inner replaced} (here : s.phase c = .comparing inner replaced)
      (distinct : (args c).name ∉ s.names) :
      Transition z args os s c ((s.pushBack c inner).setPhase c
        (.unlocking (.ok inner)))
  | finish {inner} (here : s.phase c = .unlocking (.ok inner)) :
      Transition z args os s c ((s.setRegistryMutex none).setPhase c
        (.returned inner))
  | leave {what} (here : s.phase c = .unlocking (.error what)) :
      Transition z args os s c ((s.setRegistryMutex none).setPhase c
        (.thrown what))

omit [DecidableEq Call] in
theorem continueWith_eq_some {α : Type} {r : Res α}
    {thrown : String → State Call} {ok : α → State Call} {s' : State Call}
    (h : continueWith r thrown ok = some s') :
    (∃ what, r = .error (.thrown what) ∧ s' = thrown what) ∨
      ∃ a, r = .ok a ∧ s' = ok a := by
  unfold continueWith at h
  split at h
  · exact .inr ⟨_, rfl, (Option.some.inj h).symm⟩
  · exact .inl ⟨_, rfl, (Option.some.inj h).symm⟩
  · cases h

theorem advance_transition {os : Os} {s s' : State Call} {c : Call} {p : Phase}
    (hp : s.phase c = p) (h : advance z args os s c p = some s') :
    Transition z args os s c s' := by
  cases p with
  | notStarted =>
      simp only [advance, Option.some.injEq] at h
      rw [← h]
      exact .proceed (.inl hp) (.inl rfl)
  | resolving =>
      rcases continueWith_eq_some h with ⟨what, -, rfl⟩ | ⟨resolved, -, rfl⟩
      · exact .proceed (.inr (.inl hp)) (.inr (.inr (.inr ⟨_, rfl⟩)))
      · apply Transition.proceed (.inr (.inl hp))
        split
        · exact .inr (.inr (.inl ⟨_, rfl⟩))
        · exact .inr (.inl ⟨_, _, rfl⟩)
  | allocating t d =>
      rcases continueWith_eq_some h with ⟨what, -, rfl⟩ | ⟨allocated, -, rfl⟩
      · exact .proceed (.inr (.inr ⟨_, _, hp⟩)) (.inr (.inr (.inr ⟨_, rfl⟩)))
      · exact .mapPage hp
  | filling t d page =>
      rcases continueWith_eq_some h with ⟨what, -, rfl⟩ | ⟨filled, hfill, rfl⟩
      · exact .fail hp
      · exact .fill hp hfill
  | unwinding what page =>
      simp only [advance] at h
      split at h
      · rename_i m hdestroy
        cases h
        exact .unwind hp hdestroy
      · cases h
  | publishing inner =>
      simp only [advance, Option.some.injEq] at h
      rw [← h]
      exact .publish hp
  | locking inner replaced =>
      simp only [advance, Option.isNone_iff_eq_none,
        Option.ite_none_right_eq_some, Option.some.injEq] at h
      rw [← h.2]
      exact .lock hp h.1
  | comparing inner replaced =>
      simp only [advance] at h
      split at h
      · rename_i htaken
        cases h
        exact .refuse hp htaken
      · rename_i hdistinct
        cases h
        exact .add hp hdistinct
  | unlocking result =>
      cases result with
      | ok inner =>
          simp only [advance, Option.some.injEq] at h
          rw [← h]
          exact .finish hp
      | error what =>
          simp only [advance, Option.some.injEq] at h
          rw [← h]
          exact .leave hp
  | returned inner => simp [advance] at h
  | thrown what => simp [advance] at h

theorem Transition.phase_ne {os : Os} {s s' : State Call} {c k : Call}
    (h : Transition z args os s c s') (hne : k ≠ c) :
    s'.phase k = s.phase k := by
  cases h <;> simp [Function.update_of_ne hne]

end Transitions

/-! ## The registry -/

theorem fill_built {z : Zydis} {os : Os} {m m' : Mem} {page : MemPage}
    {name : String} {t d out : Ptr} {inner : Inner}
    (h : Inner.fill z os m page name t d out = .ok (inner, m')) :
    inner.name = name ∧ inner.codePage ≠ none := by
  obtain ⟨n, reloc, page', hsteps⟩ := Inner.fill_steps h
  rw [hsteps.codePage]
  exact ⟨hsteps.named, Option.some_ne_none page'⟩

namespace Phase

def added : Phase → Option Inner
  | unlocking (.ok inner) | returned inner => some inner
  | _ => none

def constructed : Phase → Option Inner
  | publishing inner | locking inner _ | comparing inner _ => some inner
  | _ => none

end Phase

/-- The registry holds the hooks of the successful calls, each once. -/
structure Registered (args : Call → Args) (s : State Call) : Prop where
  names : s.names.Nodup
  calls : (s.insts.map Prod.fst).Nodup
  mem_iff : ∀ c inner, (c, inner) ∈ s.insts ↔ (s.phase c).added = some inner
  named : ∀ c inner, (s.phase c).constructed = some inner ∨
    (s.phase c).added = some inner → inner.name = (args c).name

section Registry

variable [DecidableEq Call] {z : Zydis} {args : Call → Args} {os : Os}
  {s s' : State Call} {c k : Call}

theorem Transition.registry (h : Transition z args os s c s') :
    (s'.insts = s.insts ∧ ∀ k, (s'.phase k).added = (s.phase k).added) ∨
    ∃ inner replaced, s.phase c = .comparing inner replaced ∧
      (args c).name ∉ s.names ∧ s'.insts = s.insts ++ [(c, inner)] ∧
      (s'.phase c).added = some inner := by
  cases h with
  | add here distinct =>
      exact .inr ⟨_, _, here, distinct, rfl, by simp [Phase.added]⟩
  | proceed here there =>
      refine .inl ⟨rfl, fun k => ?_⟩
      by_cases heq : k = c
      · subst heq
        rcases here with here | here | ⟨t, d, here⟩ <;>
          rcases there with rfl | ⟨_, _, rfl⟩ | ⟨_, rfl⟩ | ⟨_, rfl⟩ <;>
          simp [here, Phase.added]
      · simp [Function.update_of_ne heq]
  | _ =>
      rename_i here
      refine .inl ⟨by simp, fun k => ?_⟩
      by_cases heq : k = c
      · subst heq
        simp_all [Phase.added]
      · simp [Function.update_of_ne heq]

theorem Transition.named (h : Transition z args os s c s')
    (hold : ∀ inner, (s.phase c).constructed = some inner ∨
      (s.phase c).added = some inner → inner.name = (args c).name)
    {inner : Inner} (hnew : (s'.phase c).constructed = some inner ∨
      (s'.phase c).added = some inner) : inner.name = (args c).name := by
  cases h with
  | proceed here there =>
      rcases there with rfl | ⟨_, _, rfl⟩ | ⟨d, rfl⟩ | ⟨_, rfl⟩
      · simp [Phase.constructed, Phase.added] at hnew
      · simp [Phase.constructed, Phase.added] at hnew
      · simp [Phase.constructed, Phase.added] at hnew
        rw [← hnew]
        rfl
      · simp [Phase.constructed, Phase.added] at hnew
  | fill here filled =>
      simp [Phase.constructed, Phase.added] at hnew
      rw [← hnew]
      exact (fill_built filled).1
  | publish here =>
      apply hold
      simpa [here, Phase.constructed, Phase.added] using hnew
  | lock here free =>
      apply hold
      simpa [here, Phase.constructed, Phase.added] using hnew
  | add here distinct =>
      apply hold
      simpa [here, Phase.constructed, Phase.added] using hnew
  | finish here =>
      apply hold
      simpa [here, Phase.constructed, Phase.added] using hnew
  | _ => simp [Phase.constructed, Phase.added] at hnew

theorem Registered.transition (h : Registered args s)
    (hstep : Transition z args os s c s') : Registered args s' := by
  have hnamed : ∀ k inner, (s'.phase k).constructed = some inner ∨
      (s'.phase k).added = some inner → inner.name = (args k).name := by
    intro k inner hnew
    by_cases heq : k = c
    · subst heq
      exact hstep.named (h.named k) hnew
    · rw [hstep.phase_ne heq] at hnew
      exact h.named k inner hnew
  rcases hstep.registry with ⟨hinsts, hadded⟩ |
    ⟨inner, replaced, hhere, hdistinct, hinsts, hadded⟩
  · refine ⟨?_, ?_, ?_, hnamed⟩
    · rw [State.names, hinsts]
      exact h.names
    · rw [hinsts]
      exact h.calls
    · intro k inner
      rw [hinsts, hadded, h.mem_iff]
  · have hname : inner.name = (args c).name :=
      hnamed c inner (.inr hadded)
    have hnew : c ∉ s.insts.map Prod.fst := by
      intro hmem
      obtain ⟨⟨k, other⟩, hother, rfl⟩ := List.mem_map.mp hmem
      have := (h.mem_iff k other).mp hother
      simp [hhere, Phase.added] at this
    refine ⟨?_, ?_, ?_, hnamed⟩
    · have hnames : s'.names = s.names.concat inner.name := by
        simp [State.names, hinsts]
      rw [hnames]
      exact List.Nodup.concat (hname ▸ hdistinct) h.names
    · have hcalls : s'.insts.map Prod.fst = (s.insts.map Prod.fst).concat c := by
        simp [hinsts]
      rw [hcalls]
      exact List.Nodup.concat hnew h.calls
    · intro k other
      rw [hinsts, List.mem_append, h.mem_iff]
      by_cases heq : k = c
      · subst heq
        rw [hhere, hadded]
        simp [Phase.added, eq_comm]
      · simp [hstep.phase_ne heq, heq]

theorem reachable_registered (h : (createSystem z args).Reachable s) :
    Registered args s := by
  apply ReachableUnder.invariant _ _ h
  · rintro s ⟨process, rfl⟩
    constructor <;>
      simp [start, State.names, Phase.added, Phase.constructed]
  · intro s e s' hinv hstep _
    exact hinv.transition (advance_transition rfl hstep)

end Registry

/-! ## What a call leaves behind -/

section Atomicity

variable [DecidableEq Call] {z : Zydis} {args : Call → Args} {os : Os}
  {s s' : State Call} {c k : Call}
  {history : List (Event (State Call) (Call × Os))}

structure Quiet (e : Event (State Call) (Call × Os)) : Prop where
  insts : e.after.insts = e.before.insts
  outs : e.after.process.outs = e.before.process.outs
  others : ∀ k page, k ≠ e.action.1 →
    ((k, page) ∈ e.after.codePages ↔ (k, page) ∈ e.before.codePages)

/-- The steps of `c` have changed nothing, and no code page of it is left. -/
structure Untouched (c : Call) (s : State Call)
    (history : List (Event (State Call) (Call × Os))) : Prop where
  quiet : ∀ e ∈ history, e.action.1 = c → Quiet e
  pages : ∀ page, (c, page) ∉ s.codePages

/-- An unwound page is given back; and a name that is compared is not taken, or
the call has no target and its output pointer held null before. -/
def Tidy (args : Call → Args) (e : Event (State Call) (Call × Os)) : Prop :=
  match e.before.phase e.action.1 with
  | .unwinding _ page => released e.action.2 page = true
  | .comparing inner replaced =>
      (args e.action.1).name ∉ e.before.names ∨
        (inner.codePage = none ∧ replaced = 0)
  | _ => True

/-- What is known of a call, from its place, about its steps so far and about
the code pages that it owns. -/
def Accounted (quiet tidy : Prop) (owns : MemPage → Prop) : Phase → Prop
  | .notStarted | .resolving | .allocating _ _ =>
      quiet ∧ tidy ∧ ∀ page, ¬ owns page
  | .filling _ _ page | .unwinding _ page =>
      quiet ∧ tidy ∧ ∀ page', owns page' ↔ page' = page
  | .publishing inner =>
      quiet ∧ tidy ∧ ((∀ page, ¬ owns page) ↔ inner.codePage = none) ∧
        (inner.codePage = none → inner.codeCallOriginal = 0)
  | .locking inner replaced | .comparing inner replaced =>
      tidy ∧ ((∀ page, ¬ owns page) ↔ inner.codePage = none) ∧
        (inner.codePage = none → (quiet ↔ replaced = 0))
  | .unlocking (.error _) | .thrown _ =>
      (quiet ∧ ∀ page, ¬ owns page) ↔ tidy
  | .unlocking (.ok _) | .returned _ => True

omit [DecidableEq Call] in
theorem tidy_of_phase (h : (∀ what page, s.phase c ≠ .unwinding what page) ∧
    ∀ inner replaced, s.phase c ≠ .comparing inner replaced) :
    Tidy args ⟨s, (c, os), s'⟩ := by
  unfold Tidy
  dsimp only
  split
  · exact absurd ‹_› (h.1 _ _)
  · exact absurd ‹_› (h.2 _ _)
  · trivial

theorem Accounted.extend {q t quiet tidy : Prop} {owns : MemPage → Prop}
    {phase : Phase} (hq : q) (ht : t) (h : Accounted quiet tidy owns phase) :
    Accounted (q ∧ quiet) (t ∧ tidy) owns phase := by
  simpa only [eq_true hq, eq_true ht, true_and] using h

omit [DecidableEq Call] in
theorem quiet_of_frame (hinsts : s'.insts = s.insts)
    (houts : s'.process.outs = s.process.outs)
    (hpages : s'.codePages = s.codePages) : Quiet ⟨s, (c, os), s'⟩ :=
  ⟨hinsts, houts, fun _ _ _ => by rw [hpages]⟩

omit [DecidableEq Call] in
theorem Accounted.framed {quiet tidy : Prop} {owns : MemPage → Prop}
    {phase : Phase} (hphase : (∀ what page, s.phase c ≠ .unwinding what page) ∧
      ∀ inner replaced, s.phase c ≠ .comparing inner replaced)
    (hinsts : s'.insts = s.insts) (houts : s'.process.outs = s.process.outs)
    (hpages : s'.codePages = s.codePages)
    (h : Accounted quiet tidy owns phase) :
    Accounted (Quiet ⟨s, (c, os), s'⟩ ∧ quiet)
      (Tidy args ⟨s, (c, os), s'⟩ ∧ tidy) owns phase :=
  h.extend (quiet_of_frame hinsts houts hpages) (tidy_of_phase hphase)

theorem quiet_setOut_iff {out value : Ptr} {phase : Phase} :
    Quiet ⟨s, (c, os), (s.setOut out value).setPhase c phase⟩ ↔
      value = s.process.outs out := by
  constructor
  · intro h
    have hout := congrFun h.outs out
    simpa using hout
  · intro h
    refine quiet_of_frame rfl ?_ rfl
    simp [Process.setOut, h]

theorem no_page_destroyPage {page : MemPage} {m : Mem}
    (howns : ∀ page', (c, page') ∈ s.codePages ↔ page' = page) :
    (∀ page', (c, page') ∉ (s.destroyPage c os page m).codePages) ↔
      released os page = true := by
  rw [State.destroyPage_codePages]
  split
  · rename_i hreleased
    simp [hreleased, howns]
  · rename_i hkept
    simp [hkept, howns]

theorem Transition.accounted (h : Transition z args os s c s')
    {quiet tidy : Prop}
    (hold : Accounted quiet tidy (fun page => (c, page) ∈ s.codePages)
      (s.phase c)) :
    Accounted (Quiet ⟨s, (c, os), s'⟩ ∧ quiet)
      (Tidy args ⟨s, (c, os), s'⟩ ∧ tidy)
      (fun page => (c, page) ∈ s'.codePages) (s'.phase c) := by
  cases h with
  | proceed here there =>
      have hbefore : quiet ∧ tidy ∧ ∀ page, (c, page) ∉ s.codePages := by
        rcases here with here | here | ⟨_, _, here⟩ <;>
          (rw [here] at hold; exact hold)
      refine Accounted.framed ?_ rfl rfl rfl ?_
      · rcases here with here | here | ⟨_, _, here⟩ <;> simp [here]
      · rcases there with rfl | ⟨_, _, rfl⟩ | ⟨_, rfl⟩ | ⟨_, rfl⟩ <;>
          simp [Accounted, hbefore, Inner.withoutTarget]
  | mapPage here =>
      rw [here] at hold
      obtain ⟨hquiet, htidy, hnone⟩ := hold
      apply Accounted.extend
      · refine ⟨rfl, rfl, fun k page hne => ?_⟩
        simp [hne]
      · apply tidy_of_phase
        simp [here]
      · simp [Accounted, hquiet, htidy, hnone]
  | fail here =>
      rw [here] at hold
      refine Accounted.framed (by simp [here]) rfl rfl rfl ?_
      simpa [Accounted] using hold
  | fill here filled =>
      rw [here] at hold
      obtain ⟨hquiet, htidy, howns⟩ := hold
      refine Accounted.framed (by simp [here]) rfl rfl rfl ?_
      simp [Accounted, hquiet, htidy, howns, (fill_built filled).2]
  | @unwind what page m here destroyed =>
      rw [here] at hold
      obtain ⟨hquiet, htidy, howns⟩ := hold
      have hstep : Quiet ⟨s, (c, os),
          (s.destroyPage c os page m).setPhase c (.thrown what)⟩ := by
        refine ⟨rfl, rfl, fun k page' hne => ?_⟩
        simp only [State.setPhase_codePages, State.destroyPage_codePages]
        split <;> simp [hne]
      simp only [State.setPhase_phase, Function.update_self, Accounted,
        State.setPhase_codePages, Tidy, here, hstep, hquiet, htidy,
        no_page_destroyPage howns,
        true_and, and_true]
  | @publish inner here =>
      rw [here] at hold
      obtain ⟨hquiet, htidy, howns, hnull⟩ := hold
      have hplain : Tidy args ⟨s, (c, os), (s.setOut (args c).outputOriginalFunc
            inner.codeCallOriginal).setPhase c
          (.locking inner (s.process.outs (args c).outputOriginalFunc))⟩ := by
        apply tidy_of_phase
        simp [here]
      simp only [State.setPhase_phase, Function.update_self, Accounted,
        State.setPhase_codePages, State.setOut_codePages, hplain, htidy,
        quiet_setOut_iff, hquiet, and_true, true_and]
      refine ⟨howns, fun hpage => ?_⟩
      rw [hnull hpage, eq_comm]
  | lock here free =>
      rw [here] at hold
      refine Accounted.framed (by simp [here]) rfl rfl rfl ?_
      simpa [Accounted] using hold
  | @refuse inner replaced here taken =>
      rw [here] at hold
      obtain ⟨htidy, howns, hquiet⟩ := hold
      have hstep : Quiet ⟨s, (c, os), s.setPhase c
          (.unlocking (.error (World.duplicateNameText (args c).name)))⟩ :=
        quiet_of_frame rfl rfl rfl
      simp only [State.setPhase_phase, Function.update_self, Accounted,
        State.setPhase_codePages, Tidy, here, taken, not_true_eq_false,
        false_or, hstep, true_and, htidy, and_true]
      constructor
      · rintro ⟨hq, hnone⟩
        have hpage := howns.mp hnone
        exact ⟨hpage, (hquiet hpage).mp hq⟩
      · rintro ⟨hpage, hzero⟩
        exact ⟨(hquiet hpage).mpr hzero, howns.mpr hpage⟩
  | add here distinct => simp [Accounted]
  | finish here => simp [Accounted]
  | leave here =>
      rw [here] at hold
      refine Accounted.framed (by simp [here]) rfl rfl rfl ?_
      simpa [Accounted] using hold

theorem Transition.codePages_ne (h : Transition z args os s c s')
    (hne : k ≠ c) (page : MemPage) :
    (k, page) ∈ s'.codePages ↔ (k, page) ∈ s.codePages := by
  cases h with
  | mapPage here => simp [hne]
  | unwind here destroyed =>
      simp only [State.setPhase_codePages, State.destroyPage_codePages]
      split <;> simp [hne]
  | _ => rfl

theorem run_accounted (h : (createSystem z args).Run s history) (c : Call) :
    Accounted (∀ e ∈ history, e.action.1 = c → Quiet e)
      (∀ e ∈ history, e.action.1 = c → Tidy args e)
      (fun page => (c, page) ∈ s.codePages) (s.phase c) := by
  induction h with
  | init h =>
      obtain ⟨process, rfl⟩ := h
      simp [start, Accounted]
  | @step s e s' history hrun hs ih =>
      obtain ⟨k, os⟩ := e
      have htrans : Transition z args os s k s' := advance_transition rfl hs
      simp only [List.forall_mem_cons]
      by_cases heq : k = c
      · subst heq
        simpa only [forall_const] using htrans.accounted ih
      · have hpages := htrans.codePages_ne (Ne.symm heq)
        simpa only [heq, false_imp_iff, true_and, hpages,
          htrans.phase_ne (Ne.symm heq)] using ih

theorem next_unwinding {what : String} {page : MemPage}
    (hphase : s.phase c = .unwinding what page) :
    (∃ s', next z args s (c, os) = some s' ∧ s'.phase c = .thrown what) ↔
      setMemProt os = .ok () ∧ os.freed page.memory ≠ none := by
  have hdestroy : (∃ m, page.destroy os s.process.mem = .ok m) ↔
      setMemProt os = .ok () ∧ os.freed page.memory ≠ none := by
    simp [MemPage.destroy_eq_ok, Option.ne_none_iff_exists']
  rw [← hdestroy]
  simp only [next, hphase, advance]
  cases page.destroy os s.process.mem with
  | ok m => simp
  | error e => simp

/-- The names stay distinct and every successful call adds its hook once; a call
that throws has changed nothing exactly when its steps were tidy.  An exception
that has to destroy a code page leaves the call exactly when the release of the
page comes back. -/
theorem create_atomic_iff (h : (createSystem z args).Run s history) :
    s.names.Nodup ∧
    (∀ c inner, s.phase c = .returned inner → (c, inner) ∈ s.insts ∧
      (s.insts.map Prod.fst).count c = 1 ∧ inner.name = (args c).name) ∧
    (∀ c inner, (c, inner) ∈ s.insts → s.phase c = .unlocking (.ok inner) ∨
      s.phase c = .returned inner) ∧
    (∀ c what, s.phase c = .thrown what → (Untouched c s history ↔
      ∀ e ∈ history, e.action.1 = c → Tidy args e)) ∧
    (∀ c what page os, s.phase c = .unwinding what page →
      ((∃ s', next z args s (c, os) = some s' ∧ s'.phase c = .thrown what) ↔
        setMemProt os = .ok () ∧ os.freed page.memory ≠ none)) := by
  have hreg := reachable_registered h.reachable
  refine ⟨hreg.names, ?_, ?_, ?_, fun c what page os => next_unwinding⟩
  · intro c inner hphase
    have hadded : (s.phase c).added = some inner := by
      simp [hphase, Phase.added]
    have hmem := (hreg.mem_iff c inner).mpr hadded
    refine ⟨hmem, ?_, hreg.named c inner (.inr hadded)⟩
    exact List.count_eq_one_of_mem hreg.calls (List.mem_map_of_mem hmem)
  · intro c inner hmem
    have hadded := (hreg.mem_iff c inner).mp hmem
    revert hadded
    unfold Phase.added
    split <;> simp_all
  · intro c what hphase
    have hacc := run_accounted h c
    rw [hphase] at hacc
    constructor
    · rintro ⟨hquiet, hpages⟩
      exact hacc.mp ⟨hquiet, hpages⟩
    · intro htidy
      exact ⟨(hacc.mpr htidy).1, (hacc.mpr htidy).2⟩

def sameName : Fin 2 → Args
  | 0 => ⟨"nop", 0x1000, 0x2000, 0x3000⟩
  | 1 => ⟨"nop", 0x1000, 0x2000, 0x3008⟩

def sameNameNoTarget : Fin 2 → Args
  | 0 => ⟨"nop", 0x1000, 0x2000, 0x3000⟩
  | 1 => ⟨"nop", 0, 0x2000, 0x3008⟩

def inTurn (n : Nat) : List (Fin 2 × Os) :=
  List.replicate 8 (0, smallOs) ++ List.replicate n (1, smallOs)

def Phase.what : Phase → Option String
  | thrown what => some what
  | _ => none

def Phase.hook : Phase → Option Inner
  | returned inner => some inner
  | _ => none

theorem Phase.eq_returned {p : Phase} {inner : Inner}
    (h : p.hook = some inner) : p = .returned inner := by
  cases p <;> simp_all [Phase.hook]

theorem Phase.eq_thrown {p : Phase} {what : String} (h : p.what = some what) :
    p = .thrown what := by
  cases p <;> simp_all [Phase.what]

theorem start_run (args : Fin 2 → Args) {n : Nat} {s : State (Fin 2)}
    (h : replay (next (tableZydis smallTable) args) (start nopProcess)
      (inTurn n) = some s) :
    ∃ history, (createSystem (tableZydis smallTable) args).Run s history := by
  have hinit : (createSystem (tableZydis smallTable) args).Run
      (start nopProcess) [] := .init ⟨nopProcess, rfl⟩
  exact hinit.replay (fun _ _ _ hstep => hstep) h

def tidySteps (args : Fin 2 → Args) (s : State (Fin 2)) (e : Fin 2 × Os) :
    Bool :=
  match s.phase e.1 with
  | .unwinding _ page => released e.2 page
  | .comparing inner replaced =>
      decide ((args e.1).name ∉ s.names ∨
        (inner.codePage = none ∧ replaced = 0))
  | _ => true

theorem tidy_of_tidySteps {args : Fin 2 → Args}
    {e : Event (State (Fin 2)) (Fin 2 × Os)}
    (h : tidySteps args e.before e.action = true) : Tidy args e := by
  unfold tidySteps at h
  unfold Tidy
  split at h
  · exact h
  · exact of_decide_eq_true h
  · trivial

theorem create_atomic_noTarget :
    ∃ s history, (createSystem (tableZydis smallTable) sameNameNoTarget).Run s
      history ∧ s.phase 1 = .thrown (World.duplicateNameText "nop") ∧
      Untouched 1 s history ∧ s.names.Nodup ∧
      ∃ inner, (0, inner) ∈ s.insts ∧ inner.name = "nop" ∧
        (s.insts.map Prod.fst).count 0 = 1 := by
  have hrun : (replayUnder (next (tableZydis smallTable) sameNameNoTarget)
      (tidySteps sameNameNoTarget) (start nopProcess) (inTurn 6)).map (fun s =>
        ((s.phase 0).hook.isSome, (s.phase 1).what)) =
      some (true, some (World.duplicateNameText "nop")) := by
    decide +kernel
  obtain ⟨s, hreplay, hfacts⟩ := Option.map_eq_some_iff.mp hrun
  simp only [Prod.mk.injEq] at hfacts
  obtain ⟨hsome, hwhat⟩ := hfacts
  have hinit : (createSystem (tableZydis smallTable) sameNameNoTarget).Run
      (start nopProcess) [] := .init ⟨nopProcess, rfl⟩
  obtain ⟨history, h, htidy⟩ := hinit.replayUnder (fun _ _ _ hstep => hstep)
    (by simp) hreplay
  obtain ⟨inner, hinner⟩ := Option.isSome_iff_exists.mp hsome
  have hthrown := Phase.eq_thrown hwhat
  obtain ⟨hnames, hreturned, -, huntouched, -⟩ := create_atomic_iff h
  obtain ⟨hmem, hcount, hname⟩ :=
    hreturned 0 inner (Phase.eq_returned hinner)
  exact ⟨s, history, h, hthrown, (huntouched 1 _ hthrown).mpr
    fun e he _ => tidy_of_tidySteps (htidy e he), hnames, inner, hmem, hname,
    hcount⟩

/-- The second call throws, but its output pointer is overwritten and its code
page stays mapped. -/
theorem create_leaks :
    ∃ s history, (createSystem (tableZydis smallTable) sameName).Run s
      history ∧ s.phase 1 = .thrown (World.duplicateNameText "nop") ∧
      nopProcess.outs 0x3008 = 0 ∧ s.process.outs 0x3008 = 0x1100 ∧
      ∃ page, (1, page) ∈ s.codePages := by
  have hrun : (replay (next (tableZydis smallTable) sameName)
      (start nopProcess) (inTurn 8)).map (fun s => ((s.phase 1).what,
        s.process.outs 0x3008, s.codePages.map Prod.fst)) =
      some (some (World.duplicateNameText "nop"), 0x1100, [1, 0]) := by
    decide +kernel
  obtain ⟨s, hreplay, hfacts⟩ := Option.map_eq_some_iff.mp hrun
  simp only [Prod.mk.injEq] at hfacts
  obtain ⟨hwhat, hout, hpages⟩ := hfacts
  obtain ⟨history, h⟩ := start_run _ hreplay
  have hmem : (1 : Fin 2) ∈ s.codePages.map Prod.fst := by
    simp [hpages]
  obtain ⟨⟨c, page⟩, hpage, rfl⟩ := List.mem_map.mp hmem
  exact ⟨s, history, h, Phase.eq_thrown hwhat, rfl, hout, page, hpage⟩

end Atomicity

/-! ## A call that runs alone -/

section Alone

variable [DecidableEq Call] {z : Zydis} {args : Call → Args} {os : Os}
  {s : State Call} {c : Call}

def State.world (s : State Call) : World where
  process := s.process
  insts := s.insts.map Prod.snd

def Phase.result : Phase → Option (Res Unit)
  | returned _ => some (.ok ())
  | thrown what => some (.error (.thrown what))
  | _ => none

def AloneTo (z : Zydis) (args : Call → Args) (os : Os) (c : Call)
    (s s' : State Call) : Prop :=
  ∃ n, replay (next z args) s (List.replicate n (c, os)) = some s'

theorem AloneTo.refl : AloneTo z args os c s s := ⟨0, rfl⟩

theorem AloneTo.step {s₁ s' : State Call} {p : Phase} (hp : s.phase c = p)
    (hnext : advance z args os s c p = some s₁)
    (h : AloneTo z args os c s₁ s') : AloneTo z args os c s s' := by
  obtain ⟨n, hn⟩ := h
  refine ⟨n + 1, ?_⟩
  subst hp
  rw [List.replicate_succ, replay, next, hnext]
  exact hn

structure Ends (z : Zydis) (args : Call → Args) (os : Os) (c : Call)
    (s : State Call) (r : Res Unit) (w : World) : Prop where
  run : ∃ s', AloneTo z args os c s s' ∧ s'.world = w ∧
    (s'.phase c).result = some r ∧ s'.registryMutex = none

theorem Ends.step {s₁ : State Call} {p : Phase} {r : Res Unit} {w : World}
    (hp : s.phase c = p) (hnext : advance z args os s c p = some s₁)
    (h : Ends z args os c s₁ r w) : Ends z args os c s r w := by
  obtain ⟨s', hrun, hrest⟩ := h.run
  exact ⟨s', hrun.step hp hnext, hrest⟩

theorem Ends.thrown {what : String} (hphase : s.phase c = .thrown what)
    (hfree : s.registryMutex = none) :
    Ends z args os c s (.error (.thrown what)) s.world :=
  ⟨s, .refl, rfl, by simp [hphase, Phase.result], hfree⟩

omit [DecidableEq Call] in
theorem any_name_iff {name : String} :
    (s.world.insts.any fun inner => decide (inner.name = name)) = true ↔
      name ∈ s.names := by
  simp [State.world, State.names]

theorem Ends.publish {inner : Inner} (hphase : s.phase c = .publishing inner)
    (hfree : s.registryMutex = none) {process : Process} {insts : List Inner}
    (hprocess : s.process.setOut (args c).outputOriginalFunc
      inner.codeCallOriginal = process)
    (hinsts : s.world.insts = insts) {r : Res Unit} {w : World}
    (h : (if insts.any (·.name = (args c).name) then
      (.error (.thrown (World.duplicateNameText (args c).name)),
        { process, insts })
      else (.ok (), { process, insts := insts ++ [inner] })) = (r, w)) :
    Ends z args os c s r w := by
  subst hprocess hinsts
  have hnone : (s.registryMutex.isNone : Prop) := by simp [hfree]
  refine Ends.step hphase rfl ?_
  refine Ends.step (State.setPhase_phase_self ..) (if_pos hnone) ?_
  split at h
  · rename_i hany
    have htaken := any_name_iff.mp hany
    cases h
    refine Ends.step (State.setPhase_phase_self ..) (if_pos htaken) ?_
    refine Ends.step (State.setPhase_phase_self ..) rfl ?_
    exact Ends.thrown (State.setPhase_phase_self ..) rfl
  · rename_i hany
    have hdistinct : (args c).name ∉ s.names := fun h => hany (any_name_iff.mpr h)
    cases h
    refine Ends.step (State.setPhase_phase_self ..) (if_neg hdistinct) ?_
    refine Ends.step (State.setPhase_phase_self ..) rfl ?_
    refine ⟨_, .refl, ?_, ?_, rfl⟩
    · simp [State.world]
    · rw [State.setPhase_phase_self]
      rfl

omit [DecidableEq Call] in
theorem continueWith_ok {α : Type} {r : Res α} {thrown : String → State Call}
    {ok : α → State Call} {a : α} (h : r = .ok a) :
    continueWith r thrown ok = some (ok a) := by
  subst h
  rfl

omit [DecidableEq Call] in
theorem continueWith_thrown {α : Type} {r : Res α}
    {thrown : String → State Call} {ok : α → State Call} {what : String}
    (h : r = .error (.thrown what)) :
    continueWith r thrown ok = some (thrown what) := by
  subst h
  rfl

theorem advance_unwinding {what : String} {page : MemPage} {m : Mem}
    (h : page.destroy os s.process.mem = .ok m) :
    advance z args os s c (.unwinding what page) =
      some ((s.destroyPage c os page m).setPhase c (.thrown what)) := by
  simp only [advance, h]

/-- A call that runs alone does what `create` does as a whole. -/
theorem create_alone (hphase : s.phase c = .notStarted)
    (hfree : s.registryMutex = none) {r : Res Unit} {w : World}
    (h : World.create z os s.world (args c).name (args c).targetFunc
      (args c).detourFunc (args c).outputOriginalFunc = (r, w))
    (hcompleted : World.completed r = true) : Ends z args os c s r w := by
  unfold World.create Inner.new at h
  simp only [State.world] at h
  refine Ends.step hphase rfl ?_
  cases hargs : Inner.resolveArgs s.process.mem (args c).name
      (args c).targetFunc (args c).detourFunc (args c).outputOriginalFunc with
  | error e =>
      rw [hargs] at h
      cases h
      obtain ⟨what, rfl⟩ := World.thrown_of_completed hcompleted
      refine Ends.step (State.setPhase_phase_self ..)
        (continueWith_thrown hargs) ?_
      exact Ends.thrown (State.setPhase_phase_self ..) hfree
  | ok resolved =>
      obtain ⟨t, d⟩ := resolved
      rw [hargs] at h
      dsimp only at h
      refine Ends.step (State.setPhase_phase_self ..) (continueWith_ok hargs) ?_
      by_cases hnull : t = 0
      · rw [if_pos hnull] at h ⊢
        dsimp only at h
        apply Ends.publish (State.setPhase_phase_self ..) ?_ rfl rfl
        · exact h
        · exact hfree
      · rw [if_neg hnull] at h ⊢
        cases hpage : MemPage.new os s.process.mem t with
        | error e =>
            rw [hpage] at h
            cases h
            obtain ⟨what, rfl⟩ := World.thrown_of_completed hcompleted
            refine Ends.step (State.setPhase_phase_self ..)
              (continueWith_thrown hpage) ?_
            exact Ends.thrown (State.setPhase_phase_self ..) hfree
        | ok allocated =>
            obtain ⟨page, m⟩ := allocated
            rw [hpage] at h
            dsimp only at h
            refine Ends.step (State.setPhase_phase_self ..)
              (continueWith_ok hpage) ?_
            cases hfill : Inner.fill z os m page (args c).name t d
                (args c).outputOriginalFunc with
            | error e =>
                rw [hfill] at h
                dsimp only at h
                cases hunwind : page.unwind os m e with
                | mk e' m' =>
                rw [hunwind] at h
                cases h
                obtain ⟨what, rfl⟩ := World.thrown_of_completed hcompleted
                obtain ⟨rfl, hdestroy⟩ := MemPage.unwind_thrown hunwind
                refine Ends.step (State.setPhase_phase_self ..)
                  (continueWith_thrown hfill) ?_
                refine Ends.step (State.setPhase_phase_self ..)
                  (advance_unwinding hdestroy) ?_
                exact Ends.thrown (State.setPhase_phase_self ..) hfree
            | ok filled =>
                rw [hfill] at h
                refine Ends.step (State.setPhase_phase_self ..)
                  (continueWith_ok hfill) ?_
                dsimp only at h
                apply Ends.publish (State.setPhase_phase_self ..) ?_ rfl rfl
                · exact h
                · exact hfree

end Alone

end Creation

end Ztour
