import Ztour.HookInst.Construction
import Ztour.Foundation.TransitionSystem

/-!
# Any number of hooks in one process

The registry is a list of hooks, and a `HookInst*` is a position in it.  The
steps are whole operations, each with its answers of the operating system; an
operation that faults ends the process and is no step.
-/

namespace Ztour

open Ztour.Foundation

structure World where
  process : Process
  insts : List Inner

inductive Op where
  | create (name : String) (targetFunc detourFunc outputOriginalFunc : Ptr)
  | changeTargetFunc (inst : Nat) (newTargetFunc : Ptr)
  | install (inst : Nat)
  | uninstall (inst : Nat)
  deriving DecidableEq

namespace World

section Operations

variable (z : Zydis) (os : Os) (w : World)

def duplicateNameText (name : String) : String :=
  "HookInst named \"" ++ name ++ "\" already exists"

/-- `_create`, which constructs first and compares the names afterwards. -/
def create (name : String) (targetFunc detourFunc outputOriginalFunc : Ptr) :
    Res Unit × World :=
  match Inner.new z os w.process name targetFunc detourFunc
      outputOriginalFunc with
  | (.error e, process) => (.error e, { w with process })
  | (.ok inner, process) =>
      if w.insts.any (·.name = name) then
        (.error (.thrown (duplicateNameText name)), { w with process })
      else (.ok (), { process, insts := w.insts ++ [inner] })

def changeTargetFunc (i : Nat) (inner : Inner) (newTargetFunc : Ptr) :
    Res Unit × World :=
  if inner.isInstalled then
    (.error (.thrown
      "Cannot change hook's target function while installed"), w)
  else
    match Inner.new z os w.process inner.name newTargetFunc inner.detourFunc
        inner.outputOriginalFunc with
    | (.error e, process) => (.error e, { w with process })
    | (.ok newInner, process) =>
        -- assigning `_inner` destroys the old `Inner`
        match inner.destroy os process.mem with
        | .error e => (.error e, { w with process })
        | .ok mem =>
            (.ok (),
              { process := { process with mem }
                insts := w.insts.set i newInner })

def putBack (i : Nat) (result : Res Unit × Inner × Mem) : Res Unit × World :=
  (result.1,
    { process := { w.process with mem := result.2.2 }
      insts := w.insts.set i result.2.1 })

def perform : Op → Option (Res Unit × World)
  | .create name targetFunc detourFunc outputOriginalFunc =>
      some (create z os w name targetFunc detourFunc outputOriginalFunc)
  | .changeTargetFunc i newTargetFunc =>
      w.insts[i]?.map fun inner => changeTargetFunc z os w i inner newTargetFunc
  | .install i =>
      w.insts[i]?.map fun inner =>
        putBack w i (inner.install os w.process.mem)
  | .uninstall i =>
      w.insts[i]?.map fun inner =>
        putBack w i (inner.uninstall os w.process.mem)

end Operations

def completed : Res Unit → Bool
  | .ok () => true
  | .error (.thrown _) => true
  | .error _ => false

theorem thrown_of_completed {e : Err} (h : completed (.error e) = true) :
    ∃ what, e = .thrown what := by
  cases e <;> simp [completed] at h
  exact ⟨_, rfl⟩

theorem throws_of_completed {r : Res Unit}
    (h : (completed r && !r.isOk) = true) : Throws r := by
  cases r with
  | ok u => simp [Except.isOk, Except.toBool] at h
  | error e =>
      simp only [Bool.and_eq_true] at h
      obtain ⟨what, rfl⟩ := thrown_of_completed h.1
      exact ⟨what, rfl⟩

def next (z : Zydis) (w : World) (call : Op × Os) : Option World := do
  let (result, w') ← perform z call.2 w call.1
  -- a fault ends the process
  if completed result then some w' else none

def start (m₀ : Mem) (outs : Ptr → Ptr) : World where
  process := { mem := m₀, outs, pages := [] }
  insts := []

end World

def hookSystem (z : Zydis) (m₀ : Mem) :
    TransitionSystem World (Op × Os) where
  init w := ∃ outs, w = .start m₀ outs
  step w call w' := World.next z w call = some w'

/-! ## What an operation can do -/

namespace World

structure Writes (op : Op) (i : Nat) (inner : Inner)
    (prepared : Res (List Byte)) (flag : Bool) : Prop where
  cases : (op = .install i ∧ prepared = inner.prepareInstall ∧ flag = true) ∨
    (op = .uninstall i ∧ prepared = inner.prepareUninstall ∧ flag = false)

inductive Effect (z : Zydis) (os : Os) (w : World) :
    Op → Res Unit → World → Prop
  | refused (op : Op) (e : Err) : Effect z os w op (.error e) w
  /-- A constructor ran, and its hook was dropped or never came to be. -/
  | dropped (op : Op) (e : Err) (name : String) (t d out : Ptr)
      (r : Res Inner) (p' : Process)
      (built : Inner.NewOutcome z os w.process name t d out (r, p')) :
      Effect z os w op (.error e) { w with process := p' }
  | created (name : String) (t d out : Ptr) (inner : Inner) (p' : Process)
      (built : Inner.NewOutcome z os w.process name t d out (.ok inner, p'))
      (distinct : ∀ other ∈ w.insts, other.name ≠ name) :
      Effect z os w (.create name t d out) (.ok ())
        { process := p', insts := w.insts ++ [inner] }
  | changed (i : Nat) (t : Ptr) (inner newInner : Inner) (p' : Process)
      (m' : Mem) (present : w.insts[i]? = some inner)
      (notInstalled : inner.isInstalled = false)
      (built : Inner.NewOutcome z os w.process inner.name t inner.detourFunc
        inner.outputOriginalFunc (.ok newInner, p'))
      (destroyed : inner.destroy os p'.mem = .ok m') :
      Effect z os w (.changeTargetFunc i t) (.ok ())
        { process := { p' with mem := m' }, insts := w.insts.set i newInner }
  | wrote (op : Op) (i : Nat) (inner inner' : Inner)
      (prepared : Res (List Byte)) (flag : Bool) (r : Res Unit) (m' : Mem)
      (present : w.insts[i]? = some inner)
      (writes : Writes op i inner prepared flag)
      (outcome : Inner.OverwriteOutcome inner os w.process.mem prepared flag
        (r, inner', m')) :
      Effect z os w op r
        { process := { w.process with mem := m' }
          insts := w.insts.set i inner' }

theorem perform_effect {z : Zydis} (hz : z.Lawful) {os : Os} {w w' : World}
    {op : Op} {r : Res Unit} (h : perform z os w op = some (r, w')) :
    Effect z os w op r w' := by
  cases op with
  | create name t d out =>
      have hnew := Inner.new_outcome hz os w.process name t d out
      simp only [perform, create, Option.some.injEq] at h
      generalize Inner.new z os w.process name t d out = result at hnew h
      obtain ⟨res, p'⟩ := result
      cases res with
      | error e =>
          cases h
          exact .dropped _ e name t d out _ p' hnew
      | ok inner =>
          dsimp only at h
          split at h
          · cases h
            exact .dropped _ _ name t d out _ p' hnew
          · rename_i hnames
            cases h
            refine .created name t d out inner p' hnew ?_
            intro other hother hname
            exact hnames (List.any_eq_true.mpr ⟨other, hother, by simpa using hname⟩)
  | changeTargetFunc i t =>
      obtain ⟨inner, hget, h⟩ := Option.map_eq_some_iff.mp h
      unfold changeTargetFunc at h
      split at h
      · cases h
        exact .refused _ _
      · rename_i hnot
        have hnew := Inner.new_outcome hz os w.process inner.name t
          inner.detourFunc inner.outputOriginalFunc
        generalize Inner.new z os w.process inner.name t inner.detourFunc
          inner.outputOriginalFunc = result at hnew h
        obtain ⟨res, p'⟩ := result
        cases res with
        | error e =>
            cases h
            exact .dropped _ e _ _ _ _ _ p' hnew
        | ok newInner =>
            dsimp only at h
            split at h
            · cases h
              exact .dropped _ _ _ _ _ _ _ p' hnew
            · rename_i m' hdestroy
              cases h
              exact .changed i t inner newInner p' m' hget (by simpa using hnot)
                hnew hdestroy
  | install i =>
      obtain ⟨inner, hget, h⟩ := Option.map_eq_some_iff.mp h
      cases h
      exact .wrote _ i inner _ _ _ _ _ hget ⟨.inl ⟨rfl, rfl, rfl⟩⟩
        (Inner.overwrite_outcome inner os w.process.mem _ _)
  | uninstall i =>
      obtain ⟨inner, hget, h⟩ := Option.map_eq_some_iff.mp h
      cases h
      exact .wrote _ i inner _ _ _ _ _ hget ⟨.inr ⟨rfl, rfl, rfl⟩⟩
        (Inner.overwrite_outcome inner os w.process.mem _ _)

theorem next_completed {z : Zydis} {w w' : World} {op : Op} {os : Os}
    (h : next z w (op, os) = some w') :
    ∃ r, perform z os w op = some (r, w') ∧ completed r = true := by
  simp only [next, Option.bind_eq_bind, Option.bind_eq_some_iff] at h
  obtain ⟨⟨r, w₁⟩, hperform, hres⟩ := h
  split at hres
  · rename_i hcompleted
    cases hres
    exact ⟨r, hperform, hcompleted⟩
  · cases hres

theorem next_effect {z : Zydis} (hz : z.Lawful) {w w' : World} {op : Op}
    {os : Os} (h : next z w (op, os) = some w') :
    ∃ r, perform z os w op = some (r, w') ∧ Effect z os w op r w' := by
  obtain ⟨r, hperform, -⟩ := next_completed h
  exact ⟨r, hperform, perform_effect hz hperform⟩

end World

/-! ## Well-formed hooks -/

namespace Inner

structure WellFormed (inner : Inner) : Prop where
  length_lt : inner.patchedOriginalBytes.length < 20
  length_ge : inner.targetFunc ≠ 0 → 5 ≤ inner.patchedOriginalBytes.length
  jump_fits : inner.isInstalled = true → inner.targetFunc ≠ 0 ∧
    FitsSigned 32 (inner.codeEnterDetour - (inner.targetFunc + 5))

theorem NewOutcome.wellFormed {z : Zydis} {os : Os} {p p' : Process}
    {name : String} {target detour out : Ptr} {inner : Inner}
    (h : NewOutcome z os p name target detour out (.ok inner, p')) :
    inner.WellFormed := by
  have hnot := h.notInstalled
  cases h with
  | noTarget d resolved =>
      exact ⟨by simp [withoutTarget], fun hne => absurd rfl hne, by simp [hnot]⟩
  | constructed inner page m m' resolved nonnull fresh filled named output =>
      exact ⟨filled.length_lt, fun _ => filled.length_ge, by simp [hnot]⟩

end Inner

namespace World

theorem Writes.wellFormed {os : Os} {op : Op} {i : Nat} {inner inner' : Inner}
    {prepared : Res (List Byte)} {flag : Bool} {m m' : Mem} {r : Res Unit}
    (hwrites : Writes op i inner prepared flag) (hinner : inner.WellFormed)
    (h : Inner.OverwriteOutcome inner os m prepared flag (r, inner', m')) :
    inner'.WellFormed := by
  cases h with
  | rejected e refused => exact hinner
  | failed e bytes ready short => exact hinner
  | done bytes ready whole =>
      refine ⟨hinner.length_lt, hinner.length_ge, ?_⟩
      rcases hwrites.cases with ⟨-, rfl, rfl⟩ | ⟨-, rfl, rfl⟩
      · obtain ⟨-, htarget, -, hfits, -⟩ := Inner.prepareInstall_eq_ok ready
        exact fun _ => ⟨htarget, hfits⟩
      · simp

theorem reachable_wellFormed {z : Zydis} (hz : z.Lawful) {m₀ : Mem} {w : World}
    (h : (hookSystem z m₀).Reachable w) :
    ∀ inner ∈ w.insts, inner.WellFormed := by
  refine TransitionSystem.ReachableUnder.invariant
    (I := fun w => ∀ inner ∈ w.insts, inner.WellFormed) ?_ ?_ h
  · rintro w ⟨outs, rfl⟩ inner hmem
    cases hmem
  · rintro w ⟨op, os⟩ w' hI hstep -
    obtain ⟨r, -, heffect⟩ := next_effect hz hstep
    cases heffect with
    | refused op e => exact hI
    | dropped op e name t d out r p' built => exact hI
    | created name t d out inner p' built distinct =>
        intro other hother
        rcases List.mem_append.mp hother with hold | hnew
        · exact hI other hold
        · rw [List.mem_singleton.mp hnew]
          exact built.wellFormed
    | changed i t inner newInner p' m' present notInstalled built destroyed =>
        intro other hother
        rcases List.mem_or_eq_of_mem_set hother with hold | rfl
        · exact hI other hold
        · exact built.wellFormed
    | wrote op i inner inner' prepared flag r m' present writes outcome =>
        intro other hother
        rcases List.mem_or_eq_of_mem_set hother with hold | rfl
        · exact hI other hold
        · exact writes.wellFormed (hI inner (List.mem_of_getElem? present))
            outcome

theorem map_set_of_eq {β : Type} {field : Inner → β} {insts : List Inner}
    {i : Nat} {inner inner' : Inner} (present : insts[i]? = some inner)
    (h : field inner' = field inner) :
    (insts.set i inner').map field = insts.map field := by
  have hi := (List.getElem?_eq_some_iff.mp present).1
  apply List.ext_getElem?
  intro k
  rw [List.getElem?_map, List.getElem?_map]
  by_cases hk : i = k
  · subst hk
    rw [List.getElem?_set_self hi, present]
    exact congrArg some h
  · rw [List.getElem?_set_ne hk]

/-! ## The bytes that an operation touches -/

section Touched

variable {z : Zydis}

/-- The bytes that an operation stores to, or frees, at places that existed
before it. -/
def touched (z : Zydis) (w : World) (call : Op × Os) : Set Ptr :=
  match call.1 with
  | .create .. => ∅
  | .changeTargetFunc i t =>
      {x | ∃ inner page, w.insts[i]? = some inner ∧
        (changeTargetFunc z call.2 w i inner t).1 = .ok () ∧
        inner.codePage = some page ∧ x ∈ page.range}
  | .install i =>
      {x | ∃ inner bytes, w.insts[i]? = some inner ∧
        inner.prepareInstall = .ok bytes ∧
        x ∈ span inner.targetFunc (call.2.selfMem.stored w.process.mem
          inner.targetFunc bytes.length)}
  | .uninstall i =>
      {x | ∃ inner bytes, w.insts[i]? = some inner ∧
        inner.prepareUninstall = .ok bytes ∧
        x ∈ span inner.targetFunc (call.2.selfMem.stored w.process.mem
          inner.targetFunc bytes.length)}

def Succeeds (z : Zydis) (e : Event World (Op × Os)) : Prop :=
  ∃ w, perform z e.action.2 e.before e.action.1 = some (.ok (), w)

theorem Writes.touched_eq (z : Zydis) {op : Op} {j : Nat} {other : Inner}
    {bytes : List Byte} {flag : Bool} {w : World} (os : Os)
    (h : Writes op j other (.ok bytes) flag)
    (present : w.insts[j]? = some other) :
    span other.targetFunc (os.selfMem.stored w.process.mem other.targetFunc
      bytes.length) ⊆ touched z w (op, os) := by
  intro x hx
  rcases h.cases with ⟨rfl, hprepared, -⟩ | ⟨rfl, hprepared, -⟩
  · exact ⟨other, bytes, present, hprepared.symm, hx⟩
  · exact ⟨other, bytes, present, hprepared.symm, hx⟩

theorem range_patch {inner : Inner} (h : inner.WellFormed)
    (hinstalled : inner.isInstalled = true) :
    inner.patch.length ≤ 2 ^ 64 ∧
      span inner.targetFunc inner.patch.length = inner.range := by
  have hlt := h.length_lt
  have hlen := Inner.length_patch
    (h.length_ge (h.jump_fits hinstalled).1)
  exact ⟨by omega, by rw [hlen]; rfl⟩

theorem holds_patch_of_eq {inner : Inner} {m m' : Mem} (h : inner.WellFormed)
    (hinstalled : inner.isInstalled = true)
    (hholds : m.Holds inner.targetFunc inner.patch)
    (heq : ∀ x ∈ inner.range, m x ≠ none → m' x = m x) :
    m'.Holds inner.targetFunc inner.patch := by
  obtain ⟨hlen, hrange⟩ := range_patch h hinstalled
  refine hholds.congr hlen ?_
  intro x hx
  refine heq x (hrange ▸ hx) ?_
  obtain ⟨k, hk, -, rfl⟩ := eq_offset_of_mem_span hx
  rw [hholds k hk]
  simp

theorem outcome_mem_eq {inner inner' : Inner} {os : Os} {m m' : Mem}
    {prepared : Res (List Byte)} {flag : Bool} {r : Res Unit} {x : Ptr}
    (h : Inner.OverwriteOutcome inner os m prepared flag (r, inner', m'))
    (hx : ∀ bytes, prepared = .ok bytes → x ∉ span inner.targetFunc
      (os.selfMem.stored m inner.targetFunc bytes.length)) :
    m' x = m x := by
  cases h with
  | rejected e refused => rfl
  | failed e bytes ready short =>
      apply Memory.write_of_not_mem
      exact fun hmem => hx bytes ready
        (span_mono (List.length_take_le _ bytes) hmem)
  | done bytes ready whole =>
      apply Memory.write_of_not_mem
      exact fun hmem => hx bytes ready (by rwa [whole])

theorem done_holds {inner : Inner} {m : Mem} {bytes : List Byte}
    (h : inner.WellFormed) (ready : inner.prepareInstall = .ok bytes) :
    (m.write inner.targetFunc bytes).Holds inner.targetFunc inner.patch := by
  obtain ⟨-, htarget, -, -, rfl⟩ := Inner.prepareInstall_eq_ok ready
  have hlen := Inner.length_patch (h.length_ge htarget)
  have hbound := h.length_lt
  exact Memory.holds_write (by omega)

theorem perform_install {os : Os} {w : World} {i : Nat} {inner : Inner}
    {r : Res Unit} (hget : w.insts[i]? = some inner)
    (h : (inner.install os w.process.mem).1 = r) :
    perform z os w (.install i) =
      some (r, (putBack w i (inner.install os w.process.mem)).2) := by
  subst h
  simp only [perform, hget, Option.map_some]
  rfl

theorem perform_create {os : Os} {w : World} {name : String} {t d out : Ptr}
    {r : Res Unit} (h : (create z os w name t d out).1 = r) :
    perform z os w (.create name t d out) =
      some (r, (create z os w name t d out).2) := by
  subst h
  rfl

theorem succeeds_of_perform {os : Os} {w w₁ w' : World} {op : Op}
    (h : perform z os w op = some (.ok (), w₁)) :
    Succeeds z ⟨w, (op, os), w'⟩ := ⟨w₁, h⟩

theorem next_of_perform {os : Os} {w w' : World} {op : Op}
    (h : perform z os w op = some (.ok (), w')) :
    next z w (op, os) = some w' := by
  simp only [next, h]
  rfl

end Touched

end World

end Ztour
