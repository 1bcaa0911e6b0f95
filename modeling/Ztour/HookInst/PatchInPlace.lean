import Ztour.HookInst.ControlFlow
import Ztour.HookInst.World

/-!
# The patch of an installed hook

Only names are compared when a hook is created, so that hooks may share a
target, and then each writes over the other's patch.  An installed hook has its
patch in place as long as, since its last installation, no other operation has
stored to or freed a byte of its range and no own removal was cut short.
-/

namespace Ztour

open Ztour.Foundation

namespace World

variable {z : Zydis}

def Installs (z : Zydis) (i : Nat) (e : Event World (Op × Os)) : Prop :=
  e.action.1 = .install i ∧ Succeeds z e

/-- The event removes hook `i`, or stays away from its patched range. -/
def LeavesAlone (z : Zydis) (i : Nat) (e : Event World (Op × Os)) : Prop :=
  (e.action.1 = .uninstall i ∧ Succeeds z e) ∨
    ∀ inner, e.before.insts[i]? = some inner →
      Disjoint (touched z e.before e.action) inner.range

def InPlace (i : Nat) (w : World) : Prop :=
  ∀ inner, w.insts[i]? = some inner → inner.isInstalled = true →
    w.process.mem.Holds inner.targetFunc inner.patch

/-! ## One operation -/

theorem wrote_inPlace {i j : Nat} {w : World} {op : Op} {os : Os}
    {other other' : Inner} {prepared : Res (List Byte)} {flag : Bool}
    {r : Res Unit} {m' : Mem} (hwf : ∀ inner ∈ w.insts, inner.WellFormed)
    (hplace : InPlace i w) (present : w.insts[j]? = some other)
    (writes : Writes op j other prepared flag)
    (outcome : Inner.OverwriteOutcome other os w.process.mem prepared flag
      (r, other', m'))
    (hleaves : (op = .uninstall i ∧ r = .ok ()) ∨
      ∀ inner, w.insts[i]? = some inner →
        Disjoint (touched z w (op, os)) inner.range) :
    InPlace i { process := { w.process with mem := m' }
                insts := w.insts.set j other' } := by
  intro inner hget hinstalled
  dsimp only at hget ⊢
  have hlt := (List.getElem?_eq_some_iff.mp present).1
  have hkeep : w.insts[i]? = some inner →
      (∀ inner, w.insts[i]? = some inner →
        Disjoint (touched z w (op, os)) inner.range) →
      Memory.Holds m' inner.targetFunc inner.patch := by
    intro hpresent hdisj
    refine holds_patch_of_eq (hwf inner (List.mem_of_getElem? hpresent))
      hinstalled (hplace inner hpresent hinstalled) fun x hx _ => ?_
    apply outcome_mem_eq outcome
    intro bytes hready hmem
    have htouched := (hready ▸ writes).touched_eq z _ present hmem
    exact Set.disjoint_left.mp (hdisj inner hpresent) htouched hx
  by_cases hij : j = i
  · subst hij
    rw [List.getElem?_set_self hlt, Option.some.injEq] at hget
    subst hget
    cases outcome with
    | rejected e refused => exact hplace _ present hinstalled
    | failed e bytes ready short =>
        rcases hleaves with ⟨-, hok⟩ | hdisj
        · cases hok
        · exact hkeep present hdisj
    | done bytes ready whole =>
        rcases writes.cases with ⟨-, rfl, -⟩ | ⟨-, -, rfl⟩
        · exact done_holds (hwf other (List.mem_of_getElem? present)) ready
        · cases hinstalled
  · rw [List.getElem?_set_ne hij] at hget
    rcases hleaves with ⟨hop, -⟩ | hdisj
    · rcases writes.cases with ⟨hop', -⟩ | ⟨hop', -⟩
      · cases hop.symm.trans hop'
      · cases hop.symm.trans hop'
        exact absurd rfl hij
    · exact hkeep hget hdisj

theorem installs_inPlace (hz : z.Lawful) {i : Nat} {w w' : World} {op : Op}
    {os : Os} (hwf : ∀ inner ∈ w.insts, inner.WellFormed)
    (hstep : next z w (op, os) = some w')
    (hinstalls : Installs z i ⟨w, (op, os), w'⟩) : InPlace i w' := by
  obtain ⟨hop, w₁, hok⟩ := hinstalls
  obtain ⟨r, hperform, heffect⟩ := next_effect hz hstep
  dsimp only at hop hok
  rw [hok] at hperform
  cases hperform
  subst hop
  cases heffect with
  | wrote op j other other' prepared flag r m' present writes outcome =>
      have hlt := (List.getElem?_eq_some_iff.mp present).1
      intro inner hget hinstalled
      rcases writes.cases with ⟨hop, rfl, rfl⟩ | ⟨hop, -, -⟩
      · cases hop
        cases outcome with
        | done bytes ready whole =>
            rw [List.getElem?_set_self hlt, Option.some.injEq] at hget
            subst hget
            exact done_holds (hwf other (List.mem_of_getElem? present)) ready
      · cases hop

theorem built_inPlace {i : Nat} {w : World} {os : Os} {p' : Process}
    {name : String} {t d out : Ptr} {r : Res Inner}
    (hwf : ∀ inner ∈ w.insts, inner.WellFormed) (hplace : InPlace i w)
    (built : Inner.NewOutcome z os w.process name t d out (r, p')) :
    InPlace i { w with process := p' } := by
  intro inner hget hinstalled
  exact holds_patch_of_eq (hwf inner (List.mem_of_getElem? hget)) hinstalled
    (hplace inner hget hinstalled) fun x _ hmapped => built.mem_eq (.inl hmapped)

theorem created_inPlace {i : Nat} {w : World} {os : Os} {p' : Process}
    {name : String} {t d out : Ptr} {newInner : Inner}
    (hwf : ∀ inner ∈ w.insts, inner.WellFormed) (hplace : InPlace i w)
    (built : Inner.NewOutcome z os w.process name t d out
      (.ok newInner, p')) :
    InPlace i { process := p', insts := w.insts ++ [newInner] } := by
  intro inner hget hinstalled
  rcases Nat.lt_or_ge i w.insts.length with hlt | hge
  · rw [List.getElem?_append_left hlt] at hget
    exact built_inPlace hwf hplace built inner hget hinstalled
  · rw [List.getElem?_append_right hge] at hget
    have hnew := List.mem_singleton.mp (List.mem_of_getElem? hget)
    rw [hnew, built.notInstalled] at hinstalled
    cases hinstalled

theorem changed_inPlace {i j : Nat} {w : World} {os : Os} {p' : Process}
    {t : Ptr} {other newInner : Inner} {m' : Mem}
    (hwf : ∀ inner ∈ w.insts, inner.WellFormed) (hplace : InPlace i w)
    (present : w.insts[j]? = some other)
    (built : Inner.NewOutcome z os w.process other.name t other.detourFunc
      other.outputOriginalFunc (.ok newInner, p'))
    (destroyed : other.destroy os p'.mem = .ok m')
    (hfreed : ∀ inner page, w.insts[i]? = some inner →
      other.codePage = some page → Disjoint page.range inner.range) :
    InPlace i
      { process := { p' with mem := m' }
        insts := w.insts.set j newInner } := by
  intro inner hget hinstalled
  have hlt := (List.getElem?_eq_some_iff.mp present).1
  by_cases hij : j = i
  · subst hij
    rw [List.getElem?_set_self hlt, Option.some.injEq] at hget
    rw [← hget, built.notInstalled] at hinstalled
    cases hinstalled
  · rw [List.getElem?_set_ne hij] at hget
    refine holds_patch_of_eq (hwf inner (List.mem_of_getElem? hget)) hinstalled
      (hplace inner hget hinstalled) ?_
    intro x hx hmapped
    refine (Inner.destroy_of_not_mem destroyed ?_).trans
      (built.mem_eq (.inl hmapped))
    intro page hpage hmem
    exact Set.disjoint_left.mp (hfreed inner page hget hpage) hmem hx

theorem leavesAlone_inPlace (hz : z.Lawful) {i : Nat} {w w' : World} {op : Op}
    {os : Os} (hwf : ∀ inner ∈ w.insts, inner.WellFormed)
    (hplace : InPlace i w) (hstep : next z w (op, os) = some w')
    (hleaves : LeavesAlone z i ⟨w, (op, os), w'⟩) : InPlace i w' := by
  obtain ⟨r, hperform, heffect⟩ := next_effect hz hstep
  have hleaves' : (op = .uninstall i ∧ r = .ok ()) ∨
      ∀ inner, w.insts[i]? = some inner →
        Disjoint (touched z w (op, os)) inner.range := by
    rcases hleaves with ⟨hop, w₁, hok⟩ | hdisj
    · dsimp only at hok
      rw [hperform, Option.some.injEq, Prod.mk.injEq] at hok
      exact .inl ⟨hop, hok.1⟩
    · exact .inr hdisj
  cases heffect with
  | refused op e => exact hplace
  | dropped op e name t d out r p' built => exact built_inPlace hwf hplace built
  | created name t d out newInner p' built distinct =>
      exact created_inPlace hwf hplace built
  | changed j t other newInner p' m' present notInstalled built destroyed =>
      have hcall : (changeTargetFunc z os w j other t).1 = .ok () := by
        simp only [perform, present, Option.map_some, Option.some.injEq]
          at hperform
        rw [hperform]
      refine changed_inPlace hwf hplace present built destroyed ?_
      intro inner page hget hpage
      rcases hleaves' with ⟨hop, -⟩ | hdisj
      · cases hop
      · refine (hdisj inner hget).mono_left fun x hx => ?_
        exact ⟨other, page, present, hcall, hpage, hx⟩
  | wrote op j other other' prepared flag r m' present writes outcome =>
      exact wrote_inPlace hwf hplace present writes outcome hleaves'

theorem touched_install_subset {w : World} {os : Os} {i : Nat} {inner : Inner}
    (present : w.insts[i]? = some inner) (hwf : inner.WellFormed) :
    touched z w (.install i, os) ⊆ inner.range := by
  rintro x ⟨inner', bytes, present', ready, hx⟩
  cases present.symm.trans present'
  obtain ⟨-, htarget, -, -, rfl⟩ := Inner.prepareInstall_eq_ok ready
  rw [Inner.length_patch (hwf.length_ge htarget)] at hx
  exact span_mono (SelfMemAnswer.stored_le _ _ _ _) hx

/-! ## Every run -/

/-- In every run, an installed hook has its patch in place, and the patch leads
to its trampoline, if all operations since its installation left it alone. -/
theorem patch_in_place (hz : z.Lawful) {m₀ : Mem} {w : World}
    {history : List (Event World (Op × Os))}
    (hrun : (hookSystem z m₀).Run w history) {i : Nat}
    (hsince : TransitionSystem.Since (Installs z i) (LeavesAlone z i) history)
    {inner : Inner} (hget : w.insts[i]? = some inner)
    (hinstalled : inner.isInstalled = true) :
    w.process.mem.Holds inner.targetFunc inner.patch ∧
      inner.patch.length = inner.patchedOriginalBytes.length ∧
      jumpTarget w.process.mem inner.targetFunc =
        some inner.codeEnterDetour := by
  have hinv : ∀ w, (hookSystem z m₀).Reachable w →
      ∀ inner ∈ w.insts, inner.WellFormed :=
    fun _ h => reachable_wellFormed hz h
  have hplace : InPlace i w := by
    refine hrun.invariant_since hinv ?_ ?_ ?_ hsince
    · rintro w ⟨outs, rfl⟩ inner hget
      simp [start] at hget
    · intro w ⟨op, os⟩ w' hwf hstep hopens
      exact installs_inPlace hz hwf hstep hopens
    · intro w ⟨op, os⟩ w' hwf hplace hstep hleaves
      exact leavesAlone_inPlace hz hwf hplace hstep hleaves
  have hholds := hplace inner hget hinstalled
  have hwell := hinv w hrun.reachable inner (List.mem_of_getElem? hget)
  obtain ⟨htarget, hfits⟩ := hwell.jump_fits hinstalled
  exact ⟨hholds, Inner.length_patch (hwell.length_ge htarget),
    Inner.jumpTarget_patch hfits hholds⟩

def nopWorld : World where
  process := Inner.nopHooked
  insts := [Inner.nopInner]

def nopInstalledWorld : World :=
  (putBack nopWorld 0
    (Inner.nopInner.install smallOs Inner.nopHooked.mem)).2

theorem create_nop_ok :
    create (tableZydis smallTable) smallOs
      (start nopProcess.mem nopProcess.outs) "nop" 0x1000 0x2000 0x3000 =
        (.ok (), nopWorld) := by
  unfold create
  rw [show (start nopProcess.mem nopProcess.outs).process = nopProcess from rfl,
    Inner.new_nop]
  rfl

theorem next_create_nop :
    next (tableZydis smallTable) (start nopProcess.mem nopProcess.outs)
      (.create "nop" 0x1000 0x2000 0x3000, smallOs) = some nopWorld := by
  apply next_of_perform
  rw [perform, create_nop_ok]

theorem install_nop_ok :
    (Inner.nopInner.install smallOs Inner.nopHooked.mem).1 = .ok () := by
  decide +kernel

theorem perform_install_nop :
    perform (tableZydis smallTable) smallOs nopWorld (.install 0) =
      some (.ok (), nopInstalledWorld) := by
  rw [nopInstalledWorld]
  exact perform_install rfl install_nop_ok

def twoFunctions : Mem :=
  nopProcess.mem.write 0x1800 [0x90, 0x90, 0x90, 0x90, 0x90]

def otherInner : Inner :=
  { Inner.nopInner with
    name := "other"
    targetFunc := 0x1800
    codeEnterDetour := 0x1713
    codeCallOriginal := 0x1700
    outputOriginalFunc := 0x3008
    codePage := Inner.nopInner.codePage.map fun page =>
      { page with memory := 0x1700 } }

def oneHooked : World :=
  (create (tableZydis smallTable) smallOs (start twoFunctions nopProcess.outs)
    "nop" 0x1000 0x2000 0x3000).2

def bothHooked : World :=
  (create (tableZydis smallTable) smallOs oneHooked "other" 0x1800 0x2000
    0x3008).2

def firstInstalled : World :=
  (putBack bothHooked 0
    (Inner.nopInner.install smallOs bothHooked.process.mem)).2

def bothInstalled : World :=
  (putBack firstInstalled 1
    (otherInner.install smallOs firstInstalled.process.mem)).2

theorem insts_bothHooked : bothHooked.insts = [Inner.nopInner, otherInner] := by
  decide +kernel

theorem insts_firstInstalled : firstInstalled.insts =
    [{ Inner.nopInner with isInstalled := true }, otherInner] := by
  decide +kernel

theorem insts_bothInstalled : bothInstalled.insts =
    [{ Inner.nopInner with isInstalled := true },
      { otherInner with isInstalled := true }] := by
  decide +kernel

theorem perform_create_first :
    perform (tableZydis smallTable) smallOs (start twoFunctions nopProcess.outs)
      (.create "nop" 0x1000 0x2000 0x3000) = some (.ok (), oneHooked) :=
  perform_create (by decide +kernel)

theorem perform_create_other :
    perform (tableZydis smallTable) smallOs oneHooked
      (.create "other" 0x1800 0x2000 0x3008) = some (.ok (), bothHooked) :=
  perform_create (by decide +kernel)

theorem perform_install_first :
    perform (tableZydis smallTable) smallOs bothHooked (.install 0) =
      some (.ok (), firstInstalled) :=
  perform_install (by rw [insts_bothHooked]; rfl) (by decide +kernel)

theorem perform_install_other :
    perform (tableZydis smallTable) smallOs firstInstalled (.install 1) =
      some (.ok (), bothInstalled) :=
  perform_install (by rw [insts_firstInstalled]; rfl) (by decide +kernel)

theorem bothHooked_run :
    ∃ history, (hookSystem (tableZydis smallTable) twoFunctions).Run bothHooked
      history :=
  ⟨_, .step (.step (.init ⟨nopProcess.outs, rfl⟩)
    (next_of_perform perform_create_first))
    (next_of_perform perform_create_other)⟩

theorem ranges_apart : Disjoint otherInner.range Inner.nopInner.range := by
  rw [Set.disjoint_left]
  intro x hx
  obtain ⟨i, hi, -, rfl⟩ := eq_offset_of_mem_span hx
  have hi5 : i < 5 := hi
  unfold Inner.range
  interval_cases i <;> decide

theorem patch_in_place_nop :
    ∃ inner, bothInstalled.insts[0]? = some inner ∧
      bothInstalled.insts.map Inner.isInstalled = [true, true] ∧
      bothInstalled.process.mem.Holds inner.targetFunc inner.patch := by
  obtain ⟨history, hhooked⟩ := bothHooked_run
  have hrun := (hhooked.step (next_of_perform perform_install_first)).step
    (next_of_perform perform_install_other)
  have hget : bothInstalled.insts[0]? =
      some { Inner.nopInner with isInstalled := true } := by
    rw [insts_bothInstalled]
    rfl
  have hleaves : LeavesAlone (tableZydis smallTable) 0
      ⟨firstInstalled, (.install 1, smallOs), bothInstalled⟩ := by
    right
    intro inner hinner
    rw [insts_firstInstalled] at hinner
    cases hinner
    refine ranges_apart.mono_left (touched_install_subset ?_ ?_)
    · rw [insts_firstInstalled]
      rfl
    · exact ⟨by decide, by decide, by decide⟩
  have hinstalls : Installs (tableZydis smallTable) 0
      ⟨bothHooked, (.install 0, smallOs), firstInstalled⟩ :=
    ⟨rfl, succeeds_of_perform perform_install_first⟩
  have hsince : TransitionSystem.Since (Installs (tableZydis smallTable) 0)
      (LeavesAlone (tableZydis smallTable) 0)
      (⟨firstInstalled, (.install 1, smallOs), bothInstalled⟩ ::
        ⟨bothHooked, (.install 0, smallOs), firstInstalled⟩ :: history) :=
    .inr ⟨hleaves, .inl hinstalls⟩
  have hplace := patch_in_place (tableZydis_lawful _) hrun hsince hget rfl
  exact ⟨_, hget, by rw [insts_bothInstalled]; rfl, hplace.1⟩

def sharedTarget : List (Op × Os) :=
  [(.create "first" 0x1000 0x2000 0x3000, smallOs),
    (.create "second" 0x1000 0x2000 0x3008, smallOs),
    (.install 0, smallOs), (.install 1, smallOs)]

def LosesPatch (w : World) : Bool :=
  match w.insts[0]? with
  | some inner => inner.isInstalled &&
      (w.process.mem.read inner.targetFunc inner.patch.length !=
        some inner.patch)
  | none => false

/-- The second installation writes over the patch of the first hook. -/
theorem patch_in_place_shared :
    ∃ w history inner,
      (hookSystem (tableZydis smallTable) nopProcess.mem).Run w history ∧
      w.insts[0]? = some inner ∧ inner.isInstalled = true ∧
      ¬ w.process.mem.Holds inner.targetFunc inner.patch := by
  have hrun : ((TransitionSystem.replay (next (tableZydis smallTable))
      (start nopProcess.mem nopProcess.outs) sharedTarget).map
        LosesPatch) = some true := by
    decide +kernel
  obtain ⟨w, hreplay, hloses⟩ := Option.map_eq_some_iff.mp hrun
  obtain ⟨history, hhistory⟩ := TransitionSystem.Run.replay
    (T := hookSystem (tableZydis smallTable) nopProcess.mem)
    (fun _ _ _ h => h) (.init ⟨nopProcess.outs, rfl⟩) hreplay
  unfold LosesPatch at hloses
  cases hget : w.insts[0]? with
  | none => simp [hget] at hloses
  | some inner =>
      simp only [hget, Bool.and_eq_true, bne_iff_ne] at hloses
      refine ⟨w, history, inner, hhistory, hget, hloses.1, ?_⟩
      intro hholds
      exact hloses.2 (Memory.read_eq_some_iff.mpr ⟨rfl, hholds⟩)

end World

end Ztour
