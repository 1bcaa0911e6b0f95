import Ztour.HookInst.Overlay

/-!
# Operations that fail or are taken back

An operation that throws leaves everything as it was, except where a write was
cut short in the middle of new bytes.  An installation that is taken back
restores the bytes that the hook saved at its construction, whatever it wrote
over.
-/

namespace Ztour

open Ztour.Foundation

variable {z : Zydis} {os : Os} {m m' : Mem} {inner : Inner}

/-- The write stores all bytes, or only such as are there already. -/
def HarmlessWrite (os : Os) (m : Mem) (dest : Ptr) (bytes : List Byte) : Prop :=
  os.selfMem.stored m dest bytes.length = bytes.length ∨
    m.Holds dest (bytes.take (os.selfMem.stored m dest bytes.length))

namespace Inner

/-! ## What is ready to be written -/

theorem jmpPatchBytes_of_fits (hlen : 5 ≤ inner.patchedOriginalBytes.length)
    (hfits : FitsSigned 32 (inner.codeEnterDetour - (inner.targetFunc + 5))) :
    inner.jmpPatchBytes = .ok inner.patch := by
  have hencode := Encoder.encodeRelJmp_eq_ok (e := {}) |>.mpr ⟨hfits, rfl⟩
  have hlength : (relJumpBytes inner.targetFunc inner.codeEnterDetour ++
      List.replicate (inner.patchedOriginalBytes.length - 5) 0x90).length =
      inner.patchedOriginalBytes.length := length_patch hlen
  unfold jmpPatchBytes
  rw [hencode, ok_bind]
  simp only [List.nil_append, length_relJumpBytes, hlen, decide_true,
    ztAssert_true, ok_bind, hlength]
  rfl

theorem prepareInstall_of_fits (hnot : inner.isInstalled = false)
    (htarget : inner.targetFunc ≠ 0)
    (hlen : 5 ≤ inner.patchedOriginalBytes.length)
    (hfits : FitsSigned 32 (inner.codeEnterDetour - (inner.targetFunc + 5))) :
    inner.prepareInstall = .ok inner.patch := by
  have hhas : inner.hasTargetFunc = true := by
    unfold hasTargetFunc
    exact decide_eq_true htarget
  unfold prepareInstall
  rw [hnot, hhas]
  simpa using jmpPatchBytes_of_fits hlen hfits

/-! ## Failures -/

theorem overwrite_unchanged_iff (inner : Inner) (os : Os) (m : Mem)
    {prepared : Res (List Byte)} (flag : Bool)
    (hlen : ∀ bytes, prepared = .ok bytes → bytes.length ≤ 2 ^ 64) :
    (∀ e inner' m', inner.overwrite os m prepared flag =
      (.error e, inner', m') → inner' = inner ∧ m' = m) ↔
    ∀ bytes, prepared = .ok bytes →
      HarmlessWrite os m inner.targetFunc bytes := by
  have houtcome := overwrite_outcome inner os m prepared flag
  generalize inner.overwrite os m prepared flag = result at houtcome
  cases houtcome with
  | rejected e refused => simp [refused]
  | done bytes ready whole =>
      simp only [Prod.mk.injEq, reduceCtorEq, false_and, IsEmpty.forall_iff,
        implies_true, true_iff]
      intro bytes' ready'
      cases ready.symm.trans ready'
      exact .inl whole
  | failed e bytes ready short =>
      constructor
      · intro h bytes' ready'
        cases ready.symm.trans ready'
        obtain ⟨-, hmem⟩ := h e inner _ rfl
        have hwritten : Memory.Holds (m.write inner.targetFunc (bytes.take
            (os.selfMem.stored m inner.targetFunc bytes.length)))
            inner.targetFunc (bytes.take
              (os.selfMem.stored m inner.targetFunc bytes.length)) :=
          Memory.holds_write
            (le_trans (List.length_take_le' _ bytes) (hlen bytes ready))
        rw [hmem] at hwritten
        exact .inr hwritten
      · intro h e' inner' m' hres
        cases hres
        refine ⟨rfl, ?_⟩
        rcases h bytes ready with hwhole | hholds
        · obtain rfl : bytes = [] := by
            by_contra hne
            exact short hne hwhole
          simp
        · funext x
          exact Memory.write_restore hholds fun _ => rfl

end Inner

namespace World

variable {m₀ : Mem} {w w' w₁ w₂ : World} {i : Nat}

theorem putBack_unchanged_iff (hget : w.insts[i]? = some inner)
    {r : Res Unit} {inner' : Inner} :
    ((putBack w i (r, inner', m')).2.insts = w.insts ∧
      (putBack w i (r, inner', m')).2.process.mem = w.process.mem) ↔
    inner' = inner ∧ m' = w.process.mem := by
  obtain ⟨hlt, hinner⟩ := List.getElem?_eq_some_iff.mp hget
  refine and_congr_left' ?_
  constructor
  · intro h
    have hset : (w.insts.set i inner')[i]? = w.insts[i]? := congrArg (·[i]?) h
    rw [List.getElem?_set_self hlt, hget] at hset
    exact Option.some.inj hset
  · rintro rfl
    subst hinner
    exact List.set_getElem_self hlt

theorem failed_unchanged {op : Op} {result : Res Unit × Inner × Mem}
    (hget : w.insts[i]? = some inner)
    (hperform : perform z os w op = some (putBack w i result)) :
    (∀ e w', perform z os w op = some (.error e, w') →
      w'.insts = w.insts ∧ w'.process.mem = w.process.mem) ↔
    ∀ e inner' m', result = (.error e, inner', m') →
      inner' = inner ∧ m' = w.process.mem := by
  rw [hperform]
  constructor
  · rintro h e inner' m' rfl
    exact (putBack_unchanged_iff hget).mp (h e _ rfl)
  · intro h e w' hres
    obtain ⟨r, inner', m'⟩ := result
    cases hres
    exact (putBack_unchanged_iff hget).mpr (h e inner' m' rfl)

/-- A failing operation leaves the hooks and the memory as they were exactly
when the write it attempts, if it comes to one, is not cut short in the middle
of new bytes. -/
theorem failed_unchanged_iff (hz : z.Lawful)
    (h : (hookSystem z m₀).Reachable w) (hget : w.insts[i]? = some inner) :
    ((∀ e w', perform z os w (.install i) = some (.error e, w') →
        w'.insts = w.insts ∧ w'.process.mem = w.process.mem) ↔
      (inner.isInstalled = false → inner.targetFunc ≠ 0 →
        FitsSigned 32 (inner.codeEnterDetour - (inner.targetFunc + 5)) →
        HarmlessWrite os w.process.mem inner.targetFunc inner.patch)) ∧
    ((∀ e w', perform z os w (.uninstall i) = some (.error e, w') →
        w'.insts = w.insts ∧ w'.process.mem = w.process.mem) ↔
      (inner.isInstalled = true → HarmlessWrite os w.process.mem
        inner.targetFunc inner.patchedOriginalBytes)) := by
  have hwf := reachable_wellFormed hz h inner (List.mem_of_getElem? hget)
  have hlt := hwf.length_lt
  constructor
  · have hperform : perform z os w (.install i) =
        some (putBack w i (inner.install os w.process.mem)) := by
      simp only [perform, hget, Option.map_some]
    rw [failed_unchanged hget hperform]
    unfold Inner.install
    rw [Inner.overwrite_unchanged_iff]
    · constructor
      · intro hwrite hnot htarget hfits
        exact hwrite _ (Inner.prepareInstall_of_fits hnot htarget
          (hwf.length_ge htarget) hfits)
      · intro hwrite bytes hready
        obtain ⟨hnot, htarget, -, hfits, rfl⟩ :=
          Inner.prepareInstall_eq_ok hready
        exact hwrite hnot htarget hfits
    · intro bytes hready
      obtain ⟨-, -, hge, -, rfl⟩ := Inner.prepareInstall_eq_ok hready
      have := Inner.length_patch hge
      omega
  · have hperform : perform z os w (.uninstall i) =
        some (putBack w i (inner.uninstall os w.process.mem)) := by
      simp only [perform, hget, Option.map_some]
    rw [failed_unchanged hget hperform]
    unfold Inner.uninstall
    rw [Inner.overwrite_unchanged_iff]
    · constructor
      · intro hwrite hinstalled
        refine hwrite _ ?_
        simp [Inner.prepareUninstall, hinstalled]
      · intro hwrite bytes hready
        obtain ⟨hinstalled, rfl⟩ := Inner.prepareUninstall_eq_ok hready
        exact hwrite hinstalled
    · intro bytes hready
      obtain ⟨-, rfl⟩ := Inner.prepareUninstall_eq_ok hready
      omega

theorem nopWorld_reachable :
    (hookSystem (tableZydis smallTable) nopProcess.mem).Reachable nopWorld :=
  .step (.init ⟨nopProcess.outs, rfl⟩) next_create_nop trivial

theorem failed_unchanged_nop :
    ∃ e w', perform (tableZydis smallTable) smallOs nopWorld (.uninstall 0) =
      some (.error e, w') ∧ w'.insts = nopWorld.insts ∧
        w'.process.mem = nopWorld.process.mem := by
  have hget : nopWorld.insts[0]? = some Inner.nopInner := rfl
  refine ⟨_, _, rfl, ?_⟩
  apply (failed_unchanged_iff (tableZydis_lawful _) nopWorld_reachable
    hget).2.mpr _ _ _ rfl
  intro hinstalled
  cases hinstalled

/-- Of the five bytes of the patch only the opcode is stored. -/
def cutOs : Os := { smallOs with selfMem := .stores 1 }

theorem install_cut_short :
    ∃ w', (hookSystem (tableZydis smallTable) nopProcess.mem).Reachable
        nopWorld ∧
      (∃ r, perform (tableZydis smallTable) cutOs nopWorld (.install 0) =
        some (r, w') ∧ Throws r) ∧
      nopWorld.process.mem 0x1000 = some 0x90 ∧
      w'.process.mem 0x1000 = some 0xE9 ∧
      w'.insts[0]?.map Inner.isInstalled = some false := by
  have hthrows : Throws
      (Inner.nopInner.install cutOs Inner.nopHooked.mem).1 := by
    apply throws_of_completed
    decide +kernel
  exact ⟨_, nopWorld_reachable, ⟨_, perform_install rfl rfl, hthrows⟩,
    by decide +kernel⟩

/-! ## Taking an installation back -/

theorem perform_uninstall_eq_ok
    (h : perform z os w (.uninstall i) = some (.ok (), w')) :
    ∃ inner, w.insts[i]? = some inner ∧ w' =
      { process := { w.process with
          mem := w.process.mem.write inner.targetFunc
            inner.patchedOriginalBytes }
        insts := w.insts.set i { inner with isInstalled := false } } := by
  obtain ⟨inner, hget, h⟩ := Option.map_eq_some_iff.mp h
  refine ⟨inner, hget, ?_⟩
  have houtcome := Inner.overwrite_outcome inner os w.process.mem
    inner.prepareUninstall false
  unfold Inner.uninstall at h
  generalize inner.overwrite os w.process.mem inner.prepareUninstall false =
    result at houtcome h
  cases houtcome with
  | rejected e refused => cases h
  | failed e bytes ready short => cases h
  | done bytes ready whole =>
      obtain ⟨-, rfl⟩ := Inner.prepareUninstall_eq_ok ready
      cases h
      rfl

/-- Installing and uninstalling a hook changes no hook and no byte outside its
range, and no byte at all exactly when the range held the saved bytes. -/
theorem install_uninstall (hz : z.Lawful) {os' : Os}
    (h : (hookSystem z m₀).Reachable w)
    (h₁ : perform z os w (.install i) = some (.ok (), w₁))
    (h₂ : perform z os' w₁ (.uninstall i) = some (.ok (), w₂)) :
    ∃ inner, w.insts[i]? = some inner ∧ w₂.insts = w.insts ∧
      (∀ x, x ∉ inner.range → w₂.process.mem x = w.process.mem x) ∧
      w₂.process.mem.Holds inner.targetFunc inner.patchedOriginalBytes ∧
      (w₂.process.mem = w.process.mem ↔
        w.process.mem.Holds inner.targetFunc inner.patchedOriginalBytes) := by
  obtain ⟨inner, hget, hready, -, rfl⟩ := perform_install_eq_ok.mp h₁
  obtain ⟨hlt, hinner⟩ := List.getElem?_eq_some_iff.mp hget
  obtain ⟨inner', hget', rfl⟩ := perform_uninstall_eq_ok h₂
  rw [List.getElem?_set_self hlt, Option.some.injEq] at hget'
  subst hget'
  have hwf := reachable_wellFormed hz h inner (List.mem_of_getElem? hget)
  have hbound := hwf.length_lt
  have hlen := (length_patch_of_ready hwf hready).2
  have hsaved : ((w.process.mem.write inner.targetFunc inner.patch).write
      inner.targetFunc inner.patchedOriginalBytes).Holds inner.targetFunc
        inner.patchedOriginalBytes := Memory.holds_write (by omega)
  have hpatch : ∀ x, x ∉ inner.range →
      w.process.mem.write inner.targetFunc inner.patch x = w.process.mem x := by
    intro x hx
    refine Memory.write_of_not_mem ?_
    rw [hlen]
    exact hx
  refine ⟨inner, hget, ?_, ?_, hsaved, ?_⟩
  · have hnot := (Inner.prepareInstall_eq_ok hready).1
    have hback : { inner with isInstalled := false } = inner := by
      rw [← hnot]
    dsimp only
    rw [List.set_set, hback, ← hinner, List.set_getElem_self]
  · intro x hx
    exact (Memory.write_of_not_mem hx).trans (hpatch x hx)
  · constructor
    · intro hmem
      rw [← hmem]
      exact hsaved
    · intro hholds
      funext x
      exact Memory.write_restore hholds (hpatch x)

theorem eq_ok_of_isOk {r : Res Unit} (h : r.isOk = true) : r = .ok () := by
  cases r with
  | error e => cases h
  | ok u => rfl

theorem install_uninstall_nop :
    ∃ w₂, perform (tableZydis smallTable) smallOs nopInstalledWorld
        (.uninstall 0) = some (.ok (), w₂) ∧
      w₂.process.mem = nopWorld.process.mem := by
  have huninstall : ((perform (tableZydis smallTable) smallOs nopInstalledWorld
      (.uninstall 0)).map fun result => result.1.isOk) = some true := by
    decide +kernel
  obtain ⟨⟨r, w₂⟩, hperform, hok⟩ := Option.map_eq_some_iff.mp huninstall
  obtain rfl := eq_ok_of_isOk hok
  refine ⟨w₂, hperform, ?_⟩
  obtain ⟨inner, hget, -, -, -, hsame⟩ := install_uninstall
    (tableZydis_lawful _) nopWorld_reachable perform_install_nop hperform
  obtain rfl : Inner.nopInner = inner := Option.some.inj hget
  have hread : nopWorld.process.mem.read Inner.nopInner.targetFunc 5 =
      some Inner.nopInner.patchedOriginalBytes := by
    decide +kernel
  exact hsame.mpr (Memory.read_eq_some_iff.mp hread).2

/-- Taking back the installation of the second hook on a target removes the
patch of the first one, which was installed before. -/
theorem install_uninstall_shared :
    ∃ w w₁ w₂, (hookSystem (tableZydis smallTable) nopProcess.mem).Reachable w ∧
      perform (tableZydis smallTable) smallOs w (.install 1) =
        some (.ok (), w₁) ∧
      perform (tableZydis smallTable) smallOs w₁ (.uninstall 1) =
        some (.ok (), w₂) ∧
      w.process.mem 0x1000 = some 0xE9 ∧ w₂.process.mem 0x1000 = some 0x90 := by
  have hrun : ((TransitionSystem.replay (next (tableZydis smallTable))
      (start nopProcess.mem nopProcess.outs) (sharedTarget.take 3)).bind
        fun w => (perform (tableZydis smallTable) smallOs w (.install 1)).bind
        fun r₁ => (perform (tableZydis smallTable) smallOs r₁.2
          (.uninstall 1)).map fun r₂ =>
            (r₁.1.isOk, r₂.1.isOk, w.process.mem 0x1000,
              r₂.2.process.mem 0x1000)) =
      some (true, true, some 0xE9, some 0x90) := by
    decide +kernel
  obtain ⟨w, hreplay, hrun⟩ := Option.bind_eq_some_iff.mp hrun
  obtain ⟨⟨r₁, w₁⟩, hinstall, hrun⟩ := Option.bind_eq_some_iff.mp hrun
  obtain ⟨⟨r₂, w₂⟩, huninstall, hrun⟩ := Option.map_eq_some_iff.mp hrun
  simp only [Prod.mk.injEq] at hrun
  obtain ⟨hok₁, hok₂, hbefore, hafter⟩ := hrun
  obtain rfl := eq_ok_of_isOk hok₁
  obtain rfl := eq_ok_of_isOk hok₂
  obtain ⟨history, hhistory⟩ := TransitionSystem.Run.replay
    (T := hookSystem (tableZydis smallTable) nopProcess.mem)
    (fun _ _ _ h => h) (.init ⟨nopProcess.outs, rfl⟩) hreplay
  exact ⟨w, w₁, w₂, hhistory.reachable, hinstall, huninstall, hbefore, hafter⟩

end World

end Ztour
