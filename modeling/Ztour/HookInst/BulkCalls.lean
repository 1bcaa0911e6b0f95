import Ztour.HookInst.Bulk
import Ztour.HookInst.Overlay

/-!
# Runs with bulk calls

`install_all_hooks` and `uninstall_all_hooks` are calls like the others here.
They lead to no state that single calls do not lead to, and one that returns
switches the whole overlay: after `uninstall_all_hooks` the program's own code
is back.
-/

namespace Ztour

open Ztour.Foundation

namespace World

def visits (w : World) (answers : Nat → Os) : List Visit :=
  w.insts.zipIdx.map fun p => ⟨p.1, answers p.2⟩

def setAll (w : World) (install : Bool) (answers : Nat → Os) :
    Res Nat × World :=
  let result := setAllHooksInstalled install (w.visits answers) w.process.mem 0
  (result.1,
    { process := { w.process with mem := result.2.2 }
      insts := result.2.1 })

inductive Call where
  | single (op : Op) (os : Os)
  | all (install : Bool) (answers : Nat → Os)

/-- No operation of a bulk call faults. -/
def nextCall (z : Zydis) (w : World) : Call → Option World
  | .single op os => next z w (op, os)
  | .all install answers => some (w.setAll install answers).2

end World

open World in
def callSystem (z : Zydis) (m₀ : Mem) : TransitionSystem World Call where
  init w := ∃ outs, w = .start m₀ outs
  step w call w' := nextCall z w call = some w'

namespace World

variable {z : Zydis} {m₀ : Mem} {w : World} {install : Bool}
  {answers : Nat → Os}

theorem visits_inner (w : World) (answers : Nat → Os) :
    (w.visits answers).map Visit.inner = w.insts := by
  unfold visits
  rw [List.map_map]
  exact List.zipIdx_map_fst 0 w.insts

/-- Bulk calls lead to no new state. -/
theorem callSystem_reachable_iff :
    (callSystem z m₀).Reachable w ↔ (hookSystem z m₀).Reachable w := by
  constructor
  · intro h
    induction h with
    | init h => exact .init h
    | @step w call w' _ hstep _ ih =>
        cases call with
        | single op os => exact .step ih hstep trivial
        | all install answers =>
            cases hstep
            exact setAll_reachable [] ih (visits_inner w answers).symm 0
  · intro h
    induction h with
    | init h => exact .init h
    | @step w call w' _ hstep _ ih =>
        have hcall : (callSystem z m₀).step w (.single call.1 call.2) w' := hstep
        exact .step ih hcall trivial

/-! ## Clean bulk calls -/

/-- A write of the call stores all bytes or none. -/
def WholeOrNothing (install : Bool) (m : Mem) (v : Visit) : Prop :=
  v.pending install = true → ∀ bytes, v.inner.prepareSet install = .ok bytes →
    v.os.selfMem.stored m v.inner.targetFunc bytes.length = bytes.length ∨
      v.os.selfMem.stored m v.inner.targetFunc bytes.length = 0

theorem WholeOrNothing.of_sameMapped {m m' : Mem} {v : Visit}
    (h : WholeOrNothing install m v) (hmapped : m.SameMapped m') :
    WholeOrNothing install m' v := by
  intro hpending bytes hready
  rw [v.os.selfMem.stored_of_sameMapped hmapped]
  exact h hpending bytes hready

theorem WholeOrNothing.of_ready {m : Mem} {v : Visit} (hwf : v.inner.WellFormed)
    (h : v.pending install = true → v.Ready install m) :
    WholeOrNothing install m v := by
  intro hpending bytes hready
  obtain ⟨-, rfl⟩ :=
    (Inner.prepareSet_eq_ok_iff hwf (Visit.pending_iff.mp hpending)).mp hready
  exact .inl (h hpending).whole

def CleanCall (z : Zydis) (w : World) : Call → World → Prop
  | .single op os, w' => CleanStep z w (op, os) w'
  | .all install answers, _ =>
      ∀ v ∈ w.visits answers, WholeOrNothing install w.process.mem v

theorem Separated.of_ranges {w' : World} (h : w.Separated)
    (hranges : w'.insts.map Inner.range = w.insts.map Inner.range)
    (hpages : w'.process.pages = w.process.pages) : w'.Separated := by
  have hmemory : w'.process.pageMemory = w.process.pageMemory := by
    unfold Process.pageMemory
    rw [hpages]
  have hget : ∀ (i : Nat) (a : Inner), w'.insts[i]? = some a →
      ∃ b, w.insts[i]? = some b ∧ b.range = a.range := by
    intro i a ha
    have hi : (w'.insts.map Inner.range)[i]? = some a.range := by simp [ha]
    rw [hranges, List.getElem?_map, Option.map_eq_some_iff] at hi
    exact hi
  constructor
  · intro i j a b ha hb hij
    obtain ⟨a', ha', hra⟩ := hget i a ha
    obtain ⟨b', hb', hrb⟩ := hget j b hb
    rw [← hra, ← hrb]
    exact h.ranges i j a' b' ha' hb' hij
  · intro a ha
    obtain ⟨i, hi⟩ := List.mem_iff_getElem?.mp ha
    obtain ⟨a', ha', hra⟩ := hget i a hi
    rw [← hra, hmemory]
    exact h.pages a' (List.mem_of_getElem? ha')

theorem range_of_outcome {inner inner' : Inner} {os : Os} {m m' : Mem}
    {prepared : Res (List Byte)} {flag : Bool} {r : Res Unit}
    (h : Inner.OverwriteOutcome inner os m prepared flag (r, inner', m')) :
    inner'.range = inner.range := by
  cases h <;> rfl

theorem touched_eq_empty {os : Os} {i : Nat} {inner : Inner}
    (present : w.insts[i]? = some inner)
    (h : ∀ bytes, inner.prepareSet install = .ok bytes →
      os.selfMem.stored w.process.mem inner.targetFunc bytes.length = 0) :
    touched z w (if install then .install i else .uninstall i, os) = ∅ := by
  refine Set.eq_empty_of_forall_notMem fun x hx => ?_
  cases install with
  | true =>
      obtain ⟨inner', bytes, present', hready, hx⟩ := hx
      cases present.symm.trans present'
      rw [h bytes hready] at hx
      exact absurd (mem_span.mp hx) (Nat.not_lt_zero _)
  | false =>
      obtain ⟨inner', bytes, present', hready, hx⟩ := hx
      cases present.symm.trans present'
      rw [h bytes hready] at hx
      exact absurd (mem_span.mp hx) (Nat.not_lt_zero _)

theorem perform_setInstalled (install : Bool) (os : Os) {i : Nat}
    {inner : Inner} (present : w.insts[i]? = some inner) :
    perform z os w (if install then .install i else .uninstall i) =
      some (putBack w i (inner.setInstalled install os w.process.mem)) := by
  cases install <;> simp [perform, present, Inner.setInstalled]

theorem cleanStep_setInstalled {i : Nat} {v : Visit} (hsep : w.Separated)
    (present : w.insts[i]? = some v.inner)
    (hpending : v.pending install = true)
    (hwhole : WholeOrNothing install w.process.mem v) :
    CleanStep z w (if install then .install i else .uninstall i, v.os)
      (putBack w i (v.inner.setInstalled install v.os w.process.mem)).2 := by
  have houtcome := Inner.overwrite_outcome v.inner v.os w.process.mem
    (v.inner.prepareSet install) install
  have hperform := perform_setInstalled (z := z) install v.os present
  rw [← Inner.setInstalled_eq] at houtcome
  generalize v.inner.setInstalled install v.os w.process.mem = result
    at houtcome hperform
  obtain ⟨r, inner', m'⟩ := result
  refine ⟨?_, hsep.of_ranges
    (map_set_of_eq present (range_of_outcome houtcome)) rfl⟩
  cases houtcome with
  | rejected e refused =>
      refine .inr (touched_eq_empty present fun bytes hready => ?_)
      rw [refused] at hready
      cases hready
  | failed e bytes ready short =>
      refine .inr (touched_eq_empty present fun bytes' hready => ?_)
      rw [ready] at hready
      cases hready
      rcases hwhole hpending bytes ready with hall | hnone
      · rw [hall, List.length_eq_zero_iff]
        exact not_not.mp fun hne => short hne hall
      · exact hnone
  | done bytes ready whole => exact .inl ⟨_, hperform⟩

theorem sameMapped_of_setInstalled {v : Visit} {inner' : Inner} {m m' : Mem}
    (h : v.inner.setInstalled install v.os m = (.ok (), inner', m')) :
    m.SameMapped m' := by
  have houtcome := Inner.overwrite_outcome v.inner v.os m
    (v.inner.prepareSet install) install
  rw [← Inner.setInstalled_eq, h] at houtcome
  cases houtcome with
  | done bytes ready whole =>
      exact Memory.sameMapped_write (SelfMemAnswer.mapped_of_stored whole)

theorem setAll_clean {visits : List Visit} (done : List Inner)
    (h : (hookSystem z m₀).ReachableUnder (CleanStep z) w)
    (hinsts : w.insts = done ++ visits.map Visit.inner)
    (hwhole : ∀ v ∈ visits, WholeOrNothing install w.process.mem v) (n : Nat) :
    (hookSystem z m₀).ReachableUnder (CleanStep z)
      { process := { w.process with
          mem := (setAllHooksInstalled install visits w.process.mem n).2.2 }
        insts := done ++
          (setAllHooksInstalled install visits w.process.mem n).2.1 } := by
  induction visits generalizing w done n with
  | nil =>
      rw [show w = _ from congrArg (World.mk w.process) hinsts] at h
      exact h
  | cons v rest ih =>
      rw [List.forall_mem_cons] at hwhole
      unfold setAllHooksInstalled
      split
      · rename_i hpending
        have hget : w.insts[done.length]? = some v.inner := by simp [hinsts]
        have hstep := next_setInstalled (z := z) install v.os hget
        have hclean := cleanStep_setInstalled (z := z) (reachable_separated h)
          hget hpending hwhole.1
        have hreach := TransitionSystem.ReachableUnder.step h hstep hclean
        cases hset : v.inner.setInstalled install v.os w.process.mem with
        | mk r result =>
            obtain ⟨inner', m'⟩ := result
            rw [hset] at hreach
            have hinsts' : (putBack w done.length (r, inner', m')).2.insts =
                done ++ inner' :: rest.map Visit.inner := by
              simp [putBack, hinsts]
            cases r with
            | error e =>
                rw [show (putBack w done.length (.error e, inner', m')).2 = _
                  from congrArg (World.mk _) hinsts'] at hreach
                exact hreach
            | ok u =>
                have hmapped := sameMapped_of_setInstalled hset
                have hnext := ih (done ++ [inner']) hreach
                  (by simpa using hinsts')
                  (fun u hu => (hwhole.2 u hu).of_sameMapped hmapped) (n + 1)
                simpa [putBack] using hnext
      · have hnext := ih (done ++ [v.inner]) h (by simpa using hinsts)
          hwhole.2 n
        simpa using hnext

theorem callSystem_clean
    (h : (callSystem z m₀).ReachableUnder (CleanCall z) w) :
    (hookSystem z m₀).ReachableUnder (CleanStep z) w := by
  induction h with
  | init h => exact .init h
  | @step w call w' _ hstep hclean ih =>
      cases call with
      | single op os => exact .step ih hstep hclean
      | all install answers =>
          cases hstep
          exact setAll_clean [] ih (visits_inner w answers).symm hclean 0

/-! ## A call that returns -/

theorem setAll_eq_ok {visits : List Visit} {m m' : Mem} {k n : Nat}
    {insts : List Inner} (hwf : ∀ v ∈ visits, v.inner.WellFormed)
    (h : setAllHooksInstalled install visits m n = (.ok k, insts, m')) :
    (∀ v ∈ visits, v.pending install = true → v.Ready install m) ∧
      insts = visits.map (fun v => v.inner.withFlag install) ∧
      k = n + visits.countP (Visit.pending install) := by
  rcases ready_or_first install m visits with hready |
    ⟨pre, v, post, rfl, hpre, hpending, hnot⟩
  · obtain ⟨m₁, hall⟩ := setAll_of_ready hwf hready n
    rw [hall] at h
    cases h
    exact ⟨hready, rfl, rfl⟩
  · obtain ⟨e, m₁, hstop, -⟩ := setAll_stops pre post
      (fun u hu => hwf u (List.mem_append_left _ hu)) hpre (hwf v (by simp))
      hpending hnot n
    rw [hstop] at h
    cases h

theorem overlay_of_none {insts : List Inner}
    (h : ∀ inner ∈ insts, inner.isInstalled = false) : overlay m₀ insts = m₀ := by
  induction insts with
  | nil => rfl
  | cons inner rest ih =>
      rw [List.forall_mem_cons] at h
      unfold overlay
      rw [h.1]
      exact ih h.2

theorem Overlaid.mem_eq (h : Overlaid m₀ w) {x : Ptr}
    (hx : x ∉ w.process.pageMemory) :
    w.process.mem x = overlay m₀ w.insts x := by
  refine eq_overlay h.patched fun hnot => h.original x hx ?_
  intro inner hmem hinstalled
  rw [← (range_patch (h.wellFormed inner hmem) hinstalled).2]
  exact hnot inner hmem hinstalled

/-- A bulk call that returns switches all hooks.  Outside the code pages the
memory is then the original with the patches of all hooks on it, or with
none. -/
theorem setAll_switches (hz : z.Lawful)
    (h : (callSystem z m₀).ReachableUnder (CleanCall z) w) {n : Nat}
    {w' : World} (hcall : w.setAll install answers = (.ok n, w')) :
    w'.insts = w.insts.map (·.withFlag install) ∧
      n = w.insts.countP (·.isInstalled != install) ∧
      (∀ x, x ∉ w.process.pageMemory →
        w'.process.mem x = overlay m₀ w'.insts x) ∧
      (install = false → ∀ x, x ∉ w.process.pageMemory →
        w'.process.mem x = m₀ x) := by
  have hreach := callSystem_clean h
  have hwf : ∀ v ∈ w.visits answers, v.inner.WellFormed := by
    intro v hv
    refine (reachable_overlaid hz hreach).wellFormed v.inner ?_
    rw [← visits_inner w answers]
    exact List.mem_map_of_mem hv
  cases hloop : setAllHooksInstalled install (w.visits answers) w.process.mem 0
    with
  | mk r left =>
      obtain ⟨insts, m'⟩ := left
      simp only [setAll, hloop, Prod.mk.injEq] at hcall
      obtain ⟨rfl, rfl⟩ := hcall
      obtain ⟨hready, hinsts, hcount⟩ := setAll_eq_ok hwf hloop
      have hafter := setAll_clean [] hreach (visits_inner w answers).symm
        (fun v hv => WholeOrNothing.of_ready (hwf v hv) (hready v hv)) 0
      rw [hloop] at hafter
      have hoverlay : ∀ x, x ∉ w.process.pageMemory →
          m' x = overlay m₀ insts x :=
        fun x hx => (reachable_overlaid hz hafter).mem_eq hx
      have hswitched : insts = w.insts.map (·.withFlag install) := by
        rw [hinsts, ← visits_inner w answers, List.map_map]
        rfl
      refine ⟨hswitched, ?_, hoverlay, ?_⟩
      · rw [hcount, Nat.zero_add, ← visits_inner w answers, List.countP_map]
        rfl
      · rintro rfl x hx
        have hnone : ∀ inner ∈ insts, inner.isInstalled = false := by
          rw [hswitched]
          simp
        have horiginal : overlay m₀ insts = m₀ := overlay_of_none hnone
        exact (hoverlay x hx).trans (congrFun horiginal x)

theorem nopWorld_clean :
    (callSystem (tableZydis smallTable) nopProcess.mem).ReachableUnder
      (CleanCall (tableZydis smallTable)) nopWorld := by
  have hpages : nopWorld.process.pages = [⟨0x100, 0xF00, 0, by decide⟩] := by
    decide +kernel
  have hdisj : Disjoint Inner.nopInner.range
      (MemPage.range ⟨0x100, 0xF00, 0, by decide⟩) := by
    rw [Set.disjoint_left]
    intro x hx
    obtain ⟨i, hi, -, rfl⟩ := eq_offset_of_mem_span hx
    have hi5 : i < 5 := hi
    unfold MemPage.range
    interval_cases i <;> decide
  have hstep : nextCall (tableZydis smallTable)
      (start nopProcess.mem nopProcess.outs) (.single
        (.create "nop" 0x1000 0x2000 0x3000) smallOs) = some nopWorld :=
    next_create_nop
  exact .step (.init ⟨nopProcess.outs, rfl⟩) hstep
    ⟨.inr rfl, separated_of_single rfl hpages hdisj⟩

theorem nopWorld_wholeOrNothing :
    ∀ v ∈ nopWorld.visits fun _ => smallOs,
      WholeOrNothing true nopWorld.process.mem v := by
  intro v hv
  obtain rfl : v = ⟨Inner.nopInner, smallOs⟩ := List.mem_singleton.mp hv
  have hwf := reachable_wellFormed (tableZydis_lawful _) nopWorld_reachable
    Inner.nopInner (List.mem_singleton_self _)
  refine .of_ready hwf fun _ => ⟨fun _ => ⟨by decide, ?_⟩, by decide +kernel⟩
  unfold FitsSigned
  decide

theorem setAll_switches_nop :
    ∃ w w', nopWorld.setAll true (fun _ => smallOs) = (.ok 1, w) ∧
      w.setAll false (fun _ => smallOs) = (.ok 1, w') ∧
      ∀ x, x ∉ w.process.pageMemory →
        w'.process.mem x = nopProcess.mem x := by
  have hinstall : (nopWorld.setAll true fun _ => smallOs).1 = .ok 1 := by
    decide +kernel
  have huninstall : ((nopWorld.setAll true fun _ => smallOs).2.setAll false
      fun _ => smallOs).1 = .ok 1 := by
    decide +kernel
  have hstep : nextCall (tableZydis smallTable) nopWorld
      (.all true fun _ => smallOs) =
        some (nopWorld.setAll true fun _ => smallOs).2 := rfl
  have hreach := TransitionSystem.ReachableUnder.step nopWorld_clean hstep
    nopWorld_wholeOrNothing
  have hfirst := eq_mk_of_fst hinstall
  have hsecond := eq_mk_of_fst huninstall
  exact ⟨_, _, hfirst, hsecond,
    (setAll_switches (tableZydis_lawful _) hreach hsecond).2.2.2 rfl⟩

end World

end Ztour
