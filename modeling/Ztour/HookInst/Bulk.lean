import Ztour.HookInst.Reversal

/-!
# Bulk installation and removal

`install_all_hooks` and `uninstall_all_hooks` walk through the registry in
order and stop at the first operation that throws.  Which hooks are ready can
be told from the state before the call: a whole write maps nothing and unmaps
nothing, so it does not change how much of a later one is stored.
-/

namespace Ztour

open Ztour.Foundation

/-- A registered hook, with the answers to the operation on it. -/
structure Visit where
  inner : Inner
  os : Os

namespace Inner

def setInstalled (inner : Inner) (install : Bool) (os : Os) (m : Mem) :
    Res Unit × Inner × Mem :=
  if install then inner.install os m else inner.uninstall os m

end Inner

/-- The result, the hooks and the memory after the loop. -/
def setAllHooksInstalled (install : Bool) :
    List Visit → Mem → Nat → Res Nat × List Inner × Mem
  | [], m, numChanged => (.ok numChanged, [], m)
  | v :: rest, m, numChanged =>
      if v.inner.isInstalled != install then
        match v.inner.setInstalled install v.os m with
        | (.error e, inner, m) => (.error e, inner :: rest.map Visit.inner, m)
        | (.ok (), inner, m) =>
            let result := setAllHooksInstalled install rest m (numChanged + 1)
            (result.1, inner :: result.2.1, result.2.2)
      else
        let result := setAllHooksInstalled install rest m numChanged
        (result.1, v.inner :: result.2.1, result.2.2)

def installAllHooks (visits : List Visit) (m : Mem) :
    Res Nat × List Inner × Mem :=
  setAllHooksInstalled true visits m 0

def uninstallAllHooks (visits : List Visit) (m : Mem) :
    Res Nat × List Inner × Mem :=
  setAllHooksInstalled false visits m 0

variable {install : Bool} {m m' : Mem} {inner : Inner}

/-! ## One operation -/

namespace Inner

def prepareSet (inner : Inner) (install : Bool) : Res (List Byte) :=
  if install then inner.prepareInstall else inner.prepareUninstall

def newBytes (inner : Inner) (install : Bool) : List Byte :=
  if install then inner.patch else inner.patchedOriginalBytes

def Accepts (inner : Inner) (install : Bool) : Prop :=
  install = true → inner.targetFunc ≠ 0 ∧
    FitsSigned 32 (inner.codeEnterDetour - (inner.targetFunc + 5))

def withFlag (inner : Inner) (install : Bool) : Inner :=
  { inner with isInstalled := install }

@[simp] theorem withFlag_isInstalled (inner : Inner) (install : Bool) :
    (inner.withFlag install).isInstalled = install := rfl

@[simp] theorem withFlag_hasTargetFunc (inner : Inner) (install : Bool) :
    (inner.withFlag install).hasTargetFunc = inner.hasTargetFunc := rfl

theorem setInstalled_eq (install : Bool) (os : Os) (m : Mem) :
    inner.setInstalled install os m =
      inner.overwrite os m (inner.prepareSet install) install := by
  cases install <;> rfl

theorem prepareSet_eq_ok_iff (h : inner.WellFormed)
    (hpending : inner.isInstalled ≠ install) {bytes : List Byte} :
    inner.prepareSet install = .ok bytes ↔
      inner.Accepts install ∧ bytes = inner.newBytes install := by
  cases install with
  | true =>
      have hnot : inner.isInstalled = false := by simpa using hpending
      constructor
      · intro hready
        obtain ⟨-, htarget, -, hfits, rfl⟩ := prepareInstall_eq_ok hready
        exact ⟨fun _ => ⟨htarget, hfits⟩, rfl⟩
      · rintro ⟨haccepts, rfl⟩
        obtain ⟨htarget, hfits⟩ := haccepts rfl
        exact prepareInstall_of_fits hnot htarget (h.length_ge htarget) hfits
  | false =>
      have hinstalled : inner.isInstalled = true := by simpa using hpending
      constructor
      · intro hready
        obtain ⟨-, rfl⟩ := prepareUninstall_eq_ok hready
        exact ⟨by simp [Accepts], rfl⟩
      · rintro ⟨-, rfl⟩
        simp [prepareSet, prepareUninstall, hinstalled, newBytes]

theorem newBytes_length (h : inner.WellFormed)
    (hpending : inner.isInstalled ≠ install) (haccepts : inner.Accepts install) :
    (inner.newBytes install).length = inner.patchedOriginalBytes.length ∧
      inner.newBytes install ≠ [] := by
  cases install with
  | true =>
      have hge := h.length_ge (haccepts rfl).1
      exact ⟨length_patch hge, by simp [newBytes, patch, relJumpBytes]⟩
  | false =>
      have hinstalled : inner.isInstalled = true := by simpa using hpending
      have hge := h.length_ge (h.jump_fits hinstalled).1
      refine ⟨rfl, List.ne_nil_of_length_pos ?_⟩
      exact lt_of_lt_of_le (by decide) hge

end Inner

namespace Visit

def pending (install : Bool) (v : Visit) : Bool :=
  v.inner.isInstalled != install

structure Ready (install : Bool) (m : Mem) (v : Visit) : Prop where
  accepts : v.inner.Accepts install
  whole : v.os.selfMem.stored m v.inner.targetFunc
    (v.inner.newBytes install).length = (v.inner.newBytes install).length

def Harmless (install : Bool) (m : Mem) (v : Visit) : Prop :=
  v.inner.Accepts install →
    HarmlessWrite v.os m v.inner.targetFunc (v.inner.newBytes install)

variable {v : Visit}

theorem pending_iff : v.pending install = true ↔
    v.inner.isInstalled ≠ install := bne_iff_ne

theorem Ready.of_sameMapped (h : v.Ready install m)
    (hmapped : m.SameMapped m') : v.Ready install m' := by
  refine ⟨h.accepts, ?_⟩
  rw [v.os.selfMem.stored_of_sameMapped hmapped]
  exact h.whole

theorem ready_iff_of_sameMapped (hmapped : m.SameMapped m') :
    v.Ready install m' ↔ v.Ready install m :=
  ⟨fun h => h.of_sameMapped fun x => (hmapped x).symm,
    fun h => h.of_sameMapped hmapped⟩

theorem setInstalled_of_ready (h : v.inner.WellFormed)
    (hpending : v.pending install = true) (hready : v.Ready install m) :
    v.inner.setInstalled install v.os m = (.ok (), v.inner.withFlag install,
      m.write v.inner.targetFunc (v.inner.newBytes install)) := by
  rw [pending_iff] at hpending
  have hne := (Inner.newBytes_length h hpending hready.accepts).2
  have hprepared := (Inner.prepareSet_eq_ok_iff h hpending).mpr
    ⟨hready.accepts, rfl⟩
  rw [Inner.setInstalled_eq]
  unfold Inner.overwrite
  rw [hprepared]
  dsimp only
  rw [overwriteExecutableMem_of_stored hne hready.whole]
  rfl

theorem setInstalled_of_not_ready (h : v.inner.WellFormed)
    (hpending : v.pending install = true) (hnot : ¬ v.Ready install m) :
    ∃ e m', v.inner.setInstalled install v.os m = (.error e, v.inner, m') ∧
      (m' = m ↔ v.Harmless install m) := by
  rw [pending_iff] at hpending
  have hprepared := @Inner.prepareSet_eq_ok_iff install v.inner h hpending
  have hbound : ∀ bytes, v.inner.prepareSet install = .ok bytes →
      bytes.length ≤ 2 ^ 64 := by
    intro bytes hready
    obtain ⟨haccepts, rfl⟩ := hprepared.mp hready
    have hlen := (Inner.newBytes_length h hpending haccepts).1
    have hlt := h.length_lt
    omega
  have hunchanged := Inner.overwrite_unchanged_iff v.inner v.os m install hbound
  have houtcome := Inner.overwrite_outcome v.inner v.os m
    (v.inner.prepareSet install) install
  rw [Inner.setInstalled_eq]
  have hharmless : v.Harmless install m ↔ ∀ bytes,
      v.inner.prepareSet install = .ok bytes →
        HarmlessWrite v.os m v.inner.targetFunc bytes := by
    constructor
    · intro hv bytes hready
      obtain ⟨haccepts, rfl⟩ := hprepared.mp hready
      exact hv haccepts
    · intro hv haccepts
      exact hv _ (hprepared.mpr ⟨haccepts, rfl⟩)
  rw [hharmless, ← hunchanged]
  generalize v.inner.overwrite v.os m (v.inner.prepareSet install) install =
    result at houtcome
  cases houtcome with
  | rejected e refused => exact ⟨e, m, rfl, by simp⟩
  | failed e bytes ready short => exact ⟨e, _, rfl, by simp⟩
  | done bytes ready whole =>
      obtain ⟨haccepts, rfl⟩ := hprepared.mp ready
      exact absurd ⟨haccepts, whole⟩ hnot

end Visit

/-! ## The loop -/

section Loop

variable {visits pre post : List Visit} {v : Visit}

theorem withFlag_of_not_pending (h : v.pending install = false) :
    v.inner.withFlag install = v.inner := by
  have hflag : v.inner.isInstalled = install := by simpa [Visit.pending] using h
  unfold Inner.withFlag
  rw [← hflag]

theorem setAll_cons_of_ready (h : v.inner.WellFormed)
    (hready : v.pending install = true → v.Ready install m) (n : Nat) :
    ∃ m', m.SameMapped m' ∧ (v.pending install = false → m' = m) ∧
      ∀ rest, setAllHooksInstalled install (v :: rest) m n =
        let result := setAllHooksInstalled install rest m'
          (n + if v.pending install then 1 else 0)
        (result.1, v.inner.withFlag install :: result.2.1, result.2.2) := by
  cases hpending : v.pending install with
  | false =>
      refine ⟨m, .refl m, fun _ => rfl, fun rest => ?_⟩
      rw [withFlag_of_not_pending hpending]
      unfold Visit.pending at hpending
      simp [setAllHooksInstalled, hpending]
  | true =>
      have hnow := hready hpending
      refine ⟨_, Memory.sameMapped_write
        (SelfMemAnswer.mapped_of_stored hnow.whole), by simp, fun rest => ?_⟩
      have hset := Visit.setInstalled_of_ready h hpending hnow
      unfold Visit.pending at hpending
      simp only [setAllHooksInstalled, hpending, if_true, hset]

theorem setAll_of_ready (hwf : ∀ v ∈ visits, v.inner.WellFormed)
    (hready : ∀ v ∈ visits, v.pending install = true → v.Ready install m)
    (n : Nat) :
    ∃ m', setAllHooksInstalled install visits m n =
      (.ok (n + visits.countP (Visit.pending install)),
        visits.map fun v => v.inner.withFlag install, m') := by
  induction visits generalizing m n with
  | nil => exact ⟨m, rfl⟩
  | cons v rest ih =>
      rw [List.forall_mem_cons] at hwf hready
      obtain ⟨m₁, hmapped, -, hcons⟩ := setAll_cons_of_ready hwf.1 hready.1 n
      obtain ⟨m', hrest⟩ := ih hwf.2
        (fun u hu hpending => (hready.2 u hu hpending).of_sameMapped hmapped)
        (n + if v.pending install then 1 else 0)
      refine ⟨m', ?_⟩
      rw [hcons, hrest, List.countP_cons]
      simp only [List.map_cons, Nat.add_assoc, Nat.add_comm (List.countP _ _)]

theorem setAll_stops (pre post : List Visit)
    (hwf : ∀ u ∈ pre, u.inner.WellFormed)
    (hready : ∀ u ∈ pre, u.pending install = true → u.Ready install m)
    (hv : v.inner.WellFormed) (hpending : v.pending install = true)
    (hnot : ¬ v.Ready install m) (n : Nat) :
    ∃ e m', setAllHooksInstalled install (pre ++ v :: post) m n =
      (.error e, (pre.map fun u => u.inner.withFlag install) ++
        v.inner :: post.map Visit.inner, m') ∧
      ((∀ u ∈ pre, u.pending install = false) →
        (m' = m ↔ v.Harmless install m)) := by
  induction pre generalizing m n with
  | nil =>
      obtain ⟨e, m', hset, hharmless⟩ :=
        Visit.setInstalled_of_not_ready hv hpending hnot
      refine ⟨e, m', ?_, fun _ => hharmless⟩
      unfold Visit.pending at hpending
      simp [setAllHooksInstalled, hpending, hset]
  | cons u pre ih =>
      rw [List.forall_mem_cons] at hwf hready
      obtain ⟨m₁, hmapped, hsame, hcons⟩ :=
        setAll_cons_of_ready hwf.1 hready.1 n
      obtain ⟨e, m', hrest, hharmless⟩ := ih hwf.2
        (fun t ht htp => (hready.2 t ht htp).of_sameMapped hmapped)
        (fun hr => hnot ((Visit.ready_iff_of_sameMapped hmapped).mp hr))
        (n + if u.pending install then 1 else 0)
      refine ⟨e, m', ?_, ?_⟩
      · rw [List.cons_append, hcons, hrest]
        rfl
      · intro hnone
        rw [List.forall_mem_cons] at hnone
        obtain rfl := hsame hnone.1
        exact hharmless hnone.2

theorem ready_or_first (install : Bool) (m : Mem) (visits : List Visit) :
    (∀ v ∈ visits, v.pending install = true → v.Ready install m) ∨
    ∃ pre v post, visits = pre ++ v :: post ∧
      (∀ u ∈ pre, u.pending install = true → u.Ready install m) ∧
      v.pending install = true ∧ ¬ v.Ready install m := by
  induction visits with
  | nil => exact .inl (by simp)
  | cons v rest ih =>
      by_cases hv : v.pending install = true → v.Ready install m
      · rcases ih with hall | ⟨pre, u, post, rfl, hpre, hu⟩
        · exact .inl (List.forall_mem_cons.mpr ⟨hv, hall⟩)
        · exact .inr ⟨v :: pre, u, post, rfl,
            List.forall_mem_cons.mpr ⟨hv, hpre⟩, hu⟩
      · rw [Classical.not_imp] at hv
        exact .inr ⟨[], v, rest, rfl, by simp, hv⟩

theorem setAll_stuck (hwf : ∀ v ∈ visits, v.inner.WellFormed)
    (h : ∀ v, (visits.filter (Visit.pending install)).head? = some v →
      ¬ v.Ready install m) (n : Nat) :
    (setAllHooksInstalled install visits m n).2.1 = visits.map Visit.inner := by
  induction visits with
  | nil => rfl
  | cons v rest ih =>
      rw [List.forall_mem_cons] at hwf
      cases hpending : v.pending install with
      | true =>
          have hnot : ¬ v.Ready install m := h v (by simp [hpending])
          obtain ⟨e, m', hstop, -⟩ := setAll_stops [] rest
            (by simp) (by simp) hwf.1 hpending hnot n
          rw [List.nil_append] at hstop
          rw [hstop]
          rfl
      | false =>
          have hready : v.pending install = true → v.Ready install m := by
            simp [hpending]
          obtain ⟨m', -, hsame, hcons⟩ := setAll_cons_of_ready hwf.1 hready n
          obtain rfl := hsame hpending
          rw [List.filter_cons_of_neg (by simp [hpending])] at h
          rw [hcons, withFlag_of_not_pending hpending]
          simp [hpending, ih hwf.2 h]

theorem setAll_first (post : List Visit)
    (hwf : ∀ u ∈ pre, u.inner.WellFormed)
    (hnone : ∀ u ∈ pre, u.pending install = false) (hv : v.inner.WellFormed)
    (hready : v.Ready install m) (n : Nat) :
    (setAllHooksInstalled install (pre ++ v :: post) m n).2.1[pre.length]? =
      some (v.inner.withFlag install) := by
  induction pre with
  | nil =>
      obtain ⟨m', -, -, hcons⟩ := setAll_cons_of_ready hv (fun _ => hready) n
      simp [hcons]
  | cons u pre ih =>
      rw [List.forall_mem_cons] at hwf hnone
      have hnow : u.pending install = true → u.Ready install m := by
        simp [hnone.1]
      obtain ⟨m', -, hsame, hcons⟩ := setAll_cons_of_ready hwf.1 hnow n
      obtain rfl := hsame hnone.1
      rw [List.cons_append, hcons, hnone.1]
      simpa using ih hwf.2 hnone.2

end Loop

/-! ## All or nothing -/

def numFlipped (install : Bool) (before after : List Inner) : Nat :=
  (before.zip after).countP fun p =>
    p.1.isInstalled != install && p.2.isInstalled == install

structure AllOrNothing (install : Bool) (before : List Inner) (m : Mem)
    (result : Res Nat × List Inner × Mem) : Prop where
  returned : ∀ n, result.1 = .ok n →
    (∀ inner ∈ result.2.1, (install = true → inner.hasTargetFunc = true) →
      inner.isInstalled = install) ∧
    n = numFlipped install before result.2.1
  thrown : ∀ e, result.1 = .error e →
    result.2.1.map Inner.isInstalled = before.map Inner.isInstalled ∧
      result.2.2 = m

/-- A hook that is installed when the hooks without a target are not there is
also installed when they are. -/
def NoTargetHarmless (visits : List Visit) (m : Mem) : Prop :=
  ∀ (k : Nat) (without inner : Inner),
    (installAllHooks (visits.filter fun v => v.inner.hasTargetFunc) m).2.1[k]? =
      some without →
    ((installAllHooks visits m).2.1.filter Inner.hasTargetFunc)[k]? =
      some inner →
    without.isInstalled = true → inner.isInstalled = true

/-- All hooks that have to change are ready, or the first of them fails without
changing a byte.  If that one has no target, no other hook could have been
installed right after it. -/
def BulkReady (install : Bool) (m : Mem) (visits : List Visit) : Prop :=
  (∀ v ∈ visits, v.pending install = true → v.Ready install m) ∨
  ∃ v rest, visits.filter (Visit.pending install) = v :: rest ∧
    ¬ v.Ready install m ∧ v.Harmless install m ∧
    (install = true → v.inner.hasTargetFunc = false →
      ∀ u, (rest.filter fun u => u.inner.hasTargetFunc).head? = some u →
        ¬ u.Ready install m)

section AllOrNothing

variable {visits : List Visit} {v : Visit} {rest : List Visit}

theorem numFlipped_withFlag (install : Bool) (visits : List Visit) :
    numFlipped install (visits.map Visit.inner)
      (visits.map fun v => v.inner.withFlag install) =
      visits.countP (Visit.pending install) := by
  induction visits with
  | nil => rfl
  | cons v rest ih =>
      unfold numFlipped at ih
      simp [numFlipped, ih, List.countP_cons, Visit.pending]

theorem allOrNothing_of_ready (hwf : ∀ v ∈ visits, v.inner.WellFormed)
    (hready : ∀ v ∈ visits, v.pending install = true → v.Ready install m) :
    AllOrNothing install (visits.map Visit.inner) m
      (setAllHooksInstalled install visits m 0) := by
  obtain ⟨m', hall⟩ := setAll_of_ready hwf hready 0
  rw [hall]
  refine ⟨?_, by simp⟩
  intro n hn
  cases hn
  refine ⟨?_, ?_⟩
  · intro inner hinner _
    obtain ⟨v, -, rfl⟩ := List.mem_map.mp hinner
    rfl
  · rw [numFlipped_withFlag, Nat.zero_add]

theorem filter_hasTarget_pending
    (h : visits.filter (Visit.pending install) = v :: rest) :
    (visits.filter fun u => u.inner.hasTargetFunc).filter
        (Visit.pending install) =
      (v :: rest).filter fun u => u.inner.hasTargetFunc := by
  rw [← h, List.filter_filter, List.filter_filter]
  congr 1
  funext u
  exact Bool.and_comm _ _

theorem filter_inner (visits : List Visit) :
    (visits.map Visit.inner).filter Inner.hasTargetFunc =
      (visits.filter fun v => v.inner.hasTargetFunc).map Visit.inner := by
  rw [List.filter_map]
  rfl

theorem noTargetHarmless_of_ready (hwf : ∀ v ∈ visits, v.inner.WellFormed)
    (hready : ∀ v ∈ visits, v.pending true = true → v.Ready true m) :
    NoTargetHarmless visits m := by
  obtain ⟨m', hall⟩ := setAll_of_ready hwf hready 0
  intro k without inner _ hget _
  unfold installAllHooks at hget
  rw [hall] at hget
  have hmem := List.mem_of_mem_filter (List.mem_of_getElem? hget)
  obtain ⟨v, -, rfl⟩ := List.mem_map.mp hmem
  rfl

/-- Neither with nor without the hooks that have no target is a hook
installed. -/
theorem noTargetHarmless_of_stuck (hwf : ∀ v ∈ visits, v.inner.WellFormed)
    (hfilter : visits.filter (Visit.pending true) = v :: rest)
    (hnot : ¬ v.Ready true m)
    (hnext : v.inner.hasTargetFunc = false →
      ∀ u, (rest.filter fun u => u.inner.hasTargetFunc).head? = some u →
        ¬ u.Ready true m) :
    NoTargetHarmless visits m := by
  have hall : (installAllHooks visits m).2.1 = visits.map Visit.inner := by
    refine setAll_stuck hwf ?_ 0
    rw [hfilter]
    rintro u ⟨⟩
    exact hnot
  have hwithout : (installAllHooks
      (visits.filter fun v => v.inner.hasTargetFunc) m).2.1 =
        (visits.filter fun v => v.inner.hasTargetFunc).map Visit.inner := by
    refine setAll_stuck (fun u hu => hwf u (List.mem_of_mem_filter hu)) ?_ 0
    rw [filter_hasTarget_pending hfilter]
    cases htarget : v.inner.hasTargetFunc with
    | true =>
        simp only [List.filter_cons, htarget, if_true, List.head?_cons]
        rintro u ⟨⟩
        exact hnot
    | false =>
        rw [List.filter_cons_of_neg (by simp [htarget])]
        exact hnext htarget
  intro k without inner hwithoutGet hget hinstalled
  rw [hwithout] at hwithoutGet
  rw [hall, filter_inner, hwithoutGet] at hget
  cases hget
  exact hinstalled

theorem not_ready_of_noTargetHarmless
    (hwf : ∀ v ∈ visits, v.inner.WellFormed)
    (hfilter : visits.filter (Visit.pending true) = v :: rest)
    (hnot : ¬ v.Ready true m) (htarget : v.inner.hasTargetFunc = false)
    (h : NoTargetHarmless visits m) {u : Visit}
    (hu : (rest.filter fun u => u.inner.hasTargetFunc).head? = some u) :
    ¬ u.Ready true m := by
  intro hready
  have hfirst : ((visits.filter fun v => v.inner.hasTargetFunc).filter
      (Visit.pending true)).head? = some u := by
    rw [filter_hasTarget_pending hfilter,
      List.filter_cons_of_neg (by simp [htarget])]
    exact hu
  rw [List.head?_filter, List.find?_eq_some_iff_append] at hfirst
  obtain ⟨hpending, pre, post, hsplit, hpre⟩ := hfirst
  have hwf' : ∀ t ∈ pre ++ u :: post, t.inner.WellFormed := by
    intro t ht
    rw [← hsplit] at ht
    exact hwf t (List.mem_of_mem_filter ht)
  have hinstalled := setAll_first post
    (fun t ht => hwf' t (List.mem_append_left _ ht))
    (fun t ht => by simpa using hpre t ht) (hwf' u (by simp)) hready 0
  have hall : (installAllHooks visits m).2.1 = visits.map Visit.inner := by
    refine setAll_stuck hwf ?_ 0
    rw [hfilter]
    rintro t ⟨⟩
    exact hnot
  have hflag := h pre.length (u.inner.withFlag true) u.inner
    (by rw [hsplit]; exact hinstalled)
    (by rw [hall, filter_inner, hsplit]; simp) rfl
  rw [Visit.pending_iff] at hpending
  exact hpending hflag

theorem allOrNothing_of_stuck (hwf : ∀ v ∈ visits, v.inner.WellFormed)
    (hfilter : visits.filter (Visit.pending install) = v :: rest)
    (hnot : ¬ v.Ready install m) (hharmless : v.Harmless install m) :
    AllOrNothing install (visits.map Visit.inner) m
      (setAllHooksInstalled install visits m 0) := by
  have hstuck : (setAllHooksInstalled install visits m 0).2.1 =
      visits.map Visit.inner := by
    refine setAll_stuck hwf ?_ 0
    rw [hfilter]
    rintro u ⟨⟩
    exact hnot
  obtain ⟨pre, post, rfl, hpre, hpending, -⟩ := List.filter_eq_cons_iff.mp hfilter
  obtain ⟨e, m', hstop, hmem⟩ := setAll_stops pre post
    (fun u hu => hwf u (List.mem_append_left _ hu))
    (fun u hu hup => absurd hup (hpre u hu)) (hwf v (by simp)) hpending hnot 0
  refine ⟨by simp [hstop], fun _ _ => ⟨by rw [hstuck], ?_⟩⟩
  rw [hstop]
  exact (hmem fun u hu => by simpa using hpre u hu).mpr hharmless

theorem allOrNothing_iff (install : Bool) (m : Mem)
    (hwf : ∀ v ∈ visits, v.inner.WellFormed) :
    (AllOrNothing install (visits.map Visit.inner) m
        (setAllHooksInstalled install visits m 0) ∧
      (install = true → NoTargetHarmless visits m)) ↔
    BulkReady install m visits := by
  constructor
  · rintro ⟨hnothing, hharmless⟩
    rcases ready_or_first install m visits with hready |
      ⟨pre, v, post, rfl, hpre, hpending, hnot⟩
    · exact .inl hready
    · have hv := hwf v (by simp)
      obtain ⟨e, m', hstop, hmem⟩ := setAll_stops pre post
        (fun u hu => hwf u (List.mem_append_left _ hu)) hpre hv hpending hnot 0
      rw [hstop] at hnothing
      obtain ⟨hflags, hsame⟩ := hnothing.thrown e rfl
      have hnone : ∀ u ∈ pre, u.pending install = false := by
        simp only [List.map_append, List.map_map] at hflags
        have hpreflags := (List.append_inj hflags (by simp)).1
        intro u hu
        have := List.map_inj_left.mp hpreflags u hu
        simpa [Visit.pending] using this.symm
      have hfilter : (pre ++ v :: post).filter (Visit.pending install) =
          v :: post.filter (Visit.pending install) := by
        rw [List.filter_append, List.filter_cons_of_pos hpending,
          List.filter_eq_nil_iff.mpr (by simpa using hnone), List.nil_append]
      refine .inr ⟨v, _, hfilter, hnot, (hmem hnone).mp hsame, ?_⟩
      rintro rfl htarget u hu
      exact not_ready_of_noTargetHarmless hwf hfilter hnot htarget
        (hharmless rfl) hu
  · rintro (hready | ⟨v, rest, hfilter, hnot, hharmless, hnext⟩)
    · refine ⟨allOrNothing_of_ready hwf hready, ?_⟩
      rintro rfl
      exact noTargetHarmless_of_ready hwf hready
    · constructor
      · exact allOrNothing_of_stuck hwf hfilter hnot hharmless
      · rintro rfl
        exact noTargetHarmless_of_stuck hwf hfilter hnot (hnext rfl)

end AllOrNothing

/-! ## A bulk call is a run of single operations -/

theorem overwriteExecutableMem_returnsOrThrows (os : Os) (m : Mem)
    (source : List Byte) (dest : Ptr) :
    ReturnsOrThrows (overwriteExecutableMem os m source dest).1 := by
  unfold overwriteExecutableMem
  split
  · exact .thrown _
  · exact .thrown _
  · dsimp only
    split
    · exact .ok _
    · exact .thrown _

namespace Inner

theorem jmpPatchBytes_returnsOrThrows (inner : Inner) :
    ReturnsOrThrows inner.jmpPatchBytes := by
  unfold jmpPatchBytes
  refine ReturnsOrThrows.bind ?_ fun encoder => ?_
  · unfold Encoder.encodeRelJmp
    dsimp only
    split
    · exact .thrown _
    · exact .ok _
  · exact (ztAssert_returnsOrThrows _ _).bind fun _ =>
      (ztAssert_returnsOrThrows _ _).bind fun _ => .ok _

theorem prepareSet_returnsOrThrows (inner : Inner) (install : Bool) :
    ReturnsOrThrows (inner.prepareSet install) := by
  cases install with
  | true =>
      change ReturnsOrThrows inner.prepareInstall
      unfold prepareInstall
      split
      · exact .thrown _
      · split
        · exact .thrown _
        · exact inner.jmpPatchBytes_returnsOrThrows
  | false =>
      change ReturnsOrThrows inner.prepareUninstall
      unfold prepareUninstall
      split
      · exact .thrown _
      · exact .ok _

theorem setInstalled_returnsOrThrows (inner : Inner) (install : Bool) (os : Os)
    (m : Mem) : ReturnsOrThrows (inner.setInstalled install os m).1 := by
  rw [setInstalled_eq]
  unfold overwrite
  rcases inner.prepareSet_returnsOrThrows install with ⟨bytes, hok⟩ | ⟨what, hthrown⟩
  · rw [hok]
    dsimp only
    have hwrite := overwriteExecutableMem_returnsOrThrows os m bytes
      inner.targetFunc
    generalize overwriteExecutableMem os m bytes inner.targetFunc = written
      at hwrite
    obtain ⟨r, m'⟩ := written
    rcases hwrite with ⟨u, rfl⟩ | ⟨what, rfl⟩
    · exact .ok _
    · exact .thrown _
  · rw [hthrown]
    exact .thrown _

end Inner

namespace World

variable {z : Zydis} {m₀ : Mem}

theorem completed_of_returnsOrThrows {r : Res Unit} (h : ReturnsOrThrows r) :
    completed r = true := by
  rcases h with ⟨u, rfl⟩ | ⟨what, rfl⟩ <;> rfl

theorem next_setInstalled (install : Bool) (os : Os) {w : World} {i : Nat}
    (hget : w.insts[i]? = some inner) :
    next z w (if install then .install i else .uninstall i, os) =
      some (putBack w i (inner.setInstalled install os w.process.mem)).2 := by
  have hcompleted := completed_of_returnsOrThrows
    (inner.setInstalled_returnsOrThrows install os w.process.mem)
  cases install with
  | true =>
      change completed (inner.install os w.process.mem).1 = true at hcompleted
      simp [next, perform, hget, putBack, Inner.setInstalled, hcompleted]
  | false =>
      change completed (inner.uninstall os w.process.mem).1 = true at hcompleted
      simp [next, perform, hget, putBack, Inner.setInstalled, hcompleted]

theorem setAll_reachable {visits : List Visit} {w : World} (done : List Inner)
    (h : (hookSystem z m₀).Reachable w)
    (hinsts : w.insts = done ++ visits.map Visit.inner) (n : Nat) :
    (hookSystem z m₀).Reachable
      { process := { w.process with
          mem := (setAllHooksInstalled install visits w.process.mem n).2.2 }
        insts := done ++
          (setAllHooksInstalled install visits w.process.mem n).2.1 } := by
  induction visits generalizing w done n with
  | nil =>
      rw [show w = _ from congrArg (World.mk w.process) hinsts] at h
      exact h
  | cons v rest ih =>
      unfold setAllHooksInstalled
      split
      · have hget : w.insts[done.length]? = some v.inner := by simp [hinsts]
        have hstep := next_setInstalled (z := z) install v.os hget
        generalize v.inner.setInstalled install v.os w.process.mem = result
          at hstep
        obtain ⟨r, inner', m'⟩ := result
        have hreach := TransitionSystem.ReachableUnder.step h hstep trivial
        have hset : (putBack w done.length (r, inner', m')).2.insts =
            done ++ inner' :: rest.map Visit.inner := by
          simp [putBack, hinsts]
        cases r with
        | error e =>
            rw [show (putBack w done.length (.error e, inner', m')).2 = _ from
              congrArg (World.mk _) hset] at hreach
            exact hreach
        | ok u =>
            have hnext := ih (done ++ [inner']) hreach (by simpa using hset)
              (n + 1)
            simpa [putBack] using hnext
      · have hnext := ih (done ++ [v.inner]) h (by simpa using hinsts) n
        simpa using hnext

/-- Bulk installation and bulk removal are all or nothing, and count exactly,
in every state in which the hooks are ready for them, and in no other. -/
theorem bulk_all_or_nothing_iff (hz : z.Lawful) {w : World}
    (h : (hookSystem z m₀).Reachable w) {visits : List Visit}
    (hvisits : visits.map Visit.inner = w.insts) :
    ((AllOrNothing true w.insts w.process.mem
        (installAllHooks visits w.process.mem) ∧
      NoTargetHarmless visits w.process.mem) ↔
        BulkReady true w.process.mem visits) ∧
    (AllOrNothing false w.insts w.process.mem
        (uninstallAllHooks visits w.process.mem) ↔
      BulkReady false w.process.mem visits) := by
  have hwf : ∀ v ∈ visits, v.inner.WellFormed := by
    intro v hv
    refine reachable_wellFormed hz h v.inner ?_
    rw [← hvisits]
    exact List.mem_map_of_mem hv
  rw [← hvisits]
  constructor
  · simpa [installAllHooks] using
      allOrNothing_iff true w.process.mem hwf
  · simpa [uninstallAllHooks] using
      allOrNothing_iff false w.process.mem hwf

theorem bulk_all_or_nothing_nop :
    let m := firstInstalled.process.mem
    ∃ visits, visits.map Visit.inner = firstInstalled.insts ∧
      AllOrNothing true firstInstalled.insts m (installAllHooks visits m) ∧
      NoTargetHarmless visits m ∧ (installAllHooks visits m).1 = .ok 1 ∧
      AllOrNothing false firstInstalled.insts m (uninstallAllHooks visits m) ∧
      (uninstallAllHooks visits m).1 = .ok 1 := by
  let first : Inner := { Inner.nopInner with isInstalled := true }
  have hvisits : [Visit.mk first smallOs, ⟨otherInner, smallOs⟩].map
      Visit.inner = firstInstalled.insts :=
    insts_firstInstalled.symm
  obtain ⟨history, hrun⟩ := bothHooked_run
  obtain ⟨hinstall, huninstall⟩ := bulk_all_or_nothing_iff
    (tableZydis_lawful _)
    (hrun.step (next_of_perform perform_install_first)).reachable hvisits
  have hready : BulkReady true firstInstalled.process.mem
      [⟨first, smallOs⟩, ⟨otherInner, smallOs⟩] := by
    left
    intro v hv hpending
    rcases List.mem_pair.mp hv with rfl | rfl
    · cases hpending
    · refine ⟨fun _ => ⟨by decide, by unfold FitsSigned; decide⟩, ?_⟩
      decide +kernel
  have hready' : BulkReady false firstInstalled.process.mem
      [⟨first, smallOs⟩, ⟨otherInner, smallOs⟩] := by
    left
    intro v hv hpending
    rcases List.mem_pair.mp hv with rfl | rfl
    · refine ⟨by simp [Inner.Accepts], ?_⟩
      decide +kernel
    · cases hpending
  obtain ⟨hall, hharmless⟩ := hinstall.mpr hready
  exact ⟨_, hvisits, hall, hharmless, by decide +kernel,
    huninstall.mpr hready', by decide +kernel⟩

def mixedTargets : List (Op × Os) :=
  [(.create "nop" 0x1000 0x2000 0x3000, smallOs),
    (.create "unknown" 0 0x2000 0x3008, smallOs)]

/-- The bulk call throws at the second hook and leaves the first installed. -/
theorem bulk_stops_halfway :
    ∃ w, (hookSystem (tableZydis smallTable) nopProcess.mem).Reachable w ∧
      ∃ visits, visits.map Visit.inner = w.insts ∧
        ¬ AllOrNothing true w.insts w.process.mem
          (installAllHooks visits w.process.mem) := by
  have hrun : (TransitionSystem.replay (next (tableZydis smallTable))
      (start nopProcess.mem nopProcess.outs) mixedTargets).map (fun w =>
        let result := installAllHooks (w.insts.map (Visit.mk · smallOs))
          w.process.mem
        (result.1.isOk, w.insts.map Inner.isInstalled,
          result.2.1.map Inner.isInstalled)) =
      some (false, [false, false], [true, false]) := by
    decide +kernel
  obtain ⟨w, hreplay, hw⟩ := Option.map_eq_some_iff.mp hrun
  simp only [Prod.mk.injEq] at hw
  obtain ⟨hthrows, hbefore, hafter⟩ := hw
  obtain ⟨history, hhistory⟩ := TransitionSystem.Run.replay
    (T := hookSystem (tableZydis smallTable) nopProcess.mem)
    (fun _ _ _ h => h) (.init ⟨nopProcess.outs, rfl⟩) hreplay
  refine ⟨w, hhistory.reachable, w.insts.map (Visit.mk · smallOs), ?_, ?_⟩
  · rw [List.map_map]
    exact List.map_id _
  · intro hall
    generalize installAllHooks (w.insts.map (Visit.mk · smallOs))
      w.process.mem = result at hthrows hafter hall
    cases hres : result.1 with
    | ok n => simp [hres, Except.isOk, Except.toBool] at hthrows
    | error e =>
        have hflags := (hall.thrown e hres).1
        rw [hbefore, hafter] at hflags
        cases hflags

end World

end Ztour
