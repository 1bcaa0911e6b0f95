import Ztour.Allocation
import Ztour.HookInst.Retarget

/-!
# The code pages of hooks

What hook operations acquire and release is what the allocation model says they
do on the Unix branch.
-/

namespace Ztour

open Ztour.Foundation

variable {z : Zydis} {os : Os}

namespace Inner

/-! ## How far the constructor comes -/

def construction (z : Zydis) (os : Os) (p : Process) (name : String)
    (target detour out : Ptr) : Allocation.Construction :=
  match resolveArgs p.mem name target detour out with
  | .error _ => .rejected
  | .ok (targetFunc, detourFunc) =>
      if targetFunc = 0 then .noTarget
      else
        match MemPage.new os p.mem targetFunc with
        | .error _ => .rejected
        | .ok (page, m) =>
            match fill z os m page name targetFunc detourFunc out with
            | .error _ => .unwound page.memory
            | .ok _ => .constructed page.memory

structure Constructs (m : Mem) (built : Allocation.Construction)
    (r : Res Inner) (m' : Mem) : Prop where
  fresh : ∀ page, built.page = some page → page ≠ 0 ∧ m page = none
  codePage : built.codePage =
    r.toOption.map fun inner => inner.codePage.map MemPage.memory
  own : ∀ inner page, r = .ok inner → inner.codePage = some page →
    page.memory ∈ page.range ∧ ∀ x ∈ page.range, m x = none ∧ m' x ≠ none
  kept : ∀ x, m x ≠ none → m' x = m x

variable {p : Process} {name : String} {target detour out : Ptr}

theorem Filled.mapped {m₀ m m' : Mem} {memory x : Ptr} {size : Nat}
    {inner : Inner} (h : Filled z m memory size inner m')
    (hfresh : FreshPage m₀ size memory m) (hx : x ∈ span memory size) :
    m' x ≠ none := by
  obtain ⟨reloc, -, -, rfl⟩ := h.image
  apply Memory.write_mapped
  rw [hfresh.mem_eq]
  simp [Memory.map, hx]

theorem Filled.constructs {m₀ m m' : Mem} {page : MemPage} {inner : Inner}
    (h : Filled z m page.memory page.size inner m')
    (hfresh : FreshPage m₀ page.size page.memory m)
    (hnew : page.memory ≠ 0 ∧ m₀ page.memory = none)
    (hstart : page.memory ∈ page.range)
    (hkept : ∀ x, m₀ x ≠ none → m' x = m₀ x) :
    Constructs m₀ (.constructed page.memory) (.ok inner) m' := by
  obtain ⟨own, hown, hmemory, hsize⟩ := h.page
  have hrange : own.range = page.range := by
    rw [MemPage.range, hmemory, hsize, MemPage.range]
  refine ⟨by simpa [Allocation.Construction.page] using hnew, ?_, ?_, hkept⟩
  · simp [Allocation.Construction.codePage, Except.toOption, hown, hmemory]
  · intro inner' page' hinner hpage
    cases hinner
    cases hown.symm.trans hpage
    rw [hrange, hmemory]
    exact ⟨hstart, fun x hx => ⟨hfresh.unmapped x hx, h.mapped hfresh hx⟩⟩

theorem constructs_rejected {m : Mem} (e : Err) :
    Constructs m .rejected (.error e) m where
  fresh := by simp [Allocation.Construction.page]
  codePage := rfl
  own := by simp
  kept := fun _ _ => rfl

theorem new_constructs (hz : z.Lawful) {r : Res Inner} {p' : Process}
    (h : new z os p name target detour out = (r, p')) :
    Constructs p.mem (construction z os p name target detour out) r p'.mem := by
  have houtcome := new_outcome hz os p name target detour out
  rw [h] at houtcome
  have hkept : ∀ x, p.mem x ≠ none → p'.mem x = p.mem x :=
    fun x hx => houtcome.mem_eq (.inl hx)
  unfold construction
  unfold new at h
  cases hargs : resolveArgs p.mem name target detour out with
  | error e =>
      rw [hargs] at h
      cases h
      exact constructs_rejected e
  | ok resolved =>
      obtain ⟨t, d⟩ := resolved
      rw [hargs] at h
      dsimp only at h ⊢
      by_cases hnull : t = 0
      · rw [if_pos hnull] at h ⊢
        cases h
        refine ⟨by simp [Allocation.Construction.page], rfl, ?_, hkept⟩
        intro inner page hinner hpage
        cases hinner
        cases hpage
      · rw [if_neg hnull] at h ⊢
        cases hpage : MemPage.new os p.mem t with
        | error e =>
            rw [hpage] at h
            cases h
            exact constructs_rejected e
        | ok allocated =>
            obtain ⟨page, m⟩ := allocated
            obtain ⟨hoffset, hmax, hsize, hfresh⟩ := MemPage.new_eq_ok hpage
            have hstart : page.memory ∈ page.range := by
              rw [MemPage.range, mem_span, BitVec.sub_self]
              exact lt_of_lt_of_le (by decide) hsize
            have hnew : page.memory ≠ 0 ∧ p.mem page.memory = none :=
              ⟨MemPage.new_memory_ne_zero hpage, hfresh.unmapped _ hstart⟩
            rw [hpage] at h
            dsimp only at h ⊢
            cases hfill : fill z os m page name t d out with
            | error e =>
                rw [hfill] at h
                cases h
                exact ⟨by simpa [Allocation.Construction.page] using hnew, rfl,
                  by simp, hkept⟩
            | ok filled =>
                obtain ⟨inner, m'⟩ := filled
                rw [hfill] at h
                cases h
                obtain ⟨hfilled, -⟩ := fill_eq_ok hz hoffset hsize hmax hfill
                exact hfilled.constructs hfresh hnew hstart hkept

end Inner

/-! ## Pages that are held -/

abbrev Held := List (Ptr × Allocation.Allocator)

/-- The pages of hooks are mapped and apart, and of what is held nothing lies in
the page of a hook but this page itself. -/
structure PagesHeld (m : Mem) (pages : List MemPage) (held : Held) : Prop where
  mapped : ∀ r ∈ held, m r.1 ≠ none
  own : ∀ page ∈ pages, page.memory ≠ 0 ∧ ∀ x ∈ page.range, m x ≠ none
  apart : ∀ page ∈ pages, ∀ r ∈ held, r.1 ∈ page.range → r.1 = page.memory
  disjoint : pages.Pairwise fun page other => Disjoint page.range other.range

namespace PagesHeld

variable {m m' : Mem} {page : MemPage} {pages pages' : List MemPage}
  {held : Held}

theorem mono (h : PagesHeld m pages held)
    (hkept : ∀ x, m x ≠ none → m' x ≠ none) : PagesHeld m' pages held where
  mapped := fun r hr => hkept _ (h.mapped r hr)
  own := fun page hpage =>
    ⟨(h.own page hpage).1, fun x hx => hkept x ((h.own page hpage).2 x hx)⟩
  apart := h.apart
  disjoint := h.disjoint

theorem perm (h : PagesHeld m pages held) (hperm : pages.Perm pages') :
    PagesHeld m pages' held where
  mapped := h.mapped
  own := fun page hpage => h.own page (hperm.mem_iff.mpr hpage)
  apart := fun page hpage => h.apart page (hperm.mem_iff.mpr hpage)
  disjoint := (hperm.pairwise_iff fun hdisj => hdisj.symm).mp h.disjoint

theorem sublist (h : PagesHeld m pages held) (hsub : pages'.Sublist pages) :
    PagesHeld m pages' held where
  mapped := h.mapped
  own := fun page hpage => h.own page (hsub.subset hpage)
  apart := fun page hpage => h.apart page (hsub.subset hpage)
  disjoint := h.disjoint.sublist hsub

theorem acquire (h : PagesHeld m pages held)
    (a : Allocation.Allocator) (hnonnull : page.memory ≠ 0)
    (hstart : page.memory ∈ page.range)
    (hnew : ∀ x ∈ page.range, m x = none ∧ m' x ≠ none)
    (hkept : ∀ x, m x ≠ none → m' x ≠ none) :
    PagesHeld m' (page :: pages) ((page.memory, a) :: held) where
  mapped := by
    rw [List.forall_mem_cons]
    exact ⟨(hnew _ hstart).2, fun r hr => hkept _ (h.mapped r hr)⟩
  own := by
    rw [List.forall_mem_cons]
    exact ⟨⟨hnonnull, fun x hx => (hnew x hx).2⟩, (h.mono hkept).own⟩
  apart := by
    simp only [List.forall_mem_cons]
    refine ⟨⟨fun _ => trivial, fun r hr hin => ?_⟩, fun p hp => ⟨fun hin => ?_, ?_⟩⟩
    · exact absurd (hnew _ hin).1 (h.mapped r hr)
    · exact absurd (hnew _ hstart).1 ((h.own p hp).2 _ hin)
    · exact h.apart p hp
  disjoint := by
    refine List.pairwise_cons.mpr ⟨fun p hp => ?_, h.disjoint⟩
    rw [Set.disjoint_left]
    intro x hx hxp
    exact (h.own p hp).2 x hxp (hnew x hx).1

theorem release {m' : Mem} (h : PagesHeld m (page :: pages) held)
    (hdestroy : page.destroy os m = .ok m') :
    PagesHeld m' pages (held.filter fun r => r.1 ≠ page.memory) := by
  have hout : ∀ x, x ∉ page.range → m' x = m x :=
    fun x hx => MemPage.destroy_of_not_mem hdestroy hx
  obtain ⟨hapart, hdisj⟩ := List.pairwise_cons.mp h.disjoint
  refine ⟨?_, ?_, ?_, hdisj⟩
  · intro r hr
    obtain ⟨hr, hne⟩ := List.mem_filter.mp hr
    have hnot : r.1 ∉ page.range := by
      intro hin
      exact of_decide_eq_true hne (h.apart page List.mem_cons_self r hr hin)
    rw [hout _ hnot]
    exact h.mapped r hr
  · intro p hp
    obtain ⟨hnonnull, hmapped⟩ := h.own p (List.mem_cons_of_mem _ hp)
    refine ⟨hnonnull, fun x hx => ?_⟩
    rw [hout x (Set.disjoint_right.mp (hapart p hp) hx)]
    exact hmapped x hx
  · intro p hp r hr
    exact h.apart p (List.mem_cons_of_mem _ hp) r (List.mem_filter.mp hr).1

end PagesHeld

/-! ## The simulation -/

namespace World

def allocationOp (z : Zydis) (w : World) (call : Op × Os) :
    Option Allocation.Op :=
  match call.1 with
  | .create name target detour out =>
      some (.create
        (Inner.construction z call.2 w.process name target detour out)
        (w.insts.any (·.name = name)))
  | .changeTargetFunc i target =>
      (w.insts[i]?.filter (!·.isInstalled)).map fun inner =>
        .changeTargetFunc i (Inner.construction z call.2 w.process inner.name
          target inner.detourFunc inner.outputOriginalFunc)
  | .install _ | .uninstall _ => none

structure Tracked (w : World) (s : Allocation.State) : Prop where
  codePages : s.codePages =
    w.insts.map fun inner => inner.codePage.map MemPage.memory
  held : PagesHeld w.process.mem (w.insts.filterMap Inner.codePage) s.held

section Constructions

open Allocation (Construction)

variable {s : Allocation.State} {built : Construction} {r : Res Inner}
  {inner : Inner} {m m' : Mem} {pages : List MemPage}

theorem fresh_of_constructs (h : PagesHeld m pages s.held)
    (hc : Inner.Constructs m built r m') {page : Ptr}
    (hpage : built.page = some page) :
    page ≠ 0 ∧ ∀ resource ∈ s.held, resource.1 ≠ page := by
  obtain ⟨hne, hnone⟩ := hc.fresh page hpage
  refine ⟨hne, ?_⟩
  rintro resource hheld rfl
  exact h.mapped resource hheld hnone

theorem all_fresh_of_constructs (h : PagesHeld m pages s.held)
    (hc : Inner.Constructs m built r m') :
    built.page.all (Allocation.fresh s) = true := by
  cases hpage : built.page with
  | none => rfl
  | some page =>
      obtain ⟨hne, hnot⟩ := fresh_of_constructs h hc hpage
      simp only [Option.all_some, Allocation.fresh, List.mem_cons,
        List.mem_map, decide_eq_true_eq]
      rintro (hzero | ⟨resource, hheld, heq⟩)
      · exact hne hzero
      · exact hnot resource hheld heq

theorem heldAfter_construction (h : PagesHeld m pages s.held)
    (hc : Inner.Constructs m built r m') :
    heldAfter s.held (built.ledger .unix) =
      (built.codePage.join.map fun page =>
        (page, Allocation.Allocator.mmap)).toList ++ s.held := by
  cases built with
  | unwound page =>
      obtain ⟨hne, hnew⟩ := fresh_of_constructs h hc rfl
      simp only [Construction.ledger, Allocation.Platform.free, if_neg hne]
      change ((page, Allocation.Allocator.mmap) :: s.held).filter
        (fun resource => resource.1 ≠ page) = s.held
      rw [List.filter_cons_of_neg (by simp), List.filter_eq_self]
      intro resource hheld
      simpa using hnew resource hheld
  | _ => rfl

theorem mapped_of_constructs (hc : Inner.Constructs m built r m') {x : Ptr}
    (hx : m x ≠ none) : m' x ≠ none := by
  rw [hc.kept x hx]
  exact hx

theorem held_of_constructed (h : PagesHeld m pages s.held)
    (hc : Inner.Constructs m built (.ok inner) m') :
    PagesHeld m' (inner.codePage.toList ++ pages)
      (heldAfter s.held (built.ledger .unix)) := by
  have hkept : ∀ x, m x ≠ none → m' x ≠ none :=
    fun x hx => mapped_of_constructs hc hx
  have hbuilt := hc.codePage
  rw [heldAfter_construction h hc, hbuilt]
  cases hpage : inner.codePage with
  | none => simpa [Except.toOption, hpage] using h.mono hkept
  | some page =>
      simp only [Except.toOption, hpage, Option.map_some] at hbuilt
      obtain rfl := Allocation.constructed_of_codePage hbuilt
      obtain ⟨hstart, hnew⟩ := hc.own inner page rfl hpage
      simpa [Except.toOption, hpage] using
        h.acquire .mmap (hc.fresh _ rfl).1 hstart hnew hkept

theorem held_of_dropped {e : Err} (h : PagesHeld m pages s.held)
    (hc : Inner.Constructs m built (.error e) m') :
    PagesHeld m' pages (heldAfter s.held (built.ledger .unix)) := by
  rw [heldAfter_construction h hc, hc.codePage]
  exact h.mono fun x hx => mapped_of_constructs hc hx

end Constructions

theorem filterMap_codePage (before after : List Inner) (inner : Inner) :
    ((before ++ inner :: after).filterMap Inner.codePage).Perm
      (inner.codePage.toList ++
        (before ++ after).filterMap Inner.codePage) := by
  cases hpage : inner.codePage with
  | none => simp [hpage]
  | some page => simp [hpage]

theorem held_after_destroy {m m' : Mem} {pages : List MemPage} {held : Held}
    {inner : Inner} (hdestroy : inner.destroy os m = .ok m')
    (h : PagesHeld m (inner.codePage.toList ++ pages) held) :
    PagesHeld m' pages (heldAfter held
      (Allocation.destroyInner .unix
        (inner.codePage.map MemPage.memory))) := by
  unfold Inner.destroy at hdestroy
  cases hpage : inner.codePage with
  | none =>
      rw [hpage] at hdestroy
      cases hdestroy
      simpa [hpage, Allocation.destroyInner, heldAfter] using h
  | some page =>
      rw [hpage] at h hdestroy
      have hne := (h.own page (by simp)).1
      simp only [Option.map_some, Allocation.destroyInner,
        Allocation.Platform.free, if_neg hne]
      exact h.release hdestroy

section Simulation

variable {w w' : World} {s : Allocation.State} {r : Res Unit}

theorem tracked_create (hz : z.Lawful) (h : Tracked w s) {name : String}
    {target detour out : Ptr}
    (hcreate : create z os w name target detour out = (r, w')) :
    ∃ s', Allocation.next .unix s (.create
        (Inner.construction z os w.process name target detour out)
        (w.insts.any (·.name = name))) = some s' ∧ Tracked w' s' := by
  unfold create at hcreate
  cases hnew : Inner.new z os w.process name target detour out with
  | mk res p' =>
      have hc := Inner.new_constructs hz hnew
      have hbuilt := hc.codePage
      rw [hnew] at hcreate
      simp only [Allocation.next, all_fresh_of_constructs h.held hc, if_true,
        hbuilt]
      cases res with
      | error e =>
          cases hcreate
          exact ⟨_, rfl, h.codePages, held_of_dropped h.held hc⟩
      | ok inner =>
          have hheld := held_of_constructed h.held hc
          dsimp only at hcreate
          split at hcreate
          · rename_i htaken
            cases hcreate
            rw [htaken]
            exact ⟨_, rfl, h.codePages,
              hheld.sublist (List.sublist_append_right _ _)⟩
          · rename_i hnames
            cases hcreate
            rw [Bool.eq_false_iff.mpr hnames]
            refine ⟨_, rfl, ?_, ?_⟩
            · simp [h.codePages]
            · apply hheld.perm
              simpa using (filterMap_codePage w.insts [] inner).symm

theorem tracked_change (hz : z.Lawful) (h : Tracked w s) {i : Nat}
    {inner : Inner} {target : Ptr} (hget : w.insts[i]? = some inner)
    (hnot : inner.isInstalled = false) (hcompleted : completed r = true)
    (hchange : changeTargetFunc z os w i inner target = (r, w')) :
    ∃ s', Allocation.next .unix s (.changeTargetFunc i
        (Inner.construction z os w.process inner.name target inner.detourFunc
          inner.outputOriginalFunc)) = some s' ∧ Tracked w' s' := by
  obtain ⟨hlt, rfl⟩ := List.getElem?_eq_some_iff.mp hget
  have hlen : i < s.codePages.length := by
    simpa [h.codePages] using hlt
  unfold changeTargetFunc at hchange
  rw [hnot, if_neg Bool.false_ne_true] at hchange
  cases hnew : Inner.new z os w.process w.insts[i].name target
      w.insts[i].detourFunc w.insts[i].outputOriginalFunc with
  | mk res p' =>
      have hc := Inner.new_constructs hz hnew
      rw [hnew] at hchange
      simp only [Allocation.next, all_fresh_of_constructs h.held hc, hlen,
        and_self, if_true, Allocation.State.put, Allocation.ledger]
      cases res with
      | error e =>
          have hbuilt : Allocation.Construction.codePage _ = none := hc.codePage
          cases hchange
          rw [hbuilt]
          refine ⟨_, rfl, h.codePages, ?_⟩
          rw [List.append_nil]
          exact held_of_dropped h.held hc
      | ok newInner =>
          have hbuilt : Allocation.Construction.codePage _ =
            some (newInner.codePage.map MemPage.memory) := hc.codePage
          have hheld := held_of_constructed h.held hc
          have hold : s.codePages[i]?.join =
              w.insts[i].codePage.map MemPage.memory := by
            simp [h.codePages, hlt]
          obtain ⟨before, after, hinsts, -, hset⟩ :=
            @List.exists_of_set _ i newInner w.insts hlt
          dsimp only at hchange
          split at hchange
          · rename_i e hdestroy
            cases hchange
            rw [Inner.destroy_error hdestroy] at hcompleted
            cases hcompleted
          rename_i m' hdestroy
          cases hchange
          rw [hbuilt]
          refine ⟨_, rfl, ?_, ?_⟩
          · simp [h.codePages, List.map_set]
          · dsimp only
            rw [heldAfter_append, hold, hset]
            apply held_after_destroy hdestroy
            have hbefore : (w.insts.filterMap Inner.codePage).Perm
                (w.insts[i].codePage.toList ++
                  (before ++ after).filterMap Inner.codePage) := by
              conv_lhs => rw [hinsts]
              exact filterMap_codePage before after _
            apply hheld.perm
            refine (hbefore.append_left _).trans ?_
            refine (List.perm_append_comm_assoc _ _ _).trans ?_
            exact (filterMap_codePage before after newInner).symm.append_left _

theorem codePage_of_outcome {inner inner' : Inner} {prepared : Res (List Byte)}
    {flag : Bool} {m m' : Mem}
    (h : Inner.OverwriteOutcome inner os m prepared flag (r, inner', m')) :
    inner'.codePage = inner.codePage ∧ ∀ x, m x ≠ none → m' x ≠ none := by
  cases h with
  | rejected e refused => exact ⟨rfl, fun _ hx => hx⟩
  | failed e bytes ready short => exact ⟨rfl, fun _ hx => Memory.write_mapped hx⟩
  | done bytes ready whole => exact ⟨rfl, fun _ hx => Memory.write_mapped hx⟩

theorem tracked_writes (h : Tracked w s) {i : Nat} {inner inner' : Inner}
    {prepared : Res (List Byte)} {flag : Bool} {m' : Mem}
    (hget : w.insts[i]? = some inner)
    (houtcome : Inner.OverwriteOutcome inner os w.process.mem prepared flag
      (r, inner', m')) :
    Tracked { process := { w.process with mem := m' }
              insts := w.insts.set i inner' } s := by
  obtain ⟨hpage, hkept⟩ := codePage_of_outcome houtcome
  obtain ⟨hlt, hinner⟩ := List.getElem?_eq_some_iff.mp hget
  have hsame : (w.insts.set i inner').map Inner.codePage =
      w.insts.map Inner.codePage := by
    have hlt' : i < (w.insts.map Inner.codePage).length := by simpa using hlt
    rw [List.map_set, hpage, ← hinner]
    simpa using List.set_getElem_self hlt'
  have hpages : (w.insts.set i inner').filterMap Inner.codePage =
      w.insts.filterMap Inner.codePage := by
    have hid := congrArg (List.filterMap id) hsame
    simpa only [List.filterMap_map, Function.id_comp] using hid
  refine ⟨?_, ?_⟩
  · have hmemory := congrArg (List.map (Option.map MemPage.memory)) hsame
    simp only [List.map_map] at hmemory
    exact h.codePages.trans hmemory.symm
  · rw [hpages]
    exact h.held.mono hkept

theorem tracked_next (hz : z.Lawful) (h : Tracked w s) {call : Op × Os}
    (hnext : next z w call = some w') :
    match allocationOp z w call with
    | some op => ∃ s', Allocation.next .unix s op = some s' ∧ Tracked w' s'
    | none => Tracked w' s := by
  obtain ⟨op, os⟩ := call
  obtain ⟨r, hperform, hcompleted⟩ := next_completed hnext
  cases op with
  | create name target detour out =>
      exact tracked_create hz h (Option.some.inj hperform)
  | changeTargetFunc i target =>
      obtain ⟨inner, hget, hchange⟩ := Option.map_eq_some_iff.mp hperform
      cases hinstalled : inner.isInstalled with
      | true =>
          simp only [allocationOp, hget, Option.filter, hinstalled]
          unfold changeTargetFunc at hchange
          rw [hinstalled, if_pos rfl] at hchange
          cases hchange
          exact h
      | false =>
          simp only [allocationOp, hget, Option.filter, hinstalled]
          exact tracked_change hz h hget hinstalled hcompleted hchange
  | install i =>
      obtain ⟨inner, hget, hputs⟩ := Option.map_eq_some_iff.mp hperform
      cases hputs
      exact tracked_writes h hget
        (Inner.overwrite_outcome inner os w.process.mem _ _)
  | uninstall i =>
      obtain ⟨inner, hget, hputs⟩ := Option.map_eq_some_iff.mp hperform
      cases hputs
      exact tracked_writes h hget
        (Inner.overwrite_outcome inner os w.process.mem _ _)

/-- What the hooks of a run acquire and release, the allocation model acquires
and releases on the Unix branch. -/
theorem hooks_simulated (hz : z.Lawful) {m₀ : Mem}
    {history : List (Event World (Op × Os))}
    (h : (hookSystem z m₀).Run w history) :
    ∃ s history', (Allocation.allocationSystem .unix).Run s history' ∧
      Tracked w s ∧ history'.map Event.action =
        history.filterMap fun e => allocationOp z e.before e.action := by
  apply TransitionSystem.Run.simulate (allocationOp z) _ _ _ h
  · rintro w ⟨outs, rfl⟩
    exact ⟨Allocation.start, rfl, rfl, by simp [Allocation.start],
      by simp [World.start], by simp [World.start], by simp [World.start]⟩
  · intro w call w' s htracked hnext op hop
    have hstep := tracked_next hz htracked hnext
    rw [hop] at hstep
    exact hstep
  · intro w call w' s htracked hnext hnone
    have hstep := tracked_next hz htracked hnext
    rw [hnone] at hstep
    exact hstep

end Simulation

end World

end Ztour
