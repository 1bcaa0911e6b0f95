import Ztour.HookInst.PatchInPlace

/-!
# The memory as the original with the installed patches on it

While the patched ranges of all hooks stay apart from each other and from the
code pages, and no write is cut short, the memory outside the code pages is the
initial one overlaid with the patches of exactly the installed hooks.
-/

namespace Ztour

open Ztour.Foundation

def overlay (m₀ : Mem) : List Inner → Mem
  | [] => m₀
  | inner :: rest =>
      if inner.isInstalled then
        (overlay m₀ rest).write inner.targetFunc inner.patch
      else overlay m₀ rest

theorem eq_overlay {m₀ m : Mem} {insts : List Inner} {x : Ptr}
    (hpatched : ∀ inner ∈ insts, inner.isInstalled = true →
      m.Holds inner.targetFunc inner.patch)
    (hother : (∀ inner ∈ insts, inner.isInstalled = true →
      x ∉ span inner.targetFunc inner.patch.length) → m x = m₀ x) :
    m x = overlay m₀ insts x := by
  induction insts with
  | nil => exact hother (by simp)
  | cons inner rest ih =>
      rw [List.forall_mem_cons] at hpatched
      unfold overlay
      split
      · rename_i hinstalled
        symm
        refine Memory.write_restore (hpatched.1 hinstalled) fun hx => ?_
        symm
        refine ih hpatched.2 fun hrest => hother ?_
        rw [List.forall_mem_cons]
        exact ⟨fun _ => hx, hrest⟩
      · rename_i hnot
        refine ih hpatched.2 fun hrest => hother ?_
        rw [List.forall_mem_cons]
        exact ⟨fun hinstalled => absurd hinstalled hnot, hrest⟩

variable {z : Zydis} {m₀ : Mem}

namespace Inner

theorem NewOutcome.ownPage {os : Os} {p p' : Process} {name : String}
    {t d out : Ptr} {inner : Inner}
    (h : NewOutcome z os p name t d out (.ok inner, p'))
    {page : MemPage} (hpage : inner.codePage = some page) :
    page.range ⊆ p'.pageMemory := by
  cases h with
  | noTarget d resolved => cases hpage
  | constructed inner fresh' m m' resolved nonnull fresh filled named output =>
      obtain ⟨page', hpage', hmemory, hsize⟩ := filled.page
      cases hpage.symm.trans hpage'
      intro x hx
      refine ⟨fresh', List.mem_cons_self, ?_⟩
      unfold MemPage.range at hx ⊢
      rwa [hmemory, hsize] at hx

theorem NewOutcome.saved {os : Os} {p p' : Process} {name : String}
    {t d out : Ptr} {inner : Inner}
    (h : NewOutcome z os p name t d out (.ok inner, p'))
    (hpages : Disjoint inner.range p'.pageMemory)
    (hmem : ∀ x ∈ inner.range, p.mem x = m₀ x) :
    m₀.Holds inner.targetFunc inner.patchedOriginalBytes := by
  cases h with
  | noTarget d resolved => exact Memory.holds_nil _ _
  | constructed inner page m m' resolved nonnull fresh filled named output =>
      have hlt := filled.length_lt
      refine filled.saved.congr (by omega) ?_
      intro x hx
      have hout : x ∉ span page.memory page.size := fun hin =>
        Set.disjoint_left.mp hpages hx ⟨page, List.mem_cons_self, hin⟩
      rw [fresh.mem_outside hout]
      exact (hmem x hx).symm

end Inner

namespace World

structure Separated (w : World) : Prop where
  ranges : ∀ (i j : Nat) (a b : Inner), w.insts[i]? = some a →
    w.insts[j]? = some b → i ≠ j → Disjoint a.range b.range
  pages : ∀ inner ∈ w.insts, Disjoint inner.range w.process.pageMemory

/-- The operation succeeds or stores nothing, and keeps the ranges apart. -/
def CleanStep (z : Zydis) (w : World) (call : Op × Os) (w' : World) : Prop :=
  (Succeeds z ⟨w, call, w'⟩ ∨ touched z w call = ∅) ∧ w'.Separated

structure Overlaid (m₀ : Mem) (w : World) : Prop where
  wellFormed : ∀ inner ∈ w.insts, inner.WellFormed
  ownPage : ∀ inner ∈ w.insts, ∀ page, inner.codePage = some page →
    page.range ⊆ w.process.pageMemory
  saved : ∀ inner ∈ w.insts,
    m₀.Holds inner.targetFunc inner.patchedOriginalBytes
  patched : ∀ inner ∈ w.insts, inner.isInstalled = true →
    w.process.mem.Holds inner.targetFunc inner.patch
  original : ∀ x, x ∉ w.process.pageMemory →
    (∀ inner ∈ w.insts, inner.isInstalled = true → x ∉ inner.range) →
    w.process.mem x = m₀ x

theorem overlaid_start (outs : Ptr → Ptr) : Overlaid m₀ (start m₀ outs) where
  wellFormed := by simp [start]
  ownPage := by simp [start]
  saved := by simp [start]
  patched := by simp [start]
  original := fun _ _ _ => rfl

/-! ## Construction -/

theorem Overlaid.built {os : Os} {w : World} {p' : Process} {name : String}
    {t d out : Ptr} {r : Res Inner} (h : Overlaid m₀ w)
    (hbuilt : Inner.NewOutcome z os w.process name t d out (r, p')) :
    Overlaid m₀ { w with process := p' } where
  wellFormed := h.wellFormed
  ownPage := fun inner hmem page hpage =>
    (h.ownPage inner hmem page hpage).trans hbuilt.pages
  saved := h.saved
  patched := fun inner hmem hinstalled =>
    holds_patch_of_eq (h.wellFormed inner hmem) hinstalled
      (h.patched inner hmem hinstalled)
      fun _ _ hmapped => hbuilt.mem_eq (.inl hmapped)
  original := by
    intro x hx hnot
    rw [hbuilt.mem_eq (.inr hx)]
    exact h.original x (fun hin => hx (hbuilt.pages hin)) hnot

theorem Overlaid.range_original {w : World} (h : Overlaid m₀ w)
    {inner : Inner} (hpages : Disjoint inner.range w.process.pageMemory)
    (hothers : ∀ other ∈ w.insts, other.isInstalled = true →
      Disjoint inner.range other.range) :
    ∀ x ∈ inner.range, w.process.mem x = m₀ x := by
  intro x hx
  refine h.original x (Set.disjoint_left.mp hpages hx) ?_
  intro other hmem hinstalled
  exact Set.disjoint_left.mp (hothers other hmem hinstalled) hx

theorem Overlaid.created {os : Os} {w : World} {p' : Process} {name : String}
    {t d out : Ptr} {inner : Inner} (h : Overlaid m₀ w)
    (hbuilt : Inner.NewOutcome z os w.process name t d out (.ok inner, p'))
    (hsep : Separated { process := p', insts := w.insts ++ [inner] }) :
    Overlaid m₀ { process := p', insts := w.insts ++ [inner] } := by
  have hkept := h.built hbuilt
  have hpages : Disjoint inner.range p'.pageMemory :=
    hsep.pages inner (by simp)
  have hothers : ∀ other ∈ w.insts, Disjoint inner.range other.range := by
    intro other hother
    obtain ⟨i, hi⟩ := List.mem_iff_getElem?.mp hother
    have hlt := (List.getElem?_eq_some_iff.mp hi).1
    exact hsep.ranges w.insts.length i inner other (by simp)
      (by rw [List.getElem?_append_left hlt]; exact hi) (by omega)
  have hrange := h.range_original
    (hpages.mono_right hbuilt.pages) (fun other hother _ => hothers other hother)
  refine ⟨?_, ?_, ?_, ?_, ?_⟩
  · intro other hother
    rcases List.mem_append.mp hother with hold | hnew
    · exact h.wellFormed other hold
    · rw [List.mem_singleton.mp hnew]
      exact hbuilt.wellFormed
  · intro other hother page hpage
    rcases List.mem_append.mp hother with hold | hnew
    · exact hkept.ownPage other hold page hpage
    · rw [List.mem_singleton.mp hnew] at hpage
      exact hbuilt.ownPage hpage
  · intro other hother
    rcases List.mem_append.mp hother with hold | hnew
    · exact h.saved other hold
    · rw [List.mem_singleton.mp hnew]
      exact hbuilt.saved hpages hrange
  · intro other hother hinstalled
    rcases List.mem_append.mp hother with hold | hnew
    · exact hkept.patched other hold hinstalled
    · rw [List.mem_singleton.mp hnew, hbuilt.notInstalled] at hinstalled
      cases hinstalled
  · intro x hx hnot
    refine hkept.original x hx fun other hother => ?_
    exact hnot other (List.mem_append_left _ hother)

theorem mem_set_of_ne {insts : List Inner} {i : Nat} {inner other : Inner}
    (newInner : Inner) (present : insts[i]? = some inner)
    (hother : other ∈ insts) (hne : other ≠ inner) :
    ∃ k, k ≠ i ∧ (insts.set i newInner)[k]? = some other := by
  obtain ⟨k, hk⟩ := List.mem_iff_getElem?.mp hother
  have hki : k ≠ i := by
    rintro rfl
    exact hne (Option.some.inj (hk.symm.trans present))
  refine ⟨k, hki, ?_⟩
  rw [List.getElem?_set_ne hki.symm]
  exact hk

theorem ne_of_isInstalled {inner other : Inner}
    (hnot : inner.isInstalled = false) (hinstalled : other.isInstalled = true) :
    other ≠ inner := by
  rintro rfl
  rw [hnot] at hinstalled
  cases hinstalled

theorem Overlaid.changed {os : Os} {w : World} {p' : Process} {i : Nat}
    {t : Ptr} {inner newInner : Inner} {m' : Mem} (h : Overlaid m₀ w)
    (present : w.insts[i]? = some inner)
    (notInstalled : inner.isInstalled = false)
    (hbuilt : Inner.NewOutcome z os w.process inner.name t inner.detourFunc
      inner.outputOriginalFunc (.ok newInner, p'))
    (destroyed : inner.destroy os p'.mem = .ok m')
    (hsep : Separated
      { process := { p' with mem := m' }, insts := w.insts.set i newInner }) :
    Overlaid m₀
      { process := { p' with mem := m' }
        insts := w.insts.set i newInner } := by
  have hkept := h.built hbuilt
  have hlt := (List.getElem?_eq_some_iff.mp present).1
  have hnew : (w.insts.set i newInner)[i]? = some newInner :=
    List.getElem?_set_self hlt
  have hpages : Disjoint newInner.range p'.pageMemory :=
    hsep.pages newInner (List.mem_of_getElem? hnew)
  have hrange := h.range_original (hpages.mono_right hbuilt.pages) (by
    intro other hother hinstalled
    obtain ⟨k, hki, hk⟩ := mem_set_of_ne newInner present hother
      (ne_of_isInstalled notInstalled hinstalled)
    exact hsep.ranges i k newInner other hnew hk hki.symm)
  have hdestroy : ∀ x, x ∉ p'.pageMemory → m' x = p'.mem x := by
    intro x hx
    refine Inner.destroy_of_not_mem destroyed fun page hpage hin => ?_
    exact hx (hkept.ownPage inner (List.mem_of_getElem? present) page hpage hin)
  refine ⟨?_, ?_, ?_, ?_, ?_⟩
  · intro other hother
    rcases List.mem_or_eq_of_mem_set hother with hold | rfl
    · exact h.wellFormed other hold
    · exact hbuilt.wellFormed
  · intro other hother page hpage
    rcases List.mem_or_eq_of_mem_set hother with hold | rfl
    · exact hkept.ownPage other hold page hpage
    · exact hbuilt.ownPage hpage
  · intro other hother
    rcases List.mem_or_eq_of_mem_set hother with hold | rfl
    · exact h.saved other hold
    · exact hbuilt.saved hpages hrange
  · intro other hother hinstalled
    have hother' : Disjoint other.range p'.pageMemory := hsep.pages other hother
    rcases List.mem_or_eq_of_mem_set hother with hold | rfl
    · refine holds_patch_of_eq (h.wellFormed other hold) hinstalled
        (hkept.patched other hold hinstalled) fun x hx _ => ?_
      exact hdestroy x (Set.disjoint_left.mp hother' hx)
    · rw [hbuilt.notInstalled] at hinstalled
      cases hinstalled
  · intro x hx hnot
    refine (hdestroy x hx).trans (hkept.original x hx ?_)
    intro other hother hinstalled
    obtain ⟨k, -, hk⟩ := mem_set_of_ne newInner present hother
      (ne_of_isInstalled notInstalled hinstalled)
    exact hnot other (List.mem_of_getElem? hk) hinstalled

/-! ## Installing and uninstalling -/

theorem outcome_clean {inner inner' : Inner} {os : Os} {m m' : Mem}
    {prepared : Res (List Byte)} {flag : Bool} {r : Res Unit}
    (h : Inner.OverwriteOutcome inner os m prepared flag (r, inner', m'))
    (hclean : r = .ok () ∨ ∀ bytes, prepared = .ok bytes →
      os.selfMem.stored m inner.targetFunc bytes.length = 0) :
    (inner' = inner ∧ m' = m) ∨
      ∃ bytes, prepared = .ok bytes ∧
        inner' = { inner with isInstalled := flag } ∧
        m' = m.write inner.targetFunc bytes := by
  cases h with
  | rejected e refused => exact .inl ⟨rfl, rfl⟩
  | failed e bytes ready short =>
      rcases hclean with hok | hnone
      · cases hok
      · rw [hnone bytes ready]
        exact .inl ⟨rfl, by simp⟩
  | done bytes ready whole => exact .inr ⟨bytes, ready, rfl, rfl⟩

theorem stored_eq_zero_of_touched {w : World} {op : Op} {os : Os} {j : Nat}
    {inner : Inner} {prepared : Res (List Byte)} {flag : Bool}
    (writes : Writes op j inner prepared flag)
    (present : w.insts[j]? = some inner)
    (htouched : touched z w (op, os) = ∅) {bytes : List Byte}
    (hready : prepared = .ok bytes) :
    os.selfMem.stored w.process.mem inner.targetFunc bytes.length = 0 := by
  by_contra hne
  have hmem := (hready ▸ writes).touched_eq z os present
    (a := inner.targetFunc) (by
      rw [mem_span, BitVec.sub_self]
      exact Nat.pos_of_ne_zero hne)
  rw [htouched] at hmem
  exact hmem

section WholeWrite

variable {w : World} {op : Op} {j : Nat} {inner : Inner} {bytes : List Byte}
  {flag : Bool}

theorem Writes.length_eq (h : Writes op j inner (.ok bytes) flag) :
    bytes.length = inner.patchedOriginalBytes.length := by
  rcases h.cases with ⟨-, hready, -⟩ | ⟨-, hready, -⟩
  · obtain ⟨-, -, hge, -, rfl⟩ := Inner.prepareInstall_eq_ok hready.symm
    exact Inner.length_patch hge
  · obtain ⟨-, rfl⟩ := Inner.prepareUninstall_eq_ok hready.symm
    rfl

theorem Writes.write_outside (h : Writes op j inner (.ok bytes) flag) (m : Mem)
    {x : Ptr} (hx : x ∉ inner.range) :
    m.write inner.targetFunc bytes x = m x := by
  apply Memory.write_of_not_mem
  rw [h.length_eq]
  exact hx

theorem Overlaid.patched_write (h : Overlaid m₀ w)
    (present : w.insts[j]? = some inner)
    (writes : Writes op j inner (.ok bytes) flag) {m' : Mem}
    (hm' : m' = w.process.mem.write inner.targetFunc bytes)
    (hsep : Separated
      { process := { w.process with mem := m' }
        insts := w.insts.set j { inner with isInstalled := flag } }) :
    ∀ other ∈ w.insts.set j { inner with isInstalled := flag },
      other.isInstalled = true → m'.Holds other.targetFunc other.patch := by
  subst hm'
  have hwf := h.wellFormed inner (List.mem_of_getElem? present)
  have hlt := (List.getElem?_eq_some_iff.mp present).1
  have hnew : (w.insts.set j { inner with isInstalled := flag })[j]? =
      some { inner with isInstalled := flag } := List.getElem?_set_self hlt
  intro other hother hinstalled
  obtain ⟨k, hk⟩ := List.mem_iff_getElem?.mp hother
  by_cases hkj : j = k
  · subst hkj
    cases hk.symm.trans hnew
    rcases writes.cases with ⟨-, hready, rfl⟩ | ⟨-, -, rfl⟩
    · exact done_holds hwf hready.symm
    · cases hinstalled
  · have hdisj : Disjoint other.range inner.range :=
      hsep.ranges k j other { inner with isInstalled := flag } hk hnew
        (Ne.symm hkj)
    rw [List.getElem?_set_ne hkj] at hk
    have hold := List.mem_of_getElem? hk
    exact holds_patch_of_eq (h.wellFormed other hold) hinstalled
      (h.patched other hold hinstalled) fun x hx _ =>
        writes.write_outside _ (Set.disjoint_left.mp hdisj hx)

/-- After a whole write the bytes outside the installed patches are the
original ones: a removal has put back what the hook had saved. -/
theorem Overlaid.original_write (h : Overlaid m₀ w)
    (present : w.insts[j]? = some inner)
    (writes : Writes op j inner (.ok bytes) flag) {x : Ptr}
    (hx : x ∉ w.process.pageMemory)
    (hnot : ∀ other ∈ w.insts.set j { inner with isInstalled := flag },
      other.isInstalled = true → x ∉ other.range) :
    w.process.mem.write inner.targetFunc bytes x = m₀ x := by
  have hinner := List.mem_of_getElem? present
  have hlt := (List.getElem?_eq_some_iff.mp present).1
  have hothers : ∀ other ∈ w.insts, other ≠ inner →
      other.isInstalled = true → x ∉ other.range := by
    intro other hother hne
    obtain ⟨k, -, hk⟩ := mem_set_of_ne { inner with isInstalled := flag }
      present hother hne
    exact hnot other (List.mem_of_getElem? hk)
  rcases writes.cases with ⟨-, hready, rfl⟩ | ⟨-, hready, rfl⟩
  · have hfalse := (Inner.prepareInstall_eq_ok hready.symm).1
    have hout : x ∉ inner.range :=
      hnot { inner with isInstalled := true }
        (List.mem_of_getElem? (List.getElem?_set_self hlt)) rfl
    rw [writes.write_outside _ hout]
    refine h.original x hx fun other hother hinstalled => ?_
    exact hothers other hother (ne_of_isInstalled hfalse hinstalled) hinstalled
  · -- inside its range the write puts back what `m₀` holds there
    obtain ⟨-, rfl⟩ := Inner.prepareUninstall_eq_ok hready.symm
    refine Memory.write_restore (h.saved inner hinner) fun hout => ?_
    refine h.original x hx fun other hother hinstalled => ?_
    by_cases heq : other = inner
    · rw [heq]
      exact hout
    · exact hothers other hother heq hinstalled

end WholeWrite

theorem Overlaid.wrote {os : Os} {w : World} {op : Op} {j : Nat}
    {inner inner' : Inner} {prepared : Res (List Byte)} {flag : Bool}
    {r : Res Unit} {m' : Mem} (h : Overlaid m₀ w)
    (present : w.insts[j]? = some inner)
    (writes : Writes op j inner prepared flag)
    (outcome : Inner.OverwriteOutcome inner os w.process.mem prepared flag
      (r, inner', m'))
    (hclean : r = .ok () ∨ touched z w (op, os) = ∅)
    (hsep : Separated { process := { w.process with mem := m' }
                        insts := w.insts.set j inner' }) :
    Overlaid m₀ { process := { w.process with mem := m' }
                  insts := w.insts.set j inner' } := by
  have hinner := List.mem_of_getElem? present
  have hwf' := writes.wellFormed (h.wellFormed inner hinner) outcome
  rcases outcome_clean outcome (hclean.imp_right fun htouched bytes hready =>
    stored_eq_zero_of_touched writes present htouched hready) with
    ⟨rfl, rfl⟩ | ⟨bytes, rfl, rfl, hm'⟩
  · rw [← (List.getElem?_eq_some_iff.mp present).2, List.set_getElem_self]
    exact h
  · refine ⟨?_, ?_, ?_, ?_, ?_⟩
    · intro other hother
      rcases List.mem_or_eq_of_mem_set hother with hold | rfl
      · exact h.wellFormed other hold
      · exact hwf'
    · intro other hother page hpage
      rcases List.mem_or_eq_of_mem_set hother with hold | rfl
      · exact h.ownPage other hold page hpage
      · exact h.ownPage inner hinner page hpage
    · intro other hother
      rcases List.mem_or_eq_of_mem_set hother with hold | rfl
      · exact h.saved other hold
      · exact h.saved inner hinner
    · exact h.patched_write present writes hm' hsep
    · intro x hx hnot
      rw [hm']
      exact h.original_write present writes hx hnot

/-! ## Every run -/

theorem reachable_overlaid (hz : z.Lawful) {w : World}
    (h : (hookSystem z m₀).ReachableUnder (CleanStep z) w) :
    Overlaid m₀ w := by
  refine h.invariant (I := Overlaid m₀) ?_ ?_
  · rintro w ⟨outs, rfl⟩
    exact overlaid_start outs
  · rintro w ⟨op, os⟩ w' hI hstep ⟨hclean, hsep⟩
    obtain ⟨r, hperform, heffect⟩ := next_effect hz hstep
    have hclean' : r = .ok () ∨ touched z w (op, os) = ∅ := by
      refine hclean.imp_left ?_
      rintro ⟨w₁, hok⟩
      dsimp only at hok
      rw [hperform, Option.some.injEq, Prod.mk.injEq] at hok
      exact hok.1
    cases heffect with
    | refused op e => exact hI
    | dropped op e name t d out r p' built => exact hI.built built
    | created name t d out inner p' built distinct =>
        exact hI.created built hsep
    | changed i t inner newInner p' m' present notInstalled built destroyed =>
        exact hI.changed present notInstalled built destroyed hsep
    | wrote op j inner inner' prepared flag r m' present writes outcome =>
        exact hI.wrote present writes outcome hclean' hsep

theorem reachable_separated {w : World}
    (h : (hookSystem z m₀).ReachableUnder (CleanStep z) w) : w.Separated := by
  cases h with
  | init h =>
      obtain ⟨outs, rfl⟩ := h
      exact ⟨by simp [start], by simp [start]⟩
  | step _ _ hcond => exact hcond.2

theorem perform_install_eq_ok {os : Os} {w w' : World} {i : Nat} :
    perform z os w (.install i) = some (.ok (), w') ↔
      ∃ inner, w.insts[i]? = some inner ∧
        inner.prepareInstall = .ok inner.patch ∧
        os.selfMem.stored w.process.mem inner.targetFunc inner.patch.length =
          inner.patch.length ∧
        w' = { process := { w.process with
                 mem := w.process.mem.write inner.targetFunc inner.patch }
               insts := w.insts.set i { inner with isInstalled := true } } := by
  constructor
  · intro h
    obtain ⟨inner, hget, h⟩ := Option.map_eq_some_iff.mp h
    rw [putBack, Prod.mk.injEq] at h
    obtain ⟨hok, rfl⟩ := h
    obtain ⟨hready, hwhole, hinner, hmem⟩ :=
      Inner.install_eq_ok_iff.mp (eq_mk_of_fst hok)
    refine ⟨inner, hget, hready, hwhole, ?_⟩
    rw [hinner, hmem]
  · rintro ⟨inner, hget, hready, hwhole, rfl⟩
    have hinstall := Inner.install_eq_ok_iff.mpr ⟨hready, hwhole, rfl, rfl⟩
    simp only [perform, hget, Option.map_some, hinstall]
    rfl

theorem length_patch_of_ready {inner : Inner} (h : inner.WellFormed)
    (hready : inner.prepareInstall = .ok inner.patch) :
    inner.patch.length ≤ 2 ^ 64 ∧
      inner.patch.length = inner.patchedOriginalBytes.length := by
  have hlt := h.length_lt
  have hlen := Inner.length_patch (Inner.prepareInstall_eq_ok hready).2.2.1
  exact ⟨by omega, hlen⟩

/-- Two installations that succeed in one order succeed in the other one. -/
theorem install_comm {os os' : Os} {w w₁ w₁₂ : World} {i j : Nat}
    (hij : i ≠ j) (hwf : ∀ inner ∈ w.insts, inner.WellFormed)
    (hsep : w.Separated)
    (h₁ : perform z os w (.install i) = some (.ok (), w₁))
    (h₁₂ : perform z os' w₁ (.install j) = some (.ok (), w₁₂)) :
    ∃ w₂, perform z os' w (.install j) = some (.ok (), w₂) ∧
      perform z os w₂ (.install i) = some (.ok (), w₁₂) := by
  obtain ⟨a, ha, hreadya, hwholea, rfl⟩ := perform_install_eq_ok.mp h₁
  obtain ⟨b, hb, hreadyb, hwholeb, rfl⟩ := perform_install_eq_ok.mp h₁₂
  rw [List.getElem?_set_ne hij] at hb
  have hlena := length_patch_of_ready (hwf a (List.mem_of_getElem? ha)) hreadya
  have hlenb := length_patch_of_ready (hwf b (List.mem_of_getElem? hb)) hreadyb
  have hdisj : Disjoint (span a.targetFunc a.patch.length)
      (span b.targetFunc b.patch.length) := by
    rw [hlena.2, hlenb.2]
    exact hsep.ranges i j a b ha hb hij
  have hstoreda := os.selfMem.stored_congr hlena.1 fun x hx =>
    Memory.write_of_not_mem (m := w.process.mem)
      (Set.disjoint_left.mp hdisj hx)
  have hstoredb := os'.selfMem.stored_congr hlenb.1 fun x hx =>
    Memory.write_of_not_mem (m := w.process.mem)
      (Set.disjoint_right.mp hdisj hx)
  refine ⟨_, perform_install_eq_ok.mpr ⟨b, hb, hreadyb,
    hstoredb.symm.trans hwholeb, rfl⟩, perform_install_eq_ok.mpr ⟨a, ?_, hreadya,
      hstoreda.trans hwholea, ?_⟩⟩
  · rw [List.getElem?_set_ne hij.symm]
    exact ha
  · simp only [Memory.write_comm hdisj, List.set_comm _ _ hij]

/-- In every state of a run with separated hooks and clean writes: the memory
outside the code pages is the initial one overlaid with the installed patches,
a hook that is not installed leaves its target as it was, and two installations
commute. -/
theorem memory_overlaid (hz : z.Lawful) {w : World}
    (h : (hookSystem z m₀).ReachableUnder (CleanStep z) w) :
    (∀ x, x ∉ w.process.pageMemory →
      w.process.mem x = overlay m₀ w.insts x) ∧
    (∀ inner ∈ w.insts, inner.isInstalled = false →
      ∀ x ∈ inner.range, w.process.mem x = m₀ x) ∧
    (∀ i j os os' w₁ w₁₂, i ≠ j →
      perform z os w (.install i) = some (.ok (), w₁) →
      perform z os' w₁ (.install j) = some (.ok (), w₁₂) →
      ∃ w₂, perform z os' w (.install j) = some (.ok (), w₂) ∧
        perform z os w₂ (.install i) = some (.ok (), w₁₂)) := by
  have hI := reachable_overlaid hz h
  have hsep := reachable_separated h
  refine ⟨?_, ?_, ?_⟩
  · intro x hx
    refine eq_overlay hI.patched fun hnot => hI.original x hx ?_
    intro inner hmem hinstalled
    rw [← (range_patch (hI.wellFormed inner hmem) hinstalled).2]
    exact hnot inner hmem hinstalled
  · intro inner hmem hnot
    refine hI.range_original (hsep.pages inner hmem) ?_
    intro other hother hinstalled
    obtain ⟨k, hk⟩ := List.mem_iff_getElem?.mp hmem
    obtain ⟨l, hl⟩ := List.mem_iff_getElem?.mp hother
    refine hsep.ranges k l inner other hk hl ?_
    rintro rfl
    cases hk.symm.trans hl
    rw [hnot] at hinstalled
    cases hinstalled
  · intro i j os os' w₁ w₁₂ hij h₁ h₁₂
    exact install_comm hij hI.wellFormed hsep h₁ h₁₂

theorem separated_of_single {w : World} {inner : Inner} {page : MemPage}
    (hinsts : w.insts = [inner]) (hpages : w.process.pages = [page])
    (hdisj : Disjoint inner.range page.range) : w.Separated := by
  refine ⟨?_, ?_⟩
  · intro i j a b ha hb hij
    rw [hinsts] at ha hb
    have hi := (List.getElem?_eq_some_iff.mp ha).1
    have hj := (List.getElem?_eq_some_iff.mp hb).1
    simp only [List.length_singleton] at hi hj
    omega
  · intro other hother
    rw [hinsts, List.mem_singleton] at hother
    subst hother
    refine hdisj.mono_right ?_
    rintro x ⟨page', hpage', hx⟩
    rw [hpages, List.mem_singleton] at hpage'
    exact hpage' ▸ hx

theorem separated_of_pair {w : World} {a b : Inner} (hinsts : w.insts = [a, b])
    (hranges : Disjoint b.range a.range)
    (hpages : ∀ inner ∈ [a, b], ∀ page ∈ w.process.pages,
      Disjoint inner.range page.range) : w.Separated := by
  refine ⟨?_, ?_⟩
  · intro i j c d hc hd hij
    rw [hinsts] at hc hd
    match i, j with
    | 0, 0 | 1, 1 => exact absurd rfl hij
    | 0, 1 =>
        cases hc
        cases hd
        exact hranges.symm
    | 1, 0 =>
        cases hc
        cases hd
        exact hranges
    | _ + 2, _ => simp at hc
    | 0, _ + 2 | 1, _ + 2 => simp at hd
  · intro inner hinner
    rw [hinsts] at hinner
    rw [Set.disjoint_left]
    rintro x hx ⟨page, hpage, hxpage⟩
    exact Set.disjoint_left.mp (hpages inner hinner page hpage) hx hxpage

theorem nops_beside_page {inner : Inner} {page : MemPage}
    (hlen : inner.patchedOriginalBytes.length = 5)
    (htarget : inner.targetFunc = 0x1000 ∨ inner.targetFunc = 0x1800)
    (hpage : (page.size, page.memory) ∈
      [(0x100, (0x1700 : Ptr)), (0x100, 0xF00)]) :
    Disjoint inner.range page.range := by
  rw [Set.disjoint_left]
  unfold Inner.range MemPage.range
  rw [hlen]
  intro x hx
  obtain ⟨i, hi, -, rfl⟩ := eq_offset_of_mem_span hx
  simp only [List.mem_pair, Prod.mk.injEq] at hpage
  rcases htarget with htarget | htarget <;>
    rcases hpage with ⟨hsize, hmemory⟩ | ⟨hsize, hmemory⟩ <;>
      rw [htarget, hsize, hmemory] <;> interval_cases i <;> decide

theorem separated_nops {w : World} {first other : Bool}
    (hinsts : w.insts = [{ Inner.nopInner with isInstalled := first },
      { otherInner with isInstalled := other }])
    (hpages : w.process.pages.map (fun page => (page.size, page.memory)) =
      [(0x100, 0x1700), (0x100, 0xF00)]) : w.Separated := by
  refine separated_of_pair hinsts ranges_apart fun inner hinner page hpage => ?_
  have hlisted := List.mem_map_of_mem (f := fun page : MemPage =>
    (page.size, page.memory)) hpage
  rw [hpages] at hlisted
  rw [List.mem_pair] at hinner
  rcases hinner with rfl | rfl
  · exact nops_beside_page rfl (.inl rfl) hlisted
  · exact nops_beside_page rfl (.inr rfl) hlisted

theorem memory_overlaid_nop :
    (∀ x, x ∉ bothInstalled.process.pageMemory →
      bothInstalled.process.mem x = overlay twoFunctions bothInstalled.insts x) ∧
    (∀ x ∈ otherInner.range, firstInstalled.process.mem x = twoFunctions x) ∧
    ∃ w₂, perform (tableZydis smallTable) smallOs bothHooked (.install 1) =
        some (.ok (), w₂) ∧
      perform (tableZydis smallTable) smallOs w₂ (.install 0) =
        some (.ok (), bothInstalled) := by
  have hone : (hookSystem (tableZydis smallTable) twoFunctions).ReachableUnder
      (CleanStep (tableZydis smallTable)) oneHooked := by
    have hinsts : oneHooked.insts = [Inner.nopInner] := by decide +kernel
    have hpages : oneHooked.process.pages = [⟨0x100, 0xF00, 0, by decide⟩] := by
      decide +kernel
    exact .step (.init ⟨nopProcess.outs, rfl⟩)
      (next_of_perform perform_create_first) ⟨.inr rfl, separated_of_single hinsts
        hpages (nops_beside_page rfl (.inl rfl) (by simp))⟩
  have hboth : (hookSystem (tableZydis smallTable) twoFunctions).ReachableUnder
      (CleanStep (tableZydis smallTable)) bothHooked :=
    .step hone (next_of_perform perform_create_other)
      ⟨.inr rfl, separated_nops insts_bothHooked (by decide +kernel)⟩
  have hfirst : (hookSystem (tableZydis smallTable) twoFunctions).ReachableUnder
      (CleanStep (tableZydis smallTable)) firstInstalled :=
    .step hboth (next_of_perform perform_install_first)
      ⟨.inl (succeeds_of_perform perform_install_first),
        separated_nops insts_firstInstalled (by decide +kernel)⟩
  have hlast : (hookSystem (tableZydis smallTable) twoFunctions).ReachableUnder
      (CleanStep (tableZydis smallTable)) bothInstalled :=
    .step hfirst (next_of_perform perform_install_other)
      ⟨.inl (succeeds_of_perform perform_install_other),
        separated_nops insts_bothInstalled (by decide +kernel)⟩
  have hz := tableZydis_lawful smallTable
  refine ⟨(memory_overlaid hz hlast).1, ?_, ?_⟩
  · apply (memory_overlaid hz hfirst).2.1 otherInner _ rfl
    rw [insts_firstInstalled]
    simp
  · exact (memory_overlaid hz hboth).2.2 0 1 smallOs smallOs _ _ (by decide)
      perform_install_first perform_install_other

end World

end Ztour
