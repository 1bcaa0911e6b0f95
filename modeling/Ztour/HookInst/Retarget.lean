import Ztour.HookInst.Reversal

/-!
# Retargeting a hook

`change_target_func` builds a new inner object before it gives up the old one,
and writes the output pointer last, so an exception leaves the hook as it was.
But an exception that finds the code page mapped destroys it, and `memory::free`
need not come back.  Each retarget resolves the detour pointer once more, which
only follows the detour's own jump stubs.
-/

namespace Ztour

open Ztour.Foundation

variable {z : Zydis} {os : Os} {m m' : Mem}

/-! ## Where a detour pointer leads -/

/-- Execution at the first address comes to the function at the second, through
jump stubs only.  The stubs and the first byte of the function are in
`bytes`. -/
inductive LeadsTo (m : Mem) (bytes : Set Ptr) : Ptr → Ptr → Prop
  | here {f byte} (mapped : m f = some byte) (notJmp : byte ≠ 0xE9)
      (inside : f ∈ bytes) : LeadsTo m bytes f f
  | stub {a f offset} (jmp : m a = some 0xE9)
      (read : m.read (a + 1) 4 = some offset) (inside : span a 5 ⊆ bytes)
      (rest : LeadsTo m bytes (a + (leWord 32 offset).signExtend 64 + 5) f) :
      LeadsTo m bytes a f

theorem LeadsTo.congr {bytes : Set Ptr} {a f : Ptr} (h : LeadsTo m bytes a f)
    (hkept : ∀ x ∈ bytes, m' x = m x) : LeadsTo m' bytes a f := by
  induction h with
  | here mapped notJmp inside =>
      exact .here ((hkept _ inside).trans mapped) notJmp inside
  | @stub a f offset jmp read inside rest ih =>
      have ha : a ∈ span a 5 := by
        rw [mem_span, BitVec.sub_self]
        decide
      have hread : m'.read (a + 1) 4 = some offset := by
        rw [Memory.read_eq_some_iff] at read ⊢
        refine ⟨read.1, read.2.congr (by omega) fun x hx => ?_⟩
        rw [read.1] at hx
        exact hkept x (inside (span_offset_subset (i := 1) (by omega)
          (by decide) hx))
      exact .stub ((hkept a (inside ha)).trans jmp) hread inside ih

theorem LeadsTo.resolved {bytes : Set Ptr} {a b f : Ptr}
    (h : LeadsTo m bytes a f) (hresolve : resolveFuncPtr m a = .ok b) :
    LeadsTo m bytes b f := by
  unfold resolveFuncPtr at hresolve
  split at hresolve
  · rename_i hnull
    cases hresolve
    rw [← hnull]
    exact h
  · cases h with
    | here mapped notJmp inside =>
        rw [readByte_eq_ok.mpr mapped, ok_bind, if_neg notJmp] at hresolve
        cases hresolve
        exact .here mapped notJmp inside
    | stub jmp read inside rest =>
        rw [readByte_eq_ok.mpr jmp, ok_bind, if_pos rfl] at hresolve
        obtain ⟨offset, hoffset, hok⟩ := bind_eq_ok.mp hresolve
        rw [readBytes_eq_ok, ← Memory.read_eq_some_iff, read] at hoffset
        cases hoffset
        cases hok
        exact rest

/-! ## What a constructed hook is made of -/

theorem allocSearch_ne_zero {base dist : BitVec 64} {fuel iter : Nat}
    {page : Ptr} (h : allocSearch os base fuel dist iter m = .ok (page, m')) :
    page ≠ 0 :=
  (allocSearch_probe (D := fun _ => True) (fun _ _ _ _ _ => trivial) trivial h).1

theorem MemPage.new_memory_ne_zero {nearAddr : Ptr} {page : MemPage}
    (h : MemPage.new os m nearAddr = .ok (page, m')) : page.memory ≠ 0 := by
  obtain ⟨size, -, h⟩ := bind_eq_ok.mp h
  obtain ⟨⟨memory, m₁⟩, halloc, hok⟩ := bind_eq_ok.mp h
  obtain ⟨-, -, halloc⟩ := bind_eq_ok.mp halloc
  obtain ⟨-, -, halloc⟩ := bind_eq_ok.mp halloc
  cases hok
  exact allocSearch_ne_zero halloc

namespace Inner

variable {p p' : Process} {name : String} {target detour out : Ptr}
  {inner : Inner}

theorem fill_notAborted (hz : z.Lawful) {page : MemPage}
    (hpage : MemPage.new os m target = .ok (page, m')) (e : Err)
    (h : fill z os m' page name target detour out = .error e) : e ≠ .aborted :=
  have hnew := MemPage.new_eq_ok hpage
  (fill_fails hz os m' name target detour out hnew.1 hnew.2.2.1 hnew.2.1 e
    h).notAborted

theorem new_callOriginal_eq_zero (hz : z.Lawful)
    (h : new z os p name target detour out = (.ok inner, p')) :
    inner.codeCallOriginal = 0 ↔ inner.targetFunc = 0 := by
  unfold new at h
  split at h
  · cases h
  · split at h
    · cases h
      simp [withoutTarget]
    · rename_i htarget
      split at h
      · cases h
      · rename_i page m₁ hpage
        obtain ⟨hoffset, hmax, hsize, -⟩ := MemPage.new_eq_ok hpage
        split at h
        · cases h
        · rename_i built m₂ hfill
          cases h
          obtain ⟨hfilled, -, hkept, -⟩ :=
            fill_eq_ok hz hoffset hsize hmax hfill
          rw [hkept, hfilled.callOriginal]
          exact iff_of_false (MemPage.new_memory_ne_zero hpage) htarget

structure Built (p : Process) (name : String) (target detour out : Ptr)
    (inner : Inner) (p' : Process) : Prop where
  notInstalled : inner.isInstalled = false
  named : inner.name = name
  targetFunc : resolveFuncPtr p.mem target = .ok inner.targetFunc
  detourFunc : resolveFuncPtr p.mem detour = .ok inner.detourFunc
  outputOriginalFunc : inner.outputOriginalFunc = out
  outs : p'.outs = Function.update p.outs out inner.codeCallOriginal

theorem NewOutcome.built
    (h : NewOutcome z os p name target detour out (.ok inner, p')) :
    Built p name target detour out inner p' := by
  have hnot := h.notInstalled
  cases h with
  | noTarget d resolved =>
      obtain ⟨ht, hd⟩ := resolveArgs_eq_ok resolved
      exact ⟨hnot, rfl, ht, hd, rfl, rfl⟩
  | constructed inner page m₁ m₂ resolved nonnull fresh filled named output =>
      obtain ⟨ht, hd⟩ := resolveArgs_eq_ok resolved
      exact ⟨hnot, named, ht, hd, output, rfl⟩

/-! ## Exceptions with a mapped code page -/

def relocateHead (z : Zydis) (data : Ptr) (m : Mem) (target dest : Ptr) :
    Res (List Byte) := do
  let patchLength ← decodePatchLength z m target (Encoder.relJmpSize + 1) 0
  let patchedOriginalBytes ← readBytes m target patchLength
  relocateCode z data patchedOriginalBytes target dest

theorem fill_error_iff (hz : z.Lawful) {page : MemPage}
    (hpage : MemPage.new os m target = .ok (page, m')) (e : Err) :
    fill z os m' page name target detour out = .error e ↔
      relocateHead z os.buffer m' target page.memory = .error e := by
  obtain ⟨hoffset, hmax, hsize, -⟩ := MemPage.new_eq_ok hpage
  have hprot := MemPage.setMemProt_of_new hpage
  have hstart : page.nextWritePtr = page.memory := by
    simp [MemPage.nextWritePtr, hoffset]
  unfold fill relocateHead
  simp only [MemPage.makeWritable, MemPage.makeExecutable, hprot, ok_bind,
    hstart]
  cases hdecode : decodePatchLength z m' target (Encoder.relJmpSize + 1) 0 with
  | error e' => simp
  | ok n =>
      simp only [ok_bind]
      cases hread : readBytes m' target n with
      | error e' => simp
      | ok bytes =>
          simp only [ok_bind]
          cases hreloc : relocateCode z os.buffer bytes target page.memory with
          | error e' => simp
          | ok reloc =>
              have hbound := (decodePatchLength_bounds (by omega) hdecode).2
              have hbytes := (readBytes_eq_ok.mp hread).1
              have hlen := relocateCode_length hz hreloc
              obtain ⟨page', hwrite, -⟩ := writeCode_of_le m' reloc target detour
                hoffset (by omega) hmax
              rw [← hlen, ok_bind, hwrite]
              simp

theorem new_aborted_iff (hz : z.Lawful) :
    (new z os p name target detour out).1 = .error .aborted ↔
      ∃ t d page m, resolveArgs p.mem name target detour out = .ok (t, d) ∧
        t ≠ 0 ∧ MemPage.new os p.mem t = .ok (page, m) ∧
        Throws (relocateHead z os.buffer m t page.memory) ∧
        os.freed page.memory = none := by
  unfold new
  cases hargs : resolveArgs p.mem name target detour out with
  | error e =>
      have hne := (resolveArgs_fails name target detour out e hargs).notAborted
      simpa using hne
  | ok resolved =>
      obtain ⟨t, d⟩ := resolved
      dsimp only
      split
      · rename_i hnull
        simp [hnull]
      · rename_i hnonnull
        cases hpage : MemPage.new os p.mem t with
        | error e =>
            have hne := (MemPage.new_fails t e hpage).notAborted
            simp [hpage, hne]
        | ok allocated =>
            obtain ⟨page, m⟩ := allocated
            have hhead : ∀ e, fill z os m page name t d out = .error e ↔
                relocateHead z os.buffer m t page.memory = .error e :=
              fill_error_iff hz hpage
            have hprot := MemPage.setMemProt_of_new hpage
            have hunwind : ∀ e, fill z os m page name t d out = .error e →
                ((page.unwind os m e).1 = .aborted ↔
                  (∃ what, e = .thrown what) ∧ os.freed page.memory = none) :=
              fun e hfill => MemPage.unwind_aborted_iff hprot
                (fill_notAborted hz hpage e hfill)
            dsimp only
            cases hfill : fill z os m page name t d out with
            | error e =>
                have hrelocate := (hhead e).mp hfill
                simpa [hpage, hunwind e hfill, Throws, hrelocate] using
                  fun _ _ _ => hnonnull
            | ok filled =>
                have hne : ∀ e, relocateHead z os.buffer m t page.memory ≠
                    .error e := by
                  intro e herror
                  cases hfill.symm.trans ((hhead e).mpr herror)
                simp [hpage, Throws, hne]

/-! ## Installing after a failed retarget -/

/-- Installing in either memory ends in the same way and does the same to the
bytes that are mapped in the first. -/
def InstallsAlike (inner : Inner) (m m' : Mem) : Prop :=
  ∀ os, (inner.install os m').1 = (inner.install os m).1 ∧
    (inner.install os m').2.1 = (inner.install os m).2.1 ∧
    ∀ x, m x ≠ none → (inner.install os m').2.2 x = (inner.install os m).2.2 x

theorem installsAlike_of_stored (hkept : ∀ x, m x ≠ none → m' x = m x)
    (hstored : ∀ (os : Os) bytes, inner.prepareInstall = .ok bytes →
      os.selfMem.stored m' inner.targetFunc bytes.length =
        os.selfMem.stored m inner.targetFunc bytes.length) :
    inner.InstallsAlike m m' := by
  intro os
  unfold install overwrite
  cases hprepared : inner.prepareInstall with
  | error e => exact ⟨rfl, rfl, hkept⟩
  | ok bytes =>
      have hmem := overwriteExecutableMem_mem os m bytes inner.targetFunc
      have hmem' := overwriteExecutableMem_mem os m' bytes inner.targetFunc
      have hsame := hstored os bytes hprepared
      rw [hsame] at hmem'
      have hres : (overwriteExecutableMem os m' bytes inner.targetFunc).1 =
          (overwriteExecutableMem os m bytes inner.targetFunc).1 := by
        unfold overwriteExecutableMem
        rw [hsame]
        cases os.selfMem <;> rfl
      dsimp only
      generalize overwriteExecutableMem os m bytes inner.targetFunc = written
        at hmem hres ⊢
      generalize overwriteExecutableMem os m' bytes inner.targetFunc = written'
        at hmem' hres ⊢
      obtain ⟨r, m₁⟩ := written
      obtain ⟨r', m₁'⟩ := written'
      dsimp only at hmem hmem' hres
      subst hmem hmem' hres
      have hwrite : ∀ x, m x ≠ none →
          m'.write inner.targetFunc (bytes.take
            (os.selfMem.stored m inner.targetFunc bytes.length)) x =
          m.write inner.targetFunc (bytes.take
            (os.selfMem.stored m inner.targetFunc bytes.length)) x :=
        fun x hx => Memory.write_congr fun _ => hkept x hx
      cases r' with
      | error e => exact ⟨rfl, rfl, hwrite⟩
      | ok u => exact ⟨rfl, rfl, hwrite⟩

theorem installsAlike_of_mapped (hlt : inner.patchedOriginalBytes.length < 20)
    (hkept : ∀ x, m x ≠ none → m' x = m x)
    (hmapped : ∀ x ∈ inner.range, m x ≠ none) : inner.InstallsAlike m m' := by
  refine installsAlike_of_stored hkept ?_
  intro os bytes hready
  obtain ⟨-, -, hge, -, rfl⟩ := prepareInstall_eq_ok hready
  have hlen := length_patch hge
  refine os.selfMem.stored_congr (by omega) fun x hx => ?_
  rw [hlen] at hx
  exact hkept x (hmapped x hx)

end Inner

namespace World

variable {w w' : World} {i : Nat} {inner : Inner} {t : Ptr}

/-! ## One retarget -/

/-- A retarget that throws leaves the hooks, the output pointers and all mapped
bytes as they were, so that the old target can still be installed. -/
structure Kept (os : Os) (w : World) (inner : Inner) (w' : World) : Prop where
  insts : w'.insts = w.insts
  outs : w'.process.outs = w.process.outs
  mem : ∀ x, w.process.mem x ≠ none → w'.process.mem x = w.process.mem x
  install : ((∀ x ∈ inner.range, w.process.mem x ≠ none) ∨
      ∀ page bytes, os.freed page = some bytes → ∀ x, bytes x = none) →
    inner.InstallsAlike w.process.mem w'.process.mem

/-- A retarget that returns has replaced the hook by one of the same name, and
has published how to call the original, which is null without a target. -/
structure Retargeted (i : Nat) (t : Ptr) (w : World) (inner newInner : Inner)
    (w' : World) : Prop where
  insts : w'.insts = w.insts.set i newInner
  notInstalled : newInner.isInstalled = false
  named : newInner.name = inner.name
  targetFunc : resolveFuncPtr w.process.mem t = .ok newInner.targetFunc
  detourFunc : resolveFuncPtr w.process.mem inner.detourFunc =
    .ok newInner.detourFunc
  outs : w'.process.outs = Function.update w.process.outs
    inner.outputOriginalFunc newInner.codeCallOriginal
  callOriginal : newInner.codeCallOriginal = 0 ↔ newInner.targetFunc = 0

structure StrongGuarantee (z : Zydis) (os : Os) (w : World) (i : Nat)
    (inner : Inner) (t : Ptr) : Prop where
  /-- An exception reaches the caller. -/
  delivered : ∀ w',
    perform z os w (.changeTargetFunc i t) ≠ some (.error .aborted, w')
  kept : ∀ what w', perform z os w (.changeTargetFunc i t) =
    some (.error (.thrown what), w') → Kept os w inner w'
  retargeted : ∀ w', perform z os w (.changeTargetFunc i t) =
    some (.ok (), w') → ∃ newInner, Retargeted i t w inner newInner w'

/-- Once a code page is mapped, nothing throws, or the page can be released. -/
def UnwindsPage (z : Zydis) (os : Os) (w : World) (inner : Inner) (t : Ptr) :
    Prop :=
  ∀ target detour page m,
    Inner.resolveArgs w.process.mem inner.name t inner.detourFunc
      inner.outputOriginalFunc = .ok (target, detour) →
    target ≠ 0 → MemPage.new os w.process.mem target = .ok (page, m) →
    Throws (Inner.relocateHead z os.buffer m target page.memory) →
    os.freed page.memory ≠ none

theorem destroy_fresh {page : MemPage} {m₁ : Mem}
    (fresh : FreshPage m page.size page.memory m')
    (hfreed : ∀ page bytes, os.freed page = some bytes → ∀ x, bytes x = none)
    (h : page.destroy os m' = .ok m₁) : m₁ = m := by
  obtain ⟨-, bytes, hbytes, rfl⟩ := MemPage.destroy_eq_ok.mp h
  funext x
  by_cases hx : x ∈ span page.memory page.size
  · rw [fresh.unmapped x hx]
    simp [Memory.replace, hx, hfreed page.memory bytes hbytes]
  · exact (Memory.replace_of_not_mem hx).trans (fresh.mem_outside hx)

theorem changeTargetFunc_thrown (hz : z.Lawful) {what : String}
    (hwf : inner.patchedOriginalBytes.length < 20)
    (h : changeTargetFunc z os w i inner t = (.error (.thrown what), w')) :
    Kept os w inner w' := by
  unfold changeTargetFunc at h
  split at h
  · cases h
    exact ⟨rfl, rfl, fun _ _ => rfl, fun _ _ => ⟨rfl, rfl, fun _ _ => rfl⟩⟩
  · have houtcome := Inner.new_outcome hz os w.process inner.name t
      inner.detourFunc inner.outputOriginalFunc
    generalize Inner.new z os w.process inner.name t inner.detourFunc
      inner.outputOriginalFunc = result at houtcome h
    obtain ⟨res, p'⟩ := result
    cases res with
    | ok newInner =>
        dsimp only at h
        split at h
        · rename_i e hdestroy
          cases h
          cases Inner.destroy_error hdestroy
        · cases h
    | error e' =>
        cases h
        have hmem : ∀ x, w.process.mem x ≠ none →
            p'.mem x = w.process.mem x := fun x hx => houtcome.mem_eq (.inl hx)
        cases houtcome with
        | rejected e =>
            exact ⟨rfl, rfl, hmem, fun _ _ => ⟨rfl, rfl, fun _ _ => rfl⟩⟩
        | unwound e e' page m₁ m₂ fresh unwinds =>
            refine ⟨rfl, rfl, hmem, ?_⟩
            rintro (hmapped | hfreed)
            · exact Inner.installsAlike_of_mapped hwf hmem hmapped
            · have hdestroy := (MemPage.unwind_thrown unwinds).2
              dsimp only
              rw [destroy_fresh fresh hfreed hdestroy]
              exact fun _ => ⟨rfl, rfl, fun _ _ => rfl⟩

theorem changeTargetFunc_ok (hz : z.Lawful)
    (h : changeTargetFunc z os w i inner t = (.ok (), w')) :
    ∃ newInner, Retargeted i t w inner newInner w' := by
  unfold changeTargetFunc at h
  split at h
  · cases h
  · have houtcome := Inner.new_outcome hz os w.process inner.name t
      inner.detourFunc inner.outputOriginalFunc
    split at h
    · cases h
    · rename_i newInner p' hnew
      rw [hnew] at houtcome
      have hbuilt := houtcome.built
      split at h
      · cases h
      · cases h
        exact ⟨newInner,
          { insts := rfl
            notInstalled := hbuilt.notInstalled
            named := hbuilt.named
            targetFunc := hbuilt.targetFunc
            detourFunc := hbuilt.detourFunc
            outs := hbuilt.outs
            callOriginal := Inner.new_callOriginal_eq_zero hz hnew }⟩

theorem changeTargetFunc_aborted_iff (hz : z.Lawful)
    (hnot : inner.isInstalled = false)
    (hrelease : ∀ m, ∃ m', inner.destroy os m = .ok m') :
    (changeTargetFunc z os w i inner t).1 = .error .aborted ↔
      ¬ UnwindsPage z os w inner t := by
  have hnew : (Inner.new z os w.process inner.name t inner.detourFunc
      inner.outputOriginalFunc).1 = .error .aborted ↔
      ¬ UnwindsPage z os w inner t := by
    rw [Inner.new_aborted_iff hz, UnwindsPage]
    push Not
    exact Iff.rfl
  rw [← hnew]
  unfold changeTargetFunc
  rw [if_neg (by simp [hnot])]
  generalize Inner.new z os w.process inner.name t inner.detourFunc
    inner.outputOriginalFunc = result
  obtain ⟨res, p'⟩ := result
  cases res with
  | error e => simp
  | ok newInner =>
      obtain ⟨m', hdestroy⟩ := hrelease p'.mem
      simp [hdestroy]

theorem strongGuarantee_iff (hz : z.Lawful)
    (hget : w.insts[i]? = some inner)
    (hwf : inner.patchedOriginalBytes.length < 20)
    (hnot : inner.isInstalled = false)
    (hrelease : ∀ m, ∃ m', inner.destroy os m = .ok m') :
    StrongGuarantee z os w i inner t ↔ UnwindsPage z os w inner t := by
  have hperform : perform z os w (.changeTargetFunc i t) =
      some (changeTargetFunc z os w i inner t) := by
    simp [perform, hget]
  have haborted : (changeTargetFunc z os w i inner t).1 = .error .aborted ↔
      ¬ UnwindsPage z os w inner t :=
    changeTargetFunc_aborted_iff hz hnot hrelease
  constructor
  · intro hstrong
    by_contra hlost
    refine hstrong.delivered (changeTargetFunc z os w i inner t).2 ?_
    rw [hperform, ← haborted.mpr hlost]
  · intro hunwinds
    refine ⟨?_, ?_, ?_⟩
    · intro w' h
      rw [hperform, Option.some.injEq] at h
      exact haborted.mp (congrArg Prod.fst h) hunwinds
    · intro what w' h
      rw [hperform, Option.some.injEq] at h
      exact changeTargetFunc_thrown hz hwf h
    · intro w' h
      rw [hperform, Option.some.injEq] at h
      exact changeTargetFunc_ok hz h

/-! ## Any number of retargets -/

def StepKeeping (z : Zydis) (bytes : Set Ptr) (w w' : World) : Prop :=
  ∃ call, next z w call = some w' ∧
    ∀ x ∈ bytes, w'.process.mem x = w.process.mem x

structure SameDetour (bytes : Set Ptr) (f : Ptr) (m : Mem)
    (inner inner' : Inner) : Prop where
  named : inner'.name = inner.name
  output : inner'.outputOriginalFunc = inner.outputOriginalFunc
  leads : LeadsTo m bytes inner'.detourFunc f

theorem effect_sameDetour {op : Op} {r : Res Unit}
    (h : Effect z os w op r w') (hget : w.insts[i]? = some inner)
    {bytes : Set Ptr} {f : Ptr}
    (hleads : LeadsTo w.process.mem bytes inner.detourFunc f) :
    ∃ inner', w'.insts[i]? = some inner' ∧
      SameDetour bytes f w.process.mem inner inner' := by
  have hlt := (List.getElem?_eq_some_iff.mp hget).1
  cases h with
  | refused op e => exact ⟨inner, hget, rfl, rfl, hleads⟩
  | dropped op e name t d out r p' built => exact ⟨inner, hget, rfl, rfl, hleads⟩
  | created name t d out newInner p' built distinct =>
      exact ⟨inner, List.getElem?_append_left hlt ▸ hget, rfl, rfl, hleads⟩
  | changed j t other newInner p' m' present notInstalled built destroyed =>
      have hbuilt := built.built
      by_cases hij : j = i
      · subst hij
        cases hget.symm.trans present
        exact ⟨newInner, List.getElem?_set_self hlt, hbuilt.named,
          hbuilt.outputOriginalFunc, hleads.resolved hbuilt.detourFunc⟩
      · exact ⟨inner, (List.getElem?_set_ne hij).trans hget, rfl, rfl, hleads⟩
  | wrote op j other other' prepared flag r m' present writes outcome =>
      by_cases hij : j = i
      · subst hij
        cases hget.symm.trans present
        refine ⟨other', List.getElem?_set_self hlt, ?_⟩
        cases outcome with
        | rejected e refused => exact ⟨rfl, rfl, hleads⟩
        | failed e bytes ready short => exact ⟨rfl, rfl, hleads⟩
        | done bytes ready whole => exact ⟨rfl, rfl, hleads⟩
      · exact ⟨inner, (List.getElem?_set_ne hij).trans hget, rfl, rfl, hleads⟩

theorem run_sameDetour (hz : z.Lawful) {bytes : Set Ptr} {f : Ptr}
    (hrun : Relation.ReflTransGen (StepKeeping z bytes) w w')
    (hget : w.insts[i]? = some inner)
    (hleads : LeadsTo w.process.mem bytes inner.detourFunc f) :
    ∃ inner', w'.insts[i]? = some inner' ∧
      SameDetour bytes f w'.process.mem inner inner' := by
  induction hrun with
  | refl => exact ⟨inner, hget, rfl, rfl, hleads⟩
  | tail _ hstep ih =>
      obtain ⟨inner₁, hget₁, hsame₁⟩ := ih
      obtain ⟨⟨op, os⟩, hnext, hkept⟩ := hstep
      obtain ⟨r, -, heffect⟩ := next_effect hz hnext
      obtain ⟨inner₂, hget₂, hsame₂⟩ :=
        effect_sameDetour heffect hget₁ hsame₁.leads
      exact ⟨inner₂, hget₂, hsame₂.named.trans hsame₁.named,
        hsame₂.output.trans hsame₁.output, hsame₂.leads.congr hkept⟩

/-- A retarget of a hook that is not installed gives the strong guarantee
exactly if no exception finds a page mapped that cannot be released.  After any
number of retargets, among other operations, the detour pointer still leads to
the detour. -/
theorem change_target_func_strong_iff (hz : z.Lawful) {m₀ : Mem}
    (h : (hookSystem z m₀).Reachable w) (hget : w.insts[i]? = some inner) :
    (∀ os t, inner.isInstalled = false →
      (∀ m, ∃ m', inner.destroy os m = .ok m') →
      (StrongGuarantee z os w i inner t ↔ UnwindsPage z os w inner t)) ∧
    (∀ bytes f w', Relation.ReflTransGen (StepKeeping z bytes) w w' →
      LeadsTo w.process.mem bytes inner.detourFunc f →
        ∃ inner', w'.insts[i]? = some inner' ∧
          SameDetour bytes f w'.process.mem inner inner') := by
  have hlt := (reachable_wellFormed hz h inner
    (List.mem_of_getElem? hget)).length_lt
  constructor
  · intro os t hnot hrelease
    exact strongGuarantee_iff hz hget hlt hnot hrelease
  · intro bytes f w' hrun hleads
    exact run_sameDetour hz hrun hget hleads

/-- Functions of five NOPs at `0x1000` and `0x1800`, and at `0x1900` a byte that
is no instruction. -/
def threeFunctions : Mem :=
  (nopProcess.mem.write 0x1800 [0x90, 0x90, 0x90, 0x90, 0x90]).write 0x1900 [0x06]

def keepingOs : Os :=
  { smallOs with freed := fun _ => none }

def firstHooked : Option World :=
  next (tableZydis smallTable) (start threeFunctions nopProcess.outs)
    (.create "nop" 0x1000 0x2000 0x3000, smallOs)

theorem firstHooked_eq : ∃ w, firstHooked = some w ∧
    w.insts[0]? = some Inner.nopInner ∧
    (hookSystem (tableZydis smallTable) threeFunctions).Reachable w := by
  have hrun : (firstHooked.bind fun w => w.insts[0]?) = some Inner.nopInner := by
    decide +kernel
  obtain ⟨w, hnext, hget⟩ := Option.bind_eq_some_iff.mp hrun
  exact ⟨w, hnext, hget, .step (.init ⟨nopProcess.outs, rfl⟩) hnext trivial⟩

def retargetFirst (t : Ptr) : Option (Res Unit × World) :=
  firstHooked.bind fun w =>
    perform (tableZydis smallTable) smallOs w (.changeTargetFunc 0 t)

theorem destroy_smallOs (m : Mem) :
    ∃ m', Inner.nopInner.destroy smallOs m = .ok m' := by
  have hprot : setMemProt smallOs = .ok () := by decide
  unfold Inner.destroy
  split
  · exact ⟨_, MemPage.destroy_eq_ok.mpr ⟨hprot, _, rfl, rfl⟩⟩
  · exact ⟨m, rfl⟩

theorem change_target_func_strong_nop :
    ∃ w w₁ w₂ newInner what, w.insts[0]? = some Inner.nopInner ∧
      perform (tableZydis smallTable) smallOs w (.changeTargetFunc 0 0x1800) =
        some (.ok (), w₁) ∧
      Retargeted 0 0x1800 w Inner.nopInner newInner w₁ ∧
      SameDetour {0x2000} 0x2000 w₁.process.mem Inner.nopInner newInner ∧
      perform (tableZydis smallTable) smallOs w (.changeTargetFunc 0 0x1900) =
        some (.error (.thrown what), w₂) ∧
      Kept smallOs w Inner.nopInner w₂ := by
  have hreturns : ((retargetFirst 0x1800).map fun result =>
      (result.1.isOk, result.2.process.mem 0x2000)) = some (true, some 0x90) := by
    decide +kernel
  have hthrows : (retargetFirst 0x1900).map Prod.fst =
      some (.error (.thrown "Failed to decode instruction at 0x1900")) := by
    decide +kernel
  have hbyte : (firstHooked.map fun w => w.process.mem 0x2000) =
      some (some 0x90) := by
    decide +kernel
  obtain ⟨w, hnext, hget, hreach⟩ := firstHooked_eq
  simp only [retargetFirst, hnext, Option.bind_some, Option.map_some,
    Option.some.injEq] at hreturns hthrows hbyte
  obtain ⟨⟨r₁, w₁⟩, hperform₁, hfacts⟩ := Option.map_eq_some_iff.mp hreturns
  obtain ⟨hok, hbyte₁⟩ := Prod.mk.inj hfacts
  obtain rfl := eq_ok_of_isOk hok
  obtain ⟨⟨r₂, w₂⟩, hperform₂, rfl⟩ := Option.map_eq_some_iff.mp hthrows
  have hresult := change_target_func_strong_iff (tableZydis_lawful smallTable)
    hreach hget
  have hstrong : ∀ t, StrongGuarantee (tableZydis smallTable) smallOs w 0
      Inner.nopInner t := fun t =>
    (hresult.1 smallOs t rfl destroy_smallOs).mpr
      fun _ _ _ _ _ _ _ _ => Option.some_ne_none _
  obtain ⟨newInner, hnew⟩ := (hstrong 0x1800).retargeted w₁ hperform₁
  refine ⟨w, w₁, w₂, newInner, _, hget, hperform₁, hnew, ?_, hperform₂,
    (hstrong 0x1900).kept _ w₂ hperform₂⟩
  have hstep : StepKeeping (tableZydis smallTable) {0x2000} w w₁ := by
    refine ⟨(.changeTargetFunc 0 0x1800, smallOs), ?_, ?_⟩
    · simp only [next, hperform₁]
      rfl
    · rintro x rfl
      exact hbyte₁.trans hbyte.symm
  obtain ⟨inner', hget', hsame⟩ := hresult.2 {0x2000} 0x2000 w₁ (.single hstep)
    (.here hbyte (by decide) rfl)
  have hlt := (List.getElem?_eq_some_iff.mp hget).1
  rw [hnew.insts, List.getElem?_set_self hlt, Option.some.injEq] at hget'
  exact hget' ▸ hsame

def untargeted : Option World :=
  next (tableZydis smallTable) (start threeFunctions nopProcess.outs)
    (.create "nop" 0 0x2000 0x3000, keepingOs)

/-- A hook without a target has no code page to give up, but the one mapped for
the new target, on the way of an exception, cannot be released. -/
theorem change_target_func_aborts :
    ∃ w inner, (hookSystem (tableZydis smallTable) threeFunctions).Reachable w ∧
      w.insts[0]? = some inner ∧ inner.isInstalled = false ∧
      (∀ m, inner.destroy keepingOs m = .ok m) ∧
      ¬ StrongGuarantee (tableZydis smallTable) keepingOs w 0 inner 0x1900 := by
  have hrun : (untargeted.bind fun w =>
      (w.insts[0]?.map fun inner => (inner.isInstalled, inner.codePage))) =
      some (false, none) := by
    decide +kernel
  have haborts : (untargeted.bind fun w => perform (tableZydis smallTable)
      keepingOs w (.changeTargetFunc 0 0x1900)).map Prod.fst =
      some (.error .aborted) := by
    decide +kernel
  obtain ⟨w, hnext, hinst⟩ := Option.bind_eq_some_iff.mp hrun
  obtain ⟨inner, hget, hfacts⟩ := Option.map_eq_some_iff.mp hinst
  obtain ⟨hnot, hpage⟩ := Prod.mk.inj hfacts
  rw [hnext, Option.bind_some] at haborts
  obtain ⟨⟨r, w'⟩, hperform, rfl⟩ := Option.map_eq_some_iff.mp haborts
  refine ⟨w, inner, .step (.init ⟨nopProcess.outs, rfl⟩) hnext trivial, hget,
    hnot, fun m => ?_, fun hstrong => hstrong.delivered w' hperform⟩
  simp [Inner.destroy, hpage]

end World

end Ztour
