import Ztour.HookInst.Construction
import Ztour.TableDecoder

/-!
# Control flow through an installed hook

The target leads through the patch and the entrance trampoline to the detour.
The relocated head is followed by a jump back behind the patch.  The sizes of
the pieces are such that no write to the code page can be refused.
-/

namespace Ztour

open Ztour.Foundation

/-! ## The page has room for every head -/

def NotPageBounds (e : Err) : Prop :=
  ∀ num, e ≠ .thrown (MemPage.outOfBoundsText num)

/-- Up to its last write, only the release of a page can end the process, and no
write is refused. -/
structure StepError (e : Err) : Prop where
  notAborted : e ≠ .aborted
  notPageBounds : NotPageBounds e

theorem StepError.fault (address : Ptr) : StepError (.fault address) :=
  ⟨by simp, fun _ => by simp⟩

theorem StepError.outOfFuel : StepError .outOfFuel :=
  ⟨by simp, fun _ => by simp⟩

theorem head_outOfBoundsText (num : Nat) :
    (MemPage.outOfBoundsText num).toList.head? = some 'T' := by
  unfold MemPage.outOfBoundsText
  simp only [String.toList_append, String.append_assoc]
  simp

theorem StepError.of_head {what : String} {c : Char}
    (h : what.toList.head? = some c) (hc : c ≠ 'T') :
    StepError (.thrown what) := by
  refine ⟨by simp, fun num heq => ?_⟩
  have hhead := head_outOfBoundsText num
  rw [← Err.thrown.inj heq, h] at hhead
  exact hc (Option.some.inj hhead)

section Errors

variable {z : Zydis} {os : Os} {m : Mem}

theorem ztAssert_fails (cond : Bool) (text : String) :
    FailsWith StepError (ztAssert cond text) := by
  cases cond with
  | true => exact .ok ()
  | false =>
      exact .error (StepError.of_head (c := 'A')
        (by simp [String.toList_append]) (by decide))

theorem readByte_fails (ptr : Ptr) :
    FailsWith StepError (readByte m ptr) := by
  unfold readByte
  split
  · exact .ok _
  · exact .error (.fault _)

theorem readBytes_fails (ptr : Ptr) (size : Nat) :
    FailsWith StepError (readBytes m ptr size) := by
  unfold readBytes
  split
  · exact .ok _
  · exact .error (.fault _)

theorem resolveFuncPtr_fails (ptr : Ptr) :
    FailsWith StepError (resolveFuncPtr m ptr) := by
  unfold resolveFuncPtr
  split
  · exact .ok _
  · refine (readByte_fails ptr).bind fun opcode _ => ?_
    split
    · exact (readBytes_fails _ _).bind fun _ _ => .ok _
    · exact .ok _

theorem pageSize_fails : FailsWith StepError (pageSize os) := by
  unfold pageSize
  split
  · exact .error (StepError.of_head (c := 'P')
      (by simp [String.toList_append]) (by decide))
  · split
    · exact .error (StepError.of_head (c := 'P')
        (by simp [String.toList_append]) (by decide))
    · exact .ok _

theorem probe_fails (base dist : BitVec 64) (isAbove : Bool) :
    FailsWith StepError (probe os base dist isAbove m) := by
  unfold probe
  split
  · exact .ok _
  · refine pageSize_fails.bind fun size _ => ?_
    split
    · exact .ok _
    · exact .ok _

theorem allocSearch_fails (base : BitVec 64) (fuel : Nat) (dist : BitVec 64)
    (iter : Nat) :
    FailsWith StepError (allocSearch os base fuel dist iter m) := by
  induction fuel generalizing dist iter m with
  | zero => exact .error .outOfFuel
  | succ fuel ih =>
      unfold allocSearch
      split
      · exact .error (StepError.of_head (c := 'F')
          (by simp [String.toList_append]) (by decide))
      · refine (probe_fails base dist false).bind fun below _ => ?_
        obtain ⟨below, m₁⟩ := below
        dsimp only
        split
        · exact .ok _
        · refine (probe_fails base dist true).bind fun above _ => ?_
          obtain ⟨above, m₂⟩ := above
          dsimp only
          split
          · exact .ok _
          · refine FailsWith.bind ?_ fun step _ => ih _ _
            exact (ztAssert_fails _ _).bind fun _ _ => .ok _

theorem MemPage.new_fails (nearAddr : Ptr) :
    FailsWith StepError (MemPage.new os m nearAddr) := by
  refine pageSize_fails.bind fun size _ => FailsWith.bind ?_ fun _ _ => .ok _
  refine (ztAssert_fails _ _).bind fun _ _ => ?_
  exact pageSize_fails.bind fun _ _ => allocSearch_fails _ _ _ _

theorem failedDecodeText_fails {α : Type} (ptr : Ptr) :
    FailsWith StepError
      (.error (.thrown (failedDecodeText ptr)) : Res α) := by
  have hhead : (failedDecodeText ptr).toList.head? = some 'F' := by
    unfold failedDecodeText
    rw [String.toList_append]
    rfl
  exact .error (StepError.of_head hhead (by decide))

theorem decodeAt_fails (ptr : Ptr) (maxLen : Nat) :
    FailsWith StepError (decodeAt z m ptr maxLen) := by
  unfold decodeAt
  dsimp only
  split
  · exact .ok _
  · split
    · exact .error (.fault _)
    · exact failedDecodeText_fails ptr

theorem decodePatchLength_fails (target : Ptr) (fuel start : Nat) :
    FailsWith StepError
      (Inner.decodePatchLength z m target fuel start) := by
  induction fuel generalizing start with
  | zero => exact .error .outOfFuel
  | succ fuel ih =>
      unfold Inner.decodePatchLength
      split
      · refine FailsWith.bind ?_ fun length _ => ih _
        refine FailsWith.bind ?_ fun ins _ => .ok _
        exact decodeAt_fails _ _
      · exact .ok _

theorem ensureDisplacementRelocBounds_fails (width : Nat) (disp : BitVec 64) :
    FailsWith StepError (ensureDisplacementRelocBounds width disp) := by
  unfold ensureDisplacementRelocBounds
  split
  · exact .ok ()
  · exact .error (StepError.of_head (c := 'R')
      (by simp [String.toList_append]) (by decide))

theorem relocateImm_fails (field : RawField) (newDisp : BitVec 64)
    (bytes : List Byte) :
    FailsWith StepError (relocateImm field newDisp bytes) := by
  have hdefault : ∀ bytes,
      FailsWith StepError (relocateImmDefault field bytes) := fun _ =>
    .error (StepError.of_head (c := 'E')
      (by simp [String.toList_append]) (by decide))
  have h8 : ∀ bytes, FailsWith StepError
      (relocateImm8 field newDisp bytes) := fun _ =>
    (ensureDisplacementRelocBounds_fails _ _).bind fun _ _ => hdefault _
  have h16 : ∀ bytes, FailsWith StepError
      (relocateImm16 field newDisp bytes) := fun _ =>
    (ensureDisplacementRelocBounds_fails _ _).bind fun _ _ => h8 _
  have h32 : FailsWith StepError (relocateImm32 field newDisp bytes) :=
    (ensureDisplacementRelocBounds_fails _ _).bind fun _ _ => h16 _
  unfold relocateImm
  split
  · exact h32
  · split
    · exact h16 _
    · split
      · exact h8 _
      · exact hdefault _

theorem relocateDisp_fails (field : RawField) (newDisp : BitVec 64)
    (bytes : List Byte) :
    FailsWith StepError (relocateDisp field newDisp bytes) := by
  unfold relocateDisp
  split
  · exact .error (StepError.of_head (c := 'E')
      (by simp [String.toList_append]) (by decide))
  · exact (ensureDisplacementRelocBounds_fails _ _).bind fun _ _ => .ok _

theorem relocateOperand_fails (ins : ZydisDecodedInstruction)
    (source dest : Ptr) (bytes : List Byte) (op : ZydisDecodedOperand) :
    FailsWith StepError (relocateOperand z ins source dest bytes op) := by
  unfold relocateOperand
  dsimp only
  split
  · exact relocateDisp_fails _ _ _
  · split
    · exact .ok _
    · exact relocateImm_fails _ _ _
  · exact .ok _

theorem relocateLoop_fails (data source dest : Ptr) (fuel offset : Nat)
    (code : List Byte) :
    FailsWith StepError
      (relocateLoop z data source dest fuel offset code) := by
  induction fuel generalizing offset code with
  | zero =>
      cases code with
      | nil => exact .ok _
      | cons byte bytes => exact .error .outOfFuel
  | succ fuel ih =>
      cases code with
      | nil => exact .ok _
      | cons byte bytes =>
          unfold relocateLoop
          refine FailsWith.bind ?_ fun ins _ => ?_
          · unfold disassembleInstruction
            split
            · exact .ok _
            · exact failedDecodeText_fails _
          · refine FailsWith.bind ?_ fun insBytes _ => ?_
            · exact FailsWith.foldlM fun op bytes =>
                relocateOperand_fails ins _ _ bytes op
            · exact (ih _ _).bind fun _ _ => .ok _

theorem relocateCode_fails (data source dest : Ptr) (code : List Byte) :
    FailsWith StepError (relocateCode z data code source dest) := by
  refine (ztAssert_fails _ _).bind fun _ _ => ?_
  split
  · exact .ok _
  · exact relocateLoop_fails _ _ _ _ _ _

namespace Inner

theorem fill_fails (hz : z.Lawful) (os : Os) (m : Mem) {page : MemPage}
    (name : String) (target detour out : Ptr) (hoffset : page.writeOffset = 0)
    (hsize : 0x100 ≤ page.size) (hmax : page.size ≤ 2 ^ 64) :
    FailsWith StepError (fill z os m page name target detour out) := by
  have hprot : FailsWith StepError (setMemProt os) :=
    pageSize_fails.bind fun _ _ => .ok ()
  refine hprot.bind fun _ _ => ?_
  refine (decodePatchLength_fails _ _ _).bind fun n hn => ?_
  refine (readBytes_fails _ _).bind fun bytes hread => ?_
  refine (relocateCode_fails _ _ _ _).bind fun reloc hreloc => ?_
  have hbound := (decodePatchLength_bounds (by omega) hn).2
  have hbytes := (readBytes_eq_ok.mp hread).1
  have hlen := relocateCode_length hz hreloc
  obtain ⟨page', hwrite, -⟩ := writeCode_of_le m reloc target detour hoffset
    (by omega) hmax
  rw [← hlen, hwrite, ok_bind]
  exact hprot.bind fun _ _ => .ok _

theorem resolveArgs_fails (name : String) (target detour out : Ptr) :
    FailsWith StepError (resolveArgs m name target detour out) := by
  refine FailsWith.bind ?_ fun _ _ => ?_
  · refine (ztAssert_fails _ _).bind fun _ _ => ?_
    exact (ztAssert_fails _ _).bind fun _ _ => ztAssert_fails _ _
  · refine (resolveFuncPtr_fails _).bind fun _ _ => ?_
    exact (resolveFuncPtr_fails _).bind fun _ _ => .ok _

/-- No construction ends because a write does not fit into the code page. -/
theorem new_fails (hz : z.Lawful) (p : Process) (name : String)
    (target detour out : Ptr) :
    FailsWith NotPageBounds (new z os p name target detour out).1 := by
  unfold new
  cases hres : resolveArgs p.mem name target detour out with
  | error e =>
      exact .error (resolveArgs_fails name target detour out e hres).notPageBounds
  | ok resolved =>
      obtain ⟨t, d⟩ := resolved
      dsimp only
      split
      · exact .ok _
      · cases hpage : MemPage.new os p.mem t with
        | error e => exact .error (MemPage.new_fails t e hpage).notPageBounds
        | ok allocated =>
            obtain ⟨page, m₁⟩ := allocated
            obtain ⟨hoffset, hmax, hsize, -⟩ := MemPage.new_eq_ok hpage
            have hfill := fill_fails hz os m₁ name t d out hoffset hsize hmax
            dsimp only
            cases hfilled : fill z os m₁ page name t d out with
            | error e =>
                have hstep := (hfill e hfilled).notPageBounds
                rcases MemPage.unwind_err page os m₁ e with heq | heq
                · exact .error (heq.symm ▸ hstep)
                · exact .error fun num => by simp [heq]
            | ok filled => exact .ok _

end Inner

end Errors

/-! ## The jumps of an installed hook -/

namespace Inner

/-- What construction and installation establish in the memory `m`. -/
structure Detoured (z : Zydis) (before after : Process) (out : Ptr)
    (inner : Inner) (page : MemPage) (m : Mem) : Prop where
  length_ge : 5 ≤ inner.patchedOriginalBytes.length
  length_le : inner.patchedOriginalBytes.length ≤ 19
  codePage : inner.codePage = some page
  size_ge : 0x100 ≤ page.size
  fresh : before.mem.Unmapped page.memory page.size
  callOriginal_inside : span inner.codeCallOriginal
    (inner.patchedOriginalBytes.length + 14) ⊆ page.range
  enterDetour_inside : span inner.codeEnterDetour 14 ⊆ page.range
  disjoint : Disjoint (span inner.codeCallOriginal
    (inner.patchedOriginalBytes.length + 14)) (span inner.codeEnterDetour 14)
  callOriginal : ∃ reloc,
    (∀ data, relocateCode z data inner.patchedOriginalBytes inner.targetFunc
      inner.codeCallOriginal = .ok reloc) ∧
    reloc.length = inner.patchedOriginalBytes.length ∧
    m.Holds inner.codeCallOriginal (reloc ++ absJumpBytes
      (inner.targetFunc +
        BitVec.ofNat 64 inner.patchedOriginalBytes.length))
  enterDetour : m.Holds inner.codeEnterDetour (absJumpBytes inner.detourFunc)
  entered : jumpTarget m inner.targetFunc = some inner.codeEnterDetour
  detoured : jumpTarget m inner.codeEnterDetour = some inner.detourFunc
  resumed : jumpTarget m (inner.codeCallOriginal +
      BitVec.ofNat 64 inner.patchedOriginalBytes.length) =
    some (inner.targetFunc +
      BitVec.ofNat 64 inner.patchedOriginalBytes.length)
  output : after.outs out = inner.codeCallOriginal
  frame : ∀ x, x ∉ page.range → x ∉ inner.range → m x = before.mem x

section Detoured

variable {z : Zydis} {m₀ m₁ m₂ : Mem} {memory : Ptr} {size : Nat} {inner : Inner}

theorem Filled.holds (h : Filled z m₁ memory size inner m₂) :
    ∃ reloc,
      (∀ data, relocateCode z data inner.patchedOriginalBytes inner.targetFunc
        memory = .ok reloc) ∧
      reloc.length = inner.patchedOriginalBytes.length ∧
      m₂.Holds memory (reloc ++ absJumpBytes
        (inner.targetFunc +
          BitVec.ofNat 64 inner.patchedOriginalBytes.length)) ∧
      m₂.Holds inner.codeEnterDetour (absJumpBytes inner.detourFunc) := by
  obtain ⟨reloc, hreloc, hlen, hmem⟩ := h.image
  have hbound := h.length_lt
  have himage : m₂.Holds memory
      (pageImage inner.targetFunc inner.detourFunc reloc) := by
    rw [hmem]
    exact Memory.holds_write (by rw [length_pageImage]; omega)
  unfold pageImage at himage
  obtain ⟨hcall, henter⟩ := Memory.holds_append.mp himage
  refine ⟨reloc, hreloc, hlen, hlen ▸ hcall, ?_⟩
  rw [List.length_append, length_absJumpBytes, hlen] at henter
  rw [h.enterDetour]
  exact henter

theorem disjoint_of_fresh {target : Ptr} {n : Nat}
    (hfresh : m₀.Unmapped memory size)
    (hmapped : ∀ x ∈ span target n, m₀ x ≠ none) :
    Disjoint (span memory size) (span target n) := by
  rw [Set.disjoint_left]
  intro x hpage hhead
  exact hmapped x hhead (hfresh x hpage)

theorem Filled.callOriginal_inside (h : Filled z m₁ memory size inner m₂) :
    span inner.codeCallOriginal (inner.patchedOriginalBytes.length + 14) ⊆
      span memory size := by
  have hlt := h.length_lt
  have hge := h.size_ge
  rw [h.callOriginal]
  exact span_mono (by omega)

theorem Filled.enterDetour_inside (h : Filled z m₁ memory size inner m₂) :
    span inner.codeEnterDetour 14 ⊆ span memory size := by
  have hlt := h.length_lt
  have hge := h.size_ge
  rw [h.enterDetour]
  exact span_offset_subset (by omega) h.size_le

theorem Filled.disjoint (h : Filled z m₁ memory size inner m₂) :
    Disjoint (span inner.codeCallOriginal
      (inner.patchedOriginalBytes.length + 14))
      (span inner.codeEnterDetour 14) := by
  have hlt := h.length_lt
  have hpieces := disjoint_span_offset (a := memory) (i := 0)
    (j := inner.patchedOriginalBytes.length + 14)
    (k := inner.patchedOriginalBytes.length + 14) (l := 14)
    (by omega) (by omega)
  rw [BitVec.add_zero] at hpieces
  rw [h.callOriginal, h.enterDetour]
  exact hpieces

theorem Filled.holds_patched (h : Filled z m₁ memory size inner m₂)
    (hdisj : Disjoint (span memory size) inner.range) :
    ∃ reloc,
      (∀ data, relocateCode z data inner.patchedOriginalBytes inner.targetFunc
        inner.codeCallOriginal = .ok reloc) ∧
      reloc.length = inner.patchedOriginalBytes.length ∧
      (m₂.write inner.targetFunc inner.patch).Holds inner.codeCallOriginal
        (reloc ++ absJumpBytes (inner.targetFunc +
          BitVec.ofNat 64 inner.patchedOriginalBytes.length)) ∧
      (m₂.write inner.targetFunc inner.patch).Holds inner.codeEnterDetour
        (absJumpBytes inner.detourFunc) := by
  obtain ⟨reloc, hreloc, hrelocLen, hcall, henter⟩ := h.holds
  rw [← h.callOriginal] at hreloc hcall
  have hlt := h.length_lt
  have hlen := length_patch h.length_ge
  refine ⟨reloc, hreloc, hrelocLen, ?_, ?_⟩
  · have hsum : (reloc ++ absJumpBytes (inner.targetFunc +
        BitVec.ofNat 64 inner.patchedOriginalBytes.length)).length =
        inner.patchedOriginalBytes.length + 14 := by
      rw [List.length_append, length_absJumpBytes, hrelocLen]
    refine hcall.write_disjoint (by omega) ?_
    rw [hsum, hlen]
    exact hdisj.mono_left h.callOriginal_inside
  · refine henter.write_disjoint (by simp) ?_
    rw [length_absJumpBytes, hlen]
    exact hdisj.mono_left h.enterDetour_inside

theorem jumpTarget_patch {m : Mem}
    (hfits : FitsSigned 32 (inner.codeEnterDetour - (inner.targetFunc + 5)))
    (h : m.Holds inner.targetFunc inner.patch) :
    jumpTarget m inner.targetFunc = some inner.codeEnterDetour :=
  jumpTarget_relJump hfits (Memory.holds_append.mp h).1

theorem install_eq_ok_iff {os : Os} {m m' : Mem} {inner' : Inner} :
    inner.install os m = (.ok (), inner', m') ↔
      inner.prepareInstall = .ok inner.patch ∧
        os.selfMem.stored m inner.targetFunc inner.patch.length =
          inner.patch.length ∧
        inner' = { inner with isInstalled := true } ∧
        m' = m.write inner.targetFunc inner.patch := by
  constructor
  · intro h
    have houtcome := overwrite_outcome inner os m inner.prepareInstall true
    unfold install at h
    rw [h] at houtcome
    cases houtcome with
    | done bytes ready whole =>
        obtain ⟨-, -, -, -, rfl⟩ := prepareInstall_eq_ok ready
        exact ⟨ready, whole, rfl, rfl⟩
  · rintro ⟨hready, hwhole, rfl, rfl⟩
    have hne : inner.patch ≠ [] := by simp [patch, relJumpBytes]
    unfold install overwrite
    rw [hready]
    dsimp only
    rw [overwriteExecutableMem_of_stored hne hwhole]

theorem install_eq_ok {os : Os} {m m' : Mem} {inner' : Inner}
    (h : inner.install os m = (.ok (), inner', m')) :
    inner.targetFunc ≠ 0 ∧
      FitsSigned 32 (inner.codeEnterDetour - (inner.targetFunc + 5)) ∧
      m' = m.write inner.targetFunc inner.patch := by
  obtain ⟨hready, -, -, hmem⟩ := install_eq_ok_iff.mp h
  obtain ⟨-, htarget, -, hfits, -⟩ := prepareInstall_eq_ok hready
  exact ⟨htarget, hfits, hmem⟩

theorem Filled.detoured {before after : Process} {out : Ptr} {page : MemPage}
    (h : Filled z m₁ memory size inner m₂)
    (hpage : inner.codePage = some page) (hmemory : page.memory = memory)
    (hsize : page.size = size) (hunmapped : before.mem.Unmapped memory size)
    (hframe : ∀ x, x ∉ span memory size → m₂ x = before.mem x)
    (hfits : FitsSigned 32 (inner.codeEnterDetour - (inner.targetFunc + 5)))
    (hmapped : ∀ x ∈ inner.range, before.mem x ≠ none)
    (hout : after.outs out = inner.codeCallOriginal) :
    Detoured z before after out inner page
      (m₂.write inner.targetFunc inner.patch) := by
  subst hmemory hsize
  have hlt := h.length_lt
  have hlen := length_patch h.length_ge
  have hpatch : (m₂.write inner.targetFunc inner.patch).Holds
      inner.targetFunc inner.patch :=
    Memory.holds_write (by rw [hlen]; omega)
  obtain ⟨reloc, hreloc, hrelocLen, hcall, henter⟩ :=
    h.holds_patched (disjoint_of_fresh hunmapped hmapped)
  have hresume := (Memory.holds_append.mp hcall).2
  rw [hrelocLen] at hresume
  exact
    { length_ge := h.length_ge
      length_le := by omega
      codePage := hpage
      size_ge := h.size_ge
      fresh := hunmapped
      callOriginal_inside := h.callOriginal_inside
      enterDetour_inside := h.enterDetour_inside
      disjoint := h.disjoint
      callOriginal := ⟨reloc, hreloc, hrelocLen, hcall⟩
      enterDetour := henter
      entered := jumpTarget_patch hfits hpatch
      detoured := jumpTarget_absJump henter
      resumed := jumpTarget_absJump hresume
      output := hout
      frame := by
        intro x hpagex hheadx
        rw [Memory.write_of_not_mem (hlen.symm ▸ hheadx)]
        exact hframe x hpagex }

end Detoured

/-- No construction is refused a write to its page.  After a construction and
an installation that return, on a function in existing memory, both paths lead
where they should. -/
theorem install_detoured {z : Zydis} (hz : z.Lawful) :
    (∀ os p name target detour out num,
      (new z os p name target detour out).1 ≠
        .error (.thrown (MemPage.outOfBoundsText num))) ∧
    ∀ os p name target detour out inner p' os' inner' m,
      new z os p name target detour out = (.ok inner, p') →
      inner.install os' p'.mem = (.ok (), inner', m) →
      (∀ x ∈ inner.range, p.mem x ≠ none) →
      resolveFuncPtr p.mem target = .ok inner.targetFunc ∧
        resolveFuncPtr p.mem detour = .ok inner.detourFunc ∧
        ∃ page, Detoured z p p' out inner page m := by
  constructor
  · intro os p name target detour out num herror
    exact new_fails hz p name target detour out _ herror num rfl
  · intro os p name target detour out inner p' os' inner' m hnew hinstall hmapped
    obtain ⟨htarget, hfits, rfl⟩ := install_eq_ok hinstall
    have houtcome := new_outcome hz os p name target detour out
    rw [hnew] at houtcome
    cases houtcome with
    | noTarget d resolved => exact absurd rfl htarget
    | constructed inner page m₁ m₂ resolved nonnull fresh filled named output =>
        obtain ⟨hresolved, hresolved'⟩ := resolveArgs_eq_ok resolved
        obtain ⟨page', hpage, hmemory, hsize⟩ := filled.page
        refine ⟨hresolved, hresolved', page', ?_⟩
        refine filled.detoured hpage hmemory hsize fresh.unmapped ?_ hfits
          hmapped (Process.setOut_outs _ _ _)
        intro x hx
        exact (filled.mem_outside hx).trans (fresh.mem_outside hx)

end Inner

/-! ## A function of five NOPs -/

/-- Every page is granted, and is unmapped when it is released. -/
def smallOs : Os where
  pageSize := 0x100
  mmap := fun exactAddr => exactAddr ≠ 0
  mmap_zero := rfl
  freed := fun _ => some fun _ => none
  selfMem := .stores 0x100
  buffer := 0

def nopProcess : Process where
  mem := Memory.write (Memory.write (fun _ => none) 0x1000
    [0x90, 0x90, 0x90, 0x90, 0x90]) 0x2000 [0x90]
  outs := fun _ => 0
  pages := []

namespace Inner

def nopInner : Inner where
  isInstalled := false
  name := "nop"
  targetFunc := 0x1000
  detourFunc := 0x2000
  patchedOriginalBytes := [0x90, 0x90, 0x90, 0x90, 0x90]
  codeEnterDetour := 0xF13
  codeCallOriginal := 0xF00
  outputOriginalFunc := 0x3000
  codePage := some ⟨0x100, 0xF00, 33, by decide⟩

def nopHooked : Process :=
  (new (tableZydis smallTable) smallOs nopProcess "nop" 0x1000 0x2000 0x3000).2

theorem new_nop : new (tableZydis smallTable) smallOs nopProcess "nop" 0x1000
    0x2000 0x3000 = (.ok nopInner, nopHooked) := by
  have hinner : (new (tableZydis smallTable) smallOs nopProcess "nop" 0x1000
      0x2000 0x3000).1 = .ok nopInner := by decide +kernel
  exact eq_mk_of_fst hinner

theorem nop_mapped : ∀ x ∈ nopInner.range, nopProcess.mem x ≠ none := by
  intro x hx
  apply Memory.write_mapped
  obtain ⟨i, hi, -, rfl⟩ := eq_offset_of_mem_span hx
  have hget := Memory.write_offset (m := fun _ => none)
    (a := nopInner.targetFunc) (by decide) hi
  exact ne_of_eq_of_ne hget (Option.some_ne_none _)

theorem install_detoured_nop :
    ∃ page, Detoured (tableZydis smallTable) nopProcess nopHooked 0x3000
      nopInner page (nopInner.install smallOs nopHooked.mem).2.2 := by
  have hok : (nopInner.install smallOs nopHooked.mem).1 = .ok () := by
    decide +kernel
  generalize hinstall : nopInner.install smallOs nopHooked.mem = installed
    at hok ⊢
  obtain ⟨res, inner', m⟩ := installed
  cases hok
  exact ((install_detoured (tableZydis_lawful smallTable)).2 smallOs nopProcess
    "nop" 0x1000 0x2000 0x3000 nopInner nopHooked smallOs inner' m new_nop
    hinstall nop_mapped).2.2

end Inner

end Ztour
