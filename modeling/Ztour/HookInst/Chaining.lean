import Ztour.HookInst.Independence
import Ztour.HookInst.SelfReference
import Ztour.JumpRoundTrip

/-!
# Two hooks on one function

A second hook on a function that is already hooked resolves to the trampoline
of the first one and patches that.  Calls then go to the second detour, whose
original is the first detour, whose original is the function.  A third hook
finds the patch of the second one there, a relative jump, and is refused.
-/

namespace Ztour

open Ztour.Foundation ZydisDecodedOperand

/-- `FF 25 disp32` is six bytes long and refers to memory through `RIP`. -/
def Zydis.DecodesRipJmp (z : Zydis) : Prop :=
  ∀ {bytes ins}, z.decode (0xFF :: 0x25 :: bytes) = some ins →
    ins.length = 6 ∧ ins.rawDisp = ⟨32, 2⟩ ∧
      ins.operands.any isRip = true

def ripJumpHead : List Byte := [0xFF, 0x25, 0, 0, 0, 0]

section Trampoline

variable {z : Zydis} {m : Mem} {source dest : Ptr}

theorem decodePatchLength_ripJump (hrip : z.DecodesRipJmp) {fuel n : Nat}
    (h : m.Holds source ripJumpHead)
    (hlen : Inner.decodePatchLength z m source fuel 0 = .ok n) : n = 6 := by
  obtain ⟨rest, hrest⟩ := Memory.readable_of_holds h
    (by decide : ripJumpHead.length ≤ maxInstructionLength)
  cases fuel with
  | zero => cases hlen
  | succ fuel =>
      unfold Inner.decodePatchLength at hlen
      rw [if_pos (by decide)] at hlen
      obtain ⟨length, hdecode, hlen⟩ := bind_eq_ok.mp hlen
      obtain ⟨ins, hins, hok⟩ := bind_eq_ok.mp hdecode
      cases hok
      rw [BitVec.add_zero] at hins
      have hfound := decodeAt_eq_ok.mp hins
      rw [hrest] at hfound
      obtain ⟨hsix, -, -⟩ := hrip hfound
      cases fuel with
      | zero => cases hlen
      | succ fuel =>
          unfold Inner.decodePatchLength at hlen
          rw [hsix, if_neg (by decide)] at hlen
          cases hlen
          rfl

theorem relocateCode_ripJump (hz : z.Lawful) (hrip : z.DecodesRipJmp)
    (hne : source ≠ dest) {data : Ptr} {result : List Byte}
    (h : relocateCode z data ripJumpHead source dest = .ok result) :
    FitsSigned 32 (source + 6 - (dest + 6)) ∧
      result = ripJumpBytes dest (source + 6) := by
  obtain ⟨-, pieces, hsplit, hreloc, rfl⟩ := (relocateCode_eq_ok hz hne).mp h
  obtain ⟨ins, tail, hdec, htail, rfl⟩ := splitFrom_cons.mp hsplit
  obtain ⟨hsix, hfield, hany⟩ := hrip hdec
  rw [hsix] at htail
  cases htail
  have hdisp : Piece.ripDisplacement source dest
      ⟨0, ins, [0xFF, 0x25, 0, 0, 0, 0].take ins.length⟩ =
        source + 6 - (dest + 6) := by
    have hzero : RawField.signed ⟨32, 2⟩
        ([0xFF, 0x25, 0, 0, 0, 0].take 6) = 0 := by decide
    unfold Piece.ripDisplacement ripDisplacement
    dsimp only
    rw [hsix, hfield, hzero]
    simp
  obtain ⟨-, hfits⟩ := Piece.relocates_iff.mp (hreloc _ List.mem_cons_self)
  have hfit := hfits hany
  rw [hdisp] at hfit
  refine ⟨hfit, ?_⟩
  rw [List.map_singleton, List.flatten_singleton, Piece.image_eq, if_pos hany,
    hdisp, hfield, hsix]
  rfl

end Trampoline

namespace Inner

section Second

variable {z : Zydis} {os : Os} {p p' : Process} {name : String}
  {target detour out source : Ptr} {inner : Inner}

theorem new_on_trampoline (hz : z.Lawful) (hrip : z.DecodesRipJmp)
    (hnew : new z os p name target detour out = (.ok inner, p'))
    (hbuilt : inner.patchedOriginalBytes ≠ [])
    (hresolve : resolveFuncPtr p.mem target = .ok source)
    (hhead : p.mem.Holds source ripJumpHead) :
    inner.targetFunc = source ∧ inner.patchedOriginalBytes = ripJumpHead := by
  rcases new_copiedHead hz hnew with ⟨hempty, -⟩ | hcopied
  · exact absurd hempty hbuilt
  · obtain ⟨t, ht, hcopied⟩ := bind_eq_ok.mp hcopied
    obtain rfl := Except.ok.inj (hresolve.symm.trans ht)
    obtain ⟨⟨page, m₁⟩, hpage, hcopied⟩ := bind_eq_ok.mp hcopied
    obtain ⟨n, hn, hcopied⟩ := bind_eq_ok.mp hcopied
    obtain ⟨head, hread, hok⟩ := bind_eq_ok.mp hcopied
    obtain ⟨-, -, -, hfresh⟩ := MemPage.new_eq_ok hpage
    have hhead₁ : m₁.Holds source ripJumpHead := by
      refine hhead.of_mapped fun x hx => hfresh.mem_outside fun hin => ?_
      exact hx (hfresh.unmapped x hin)
    obtain rfl := decodePatchLength_ripJump hrip hhead₁ hn
    have hread' : readBytes m₁ source 6 = .ok ripJumpHead :=
      readBytes_eq_ok.mpr ⟨rfl, hhead₁⟩
    simp only [Except.ok.injEq, Prod.mk.injEq] at hok
    obtain ⟨htarget, -, hbytes⟩ := hok
    exact ⟨htarget.symm,
      hbytes.symm.trans (Except.ok.inj (hread.symm.trans hread'))⟩

end Second

/-- Both hooks are in force in `m`, the second one on the first. -/
structure Chained (z : Zydis) (first second : Inner) (m : Mem) : Prop where
  patched : m.Holds first.targetFunc first.patch
  patchedBehind : m.Holds second.targetFunc second.patch
  nonzero : first.targetFunc ≠ 0
  nonzeroBehind : second.targetFunc ≠ 0
  target : second.targetFunc = first.codeEnterDetour
  entered : jumpTarget m first.targetFunc = some first.codeEnterDetour
  forwarded : jumpTarget m first.codeEnterDetour = some second.codeEnterDetour
  detoured : jumpTarget m second.codeEnterDetour = some second.detourFunc
  callsFirst : ripJumpTarget m second.codeCallOriginal = some first.detourFunc
  callsFunction : ∃ reloc,
    (∀ data, relocateCode z data first.patchedOriginalBytes first.targetFunc
      first.codeCallOriginal = .ok reloc) ∧
    m.Holds first.codeCallOriginal reloc
  resumed : jumpTarget m (first.codeCallOriginal +
      BitVec.ofNat 64 first.patchedOriginalBytes.length) =
    some (first.targetFunc +
      BitVec.ofNat 64 first.patchedOriginalBytes.length)
  resolves : resolveFuncPtr m first.targetFunc = .ok first.codeEnterDetour
  opcode : m first.targetFunc = some 0xE9
  opcodeBehind : m first.codeEnterDetour = some 0xE9

section Installed

variable {z : Zydis} {before after before' after' : Process} {out out' : Ptr}
  {first second : Inner} {page page' : MemPage} {m m' : Mem}

theorem Detoured.kept (h : Detoured z before after out first page m) {a : Ptr}
    {bytes : List Byte} (hholds : before.mem.Holds a bytes)
    (hmax : bytes.length ≤ 2 ^ 64)
    (hdisj : Disjoint (span a bytes.length) first.range) : m.Holds a bytes := by
  intro i hi
  have hmem := offset_mem_span (a := a) hi hmax
  rw [h.frame _ ?_ (Set.disjoint_left.mp hdisj hmem)]
  · exact hholds i hi
  · intro hpage
    have hnone : before.mem (a + BitVec.ofNat 64 i) = none := h.fresh _ hpage
    rw [hholds i hi] at hnone
    cases hnone

theorem Detoured.trampoline_mapped (h : Detoured z before after out first page m)
    {x : Ptr} (hx : x ∈ span first.codeEnterDetour 14) : m x ≠ none := by
  obtain ⟨i, hi, -, rfl⟩ := eq_offset_of_mem_span hx
  rw [h.enterDetour i (by simpa using hi)]
  exact Option.some_ne_none _

theorem Detoured.ne_callOriginal (h : Detoured z before after out first page m)
    {a : Ptr} (ha : before.mem a ≠ none) : a ≠ first.codeCallOriginal := by
  intro heq
  refine ha (h.fresh _ (h.callOriginal_inside ?_))
  rw [heq, mem_span, BitVec.sub_self]
  exact lt_of_lt_of_le (by decide) (Nat.le_add_left 14 _)

theorem patch_holds {os : Os} {inner' : Inner}
    (hinstall : first.install os m = (.ok (), inner', m'))
    (hlong : 5 ≤ first.patchedOriginalBytes.length)
    (hmax : first.patchedOriginalBytes.length ≤ 19) :
    m'.Holds first.targetFunc first.patch := by
  rw [(install_eq_ok hinstall).2.2]
  refine Memory.holds_write ?_
  rw [length_patch hlong]
  omega

theorem Detoured.copy_kept (h : Detoured z before after out first page m)
    (h' : Detoured z before' after' out' second page' m') (hmem : before'.mem = m)
    (hinside : second.range ⊆ span first.codeEnterDetour 14) :
    (∃ reloc,
      (∀ data, relocateCode z data first.patchedOriginalBytes first.targetFunc
        first.codeCallOriginal = .ok reloc) ∧
      m'.Holds first.codeCallOriginal reloc) ∧
    jumpTarget m' (first.codeCallOriginal +
        BitVec.ofNat 64 first.patchedOriginalBytes.length) =
      some (first.targetFunc +
        BitVec.ofNat 64 first.patchedOriginalBytes.length) := by
  subst hmem
  obtain ⟨reloc, hreloc, hlen, hcode⟩ := h.callOriginal
  have hsize : (reloc ++ absJumpBytes (first.targetFunc +
      BitVec.ofNat 64 first.patchedOriginalBytes.length)).length =
      first.patchedOriginalBytes.length + 14 := by
    rw [List.length_append, length_absJumpBytes, hlen]
  have hmax := h.length_le
  have hapart := h.disjoint.mono_right hinside
  obtain ⟨hcopy, hback⟩ := Memory.holds_append.mp
    (h'.kept hcode (by omega) (hsize ▸ hapart))
  exact ⟨⟨reloc, hreloc, hcopy⟩, jumpTarget_absJump (hlen ▸ hback)⟩

theorem Detoured.patch_kept (h : Detoured z before after out first page m)
    (h' : Detoured z before' after' out' second page' m') (hmem : before'.mem = m)
    (hmapped : ∀ x ∈ first.range, before.mem x ≠ none)
    (hinside : second.range ⊆ span first.codeEnterDetour 14)
    (hpatch : m.Holds first.targetFunc first.patch) :
    m'.Holds first.targetFunc first.patch := by
  subst hmem
  have hlen := length_patch h.length_ge
  have hmax := h.length_le
  refine h'.kept hpatch (by omega) ?_
  rw [hlen]
  exact (disjoint_of_fresh h.fresh hmapped).symm.mono_right
    (hinside.trans h.enterDetour_inside)

theorem Detoured.address_kept (h : Detoured z before after out first page m)
    (h' : Detoured z before' after' out' second page' m') (hmem : before'.mem = m)
    (hrange : second.range = span first.codeEnterDetour 6) :
    m'.Holds (first.codeEnterDetour + 6)
      (leBytes 8 first.detourFunc.toNat) := by
  subst hmem
  have hbehind := disjoint_span_offset (a := first.codeEnterDetour) (i := 0)
    (j := 6) (k := 6) (l := 8) (by decide) (by decide)
  rw [BitVec.add_zero] at hbehind
  refine h'.kept (Memory.holds_append.mp h.enterDetour).2 (by simp) ?_
  rw [length_leBytes, hrange]
  exact hbehind.symm

end Installed

theorem chained_of_installs {z : Zydis} (hz : z.Lawful) (hrip : z.DecodesRipJmp)
    {os₁ os₁' os₂ os₂' : Os} {p p₁ p₂ : Process} {name₁ name₂ : String}
    {target detour₁ detour₂ out₁ out₂ : Ptr}
    {first first' second second' : Inner} {m₁ m₂ : Mem}
    (hnew₁ : new z os₁ p name₁ target detour₁ out₁ = (.ok first, p₁))
    (hinstall₁ : first.install os₁' p₁.mem = (.ok (), first', m₁))
    (hmapped : ∀ x ∈ first.range, p.mem x ≠ none)
    (hnew₂ : new z os₂ { p₁ with mem := m₁ } name₂ first.targetFunc detour₂
      out₂ = (.ok second, p₂))
    (hinstall₂ : second.install os₂' p₂.mem = (.ok (), second', m₂)) :
    Chained z first second m₂ := by
  obtain ⟨-, -, page₁, hdetoured₁⟩ := (install_detoured hz).2 os₁ p name₁ target
    detour₁ out₁ first p₁ os₁' first' m₁ hnew₁ hinstall₁ hmapped
  obtain ⟨htarget₁, hfits₁, -⟩ := install_eq_ok hinstall₁
  have hpatch₁ := patch_holds hinstall₁ hdetoured₁.length_ge hdetoured₁.length_le
  have hresolve := resolveFuncPtr_relJump hfits₁ htarget₁
    (Memory.holds_append.mp hpatch₁).1
  -- the second hook patches the jump in the trampoline of the first
  have hlong₂ := (prepareInstall_eq_ok
    (install_eq_ok_iff.mp hinstall₂).1).2.2.1
  obtain ⟨htarget₂, hbytes₂⟩ := new_on_trampoline hz hrip hnew₂
    (List.length_pos_iff.mp (by omega)) hresolve
    (Memory.holds_append.mp hdetoured₁.enterDetour).1
  have hrange₂ : second.range = span first.codeEnterDetour 6 := by
    rw [range, htarget₂, hbytes₂]
    rfl
  have hinside₂ : second.range ⊆ span first.codeEnterDetour 14 := by
    rw [hrange₂]
    exact span_mono (by decide)
  obtain ⟨-, -, page₂, hdetoured₂⟩ := (install_detoured hz).2 os₂ _ name₂ _
    detour₂ out₂ second p₂ os₂' second' m₂ hnew₂ hinstall₂
    fun x hx => hdetoured₁.trampoline_mapped (hinside₂ hx)
  have hpatch₂ := patch_holds hinstall₂ hdetoured₂.length_ge hdetoured₂.length_le
  rw [htarget₂] at hpatch₂
  -- what is left of the first hook
  have hkept₁ := hdetoured₁.patch_kept hdetoured₂ rfl hmapped hinside₂ hpatch₁
  obtain ⟨hcopy₁, hresumed₁⟩ := hdetoured₁.copy_kept hdetoured₂ rfl hinside₂
  obtain ⟨reloc₂, hreloc₂, -, hcode₂⟩ := hdetoured₂.callOriginal
  rw [hbytes₂, htarget₂] at hreloc₂
  have hne₂ : first.codeEnterDetour ≠ second.codeCallOriginal := by
    refine hdetoured₂.ne_callOriginal (hdetoured₁.trampoline_mapped ?_)
    rw [mem_span, BitVec.sub_self]
    decide
  obtain ⟨hfit₂, rfl⟩ := relocateCode_ripJump hz hrip hne₂ (hreloc₂ 0)
  exact
    { patched := hkept₁
      patchedBehind := htarget₂.symm ▸ hpatch₂
      nonzero := htarget₁
      nonzeroBehind := (install_eq_ok hinstall₂).1
      target := htarget₂
      entered := jumpTarget_patch hfits₁ hkept₁
      forwarded := htarget₂ ▸ hdetoured₂.entered
      detoured := hdetoured₂.detoured
      callsFirst := ripJumpTarget_ripJump hfit₂
        (Memory.holds_append.mp hcode₂).1
        (hdetoured₁.address_kept hdetoured₂ rfl hrange₂)
      callsFunction := hcopy₁
      resumed := hresumed₁
      resolves := resolveFuncPtr_relJump hfits₁ htarget₁
        (Memory.holds_append.mp hkept₁).1
      opcode := (Memory.holds_cons.mp hkept₁).1
      opcodeBehind := (Memory.holds_cons.mp hpatch₂).1 }

/-- No hook can be created on code that begins with a patch. -/
theorem new_refused_of_jmp {z : Zydis} (hz : z.Lawful) (hjmp : z.DecodesJmp)
    {os : Os} {p : Process} {name : String} {target source detour out : Ptr}
    (hresolve : resolveFuncPtr p.mem target = .ok source) (hsource : source ≠ 0)
    (hopcode : p.mem source = some 0xE9) :
    ∃ e, (new z os p name target detour out).1 = .error e := by
  cases hnew : new z os p name target detour out with
  | mk r p' =>
    cases r with
    | error e => exact ⟨e, rfl⟩
    | ok inner =>
        have houtcome := new_outcome hz os p name target detour out
        rw [hnew] at houtcome
        have htarget : inner.targetFunc = source :=
          Except.ok.inj (houtcome.built.targetFunc.symm.trans hresolve)
        have hpos := houtcome.length_pos (htarget.symm ▸ hsource)
        have hfirst := houtcome.saved_bytes hpos
        rw [BitVec.add_zero, htarget, hopcode] at hfirst
        refine absurd ?_ (houtcome.headNotJmp hz hjmp)
        rw [List.head?_eq_getElem?, List.getElem?_eq_getElem hpos,
          ← hfirst (Option.some_ne_none _)]

theorem Chained.refuses {z : Zydis} (hz : z.Lawful) (hjmp : z.DecodesJmp)
    {first second : Inner} {m : Mem} (h : Chained z first second m)
    (hfits : FitsSigned 32 (first.codeEnterDetour - (first.targetFunc + 5)))
    {p : Process} (hpatch : p.mem.Holds first.targetFunc first.patch)
    (hbehind : p.mem.Holds second.targetFunc second.patch)
    (os : Os) (name : String) {target : Ptr} (detour out : Ptr)
    (hpointer : target = first.targetFunc ∨
      resolveFuncPtr p.mem target = .ok first.targetFunc) :
    ∃ e, (new z os p name target detour out).1 = .error e := by
  rcases hpointer with rfl | hresolve
  · have hresolve := resolveFuncPtr_relJump hfits h.nonzero
      (Memory.holds_append.mp hpatch).1
    rw [h.target] at hbehind
    exact new_refused_of_jmp hz hjmp hresolve (h.target ▸ h.nonzeroBehind)
      (Memory.holds_cons.mp hbehind).1
  · exact new_refused_of_jmp hz hjmp hresolve h.nonzero
      (Memory.holds_cons.mp hpatch).1

/--
A second hook, created on a function while the first one is installed and then
installed itself, stands in front of the first one.  In every memory in which
both patches stand, no third hook can be created on the function.
-/
theorem install_chained {z : Zydis} (hz : z.Lawful) (hrip : z.DecodesRipJmp)
    (hjmp : z.DecodesJmp) {os₁ os₁' os₂ os₂' : Os} {p p₁ p₂ : Process}
    {name₁ name₂ : String} {target detour₁ detour₂ out₁ out₂ : Ptr}
    {first first' second second' : Inner} {m₁ m₂ : Mem}
    (hnew₁ : new z os₁ p name₁ target detour₁ out₁ = (.ok first, p₁))
    (hinstall₁ : first.install os₁' p₁.mem = (.ok (), first', m₁))
    (hmapped : ∀ x ∈ first.range, p.mem x ≠ none)
    (hnew₂ : new z os₂ { p₁ with mem := m₁ } name₂ first.targetFunc detour₂
      out₂ = (.ok second, p₂))
    (hinstall₂ : second.install os₂' p₂.mem = (.ok (), second', m₂)) :
    Chained z first second m₂ ∧
      ∀ (os : Os) (p₃ : Process) (name : String) (pointer detour out : Ptr),
        p₃.mem.Holds first.targetFunc first.patch →
        p₃.mem.Holds second.targetFunc second.patch →
        (pointer = first.targetFunc ∨
          resolveFuncPtr p₃.mem pointer = .ok first.targetFunc) →
        ∃ e, (new z os p₃ name pointer detour out).1 = .error e := by
  have hchained := chained_of_installs hz hrip hnew₁ hinstall₁ hmapped hnew₂
    hinstall₂
  refine ⟨hchained, ?_⟩
  intro os p₃ name pointer detour out hpatch hbehind hpointer
  exact hchained.refuses hz hjmp (install_eq_ok hinstall₁).2.1 hpatch hbehind os
    name detour out hpointer

/-! ## Two hooks on five NOPs -/

theorem trampolineTable_decodesRipJmp :
    (tableZydis World.trampolineTable).DecodesRipJmp := by
  intro bytes ins h
  change tableDecode World.trampolineTable (0xFF :: 0x25 :: bytes) = some ins at h
  obtain ⟨form, hform, -, rfl⟩ := tableDecode_eq_some.mp h
  have hjmp : some jmpRipForm = some form := hform
  cases hjmp
  exact ⟨rfl, rfl, rfl⟩

theorem trampolineTable_decodesJmp :
    (tableZydis World.trampolineTable).DecodesJmp := by
  intro bytes ins h
  change tableDecode World.trampolineTable (0xE9 :: bytes) = some ins at h
  obtain ⟨form, hform, -, rfl⟩ := tableDecode_eq_some.mp h
  have hjmp : some jmpRel32Form = some form := hform
  cases hjmp
  exact ⟨_, List.mem_singleton_self _, rfl⟩

def onceHooked : Process :=
  (new (tableZydis World.trampolineTable) smallOs nopProcess "nop" 0x1000 0x2000
    0x3000).2

def onceInstalled : Mem := (nopInner.install smallOs onceHooked.mem).2.2

def secondInner : Inner where
  isInstalled := false
  name := "second"
  targetFunc := 0xF13
  detourFunc := 0x2000
  patchedOriginalBytes := [0xFF, 0x25, 0, 0, 0, 0]
  codeEnterDetour := 0xE14
  codeCallOriginal := 0xE00
  outputOriginalFunc := 0x3008
  codePage := some ⟨0x100, 0xE00, 34, by decide⟩

def twiceHooked : Process :=
  (new (tableZydis World.trampolineTable) smallOs
    { onceHooked with mem := onceInstalled } "second" 0x1000 0x2000 0x3008).2

theorem new_first : new (tableZydis World.trampolineTable) smallOs nopProcess
    "nop" 0x1000 0x2000 0x3000 = (.ok nopInner, onceHooked) := by
  have hinner : (new (tableZydis World.trampolineTable) smallOs nopProcess "nop"
      0x1000 0x2000 0x3000).1 = .ok nopInner := by
    decide +kernel
  exact eq_mk_of_fst hinner

theorem new_second : new (tableZydis World.trampolineTable) smallOs
    { onceHooked with mem := onceInstalled } "second" 0x1000 0x2000 0x3008 =
      (.ok secondInner, twiceHooked) := by
  have hinner : (new (tableZydis World.trampolineTable) smallOs
      { onceHooked with mem := onceInstalled } "second" 0x1000 0x2000
      0x3008).1 = .ok secondInner := by
    decide +kernel
  exact eq_mk_of_fst hinner

theorem eq_install_of_isOk {inner : Inner} {os : Os} {m : Mem}
    (h : (inner.install os m).1 = .ok ()) :
    inner.install os m =
      (.ok (), (inner.install os m).2.1, (inner.install os m).2.2) := by
  rw [← h]

theorem install_chained_nop :
    ∃ inner' m, secondInner.install smallOs twiceHooked.mem =
        (.ok (), inner', m) ∧
      Chained (tableZydis World.trampolineTable) nopInner secondInner m ∧
      ∃ e, (new (tableZydis World.trampolineTable) smallOs
        { twiceHooked with mem := m } "third" 0x1000 0x2000 0x3010).1 =
          .error e := by
  have hfirst : (nopInner.install smallOs onceHooked.mem).1 = .ok () := by
    decide +kernel
  have hsecond : (secondInner.install smallOs twiceHooked.mem).1 = .ok () := by
    decide +kernel
  have hinstalled := eq_install_of_isOk hsecond
  generalize (secondInner.install smallOs twiceHooked.mem).2.2 = m at hinstalled
  obtain ⟨hchained, hrefuses⟩ := install_chained (tableZydis_lawful _)
    trampolineTable_decodesRipJmp trampolineTable_decodesJmp new_first
    (eq_install_of_isOk hfirst) nop_mapped new_second hinstalled
  exact ⟨_, m, hinstalled, hchained, hrefuses smallOs { twiceHooked with mem := m }
    "third" 0x1000 0x2000 0x3010 hchained.patched hchained.patchedBehind
    (.inl rfl)⟩

end Inner

end Ztour
