import Ztour.HookInst.Inner
import Ztour.Relocation.Code

/-!
# What the constructor leaves behind

A successful construction puts the relocated head and two absolute jumps into
one fresh page, and changes nothing outside that page.
-/

namespace Ztour

open Ztour.Foundation

variable {z : Zydis} {os : Os} {source dest : Ptr}

/-! ## The head -/

theorem relocateCode_length (hz : z.Lawful) {code result : List Byte}
    {data : Ptr} (h : relocateCode z data code source dest = .ok result) :
    result.length = code.length := by
  by_cases heq : source = dest
  · subst heq
    obtain ⟨-, rfl⟩ := relocateCode_self.mp h
    rfl
  · obtain ⟨-, pieces, hsplit, -, rfl⟩ := (relocateCode_eq_ok hz heq).mp h
    obtain ⟨-, -, -, hlen⟩ :=
      splitFrom_image source dest hz hsplit
    exact hlen

namespace Inner

theorem decodePatchLength_bounds {m : Mem} {target : Ptr} {fuel start n : Nat}
    (hstart : start < 20)
    (h : decodePatchLength z m target fuel start = .ok n) :
    5 ≤ n ∧ n < 20 := by
  induction fuel generalizing start with
  | zero => simp [decodePatchLength] at h
  | succ fuel ih =>
      unfold decodePatchLength at h
      split at h
      · rename_i hshort
        obtain ⟨length, hlen, hrest⟩ := bind_eq_ok.mp h
        have hbound := (decodeInstructionLength_bounds hlen).2
        unfold Encoder.relJmpSize at hshort
        exact ih (by omega) hrest
      · rename_i hlong
        unfold Encoder.relJmpSize at hlong
        cases h
        omega

/-! ## The page -/

/-- The bytes of the code page: the relocated head, the jump back behind the
patch, the jump to the detour. -/
def pageImage (targetFunc detourFunc : Ptr) (reloc : List Byte) : List Byte :=
  reloc ++ absJumpBytes (targetFunc + BitVec.ofNat 64 reloc.length) ++
    absJumpBytes detourFunc

theorem length_pageImage (targetFunc detourFunc : Ptr) (reloc : List Byte) :
    (pageImage targetFunc detourFunc reloc).length = reloc.length + 28 := by
  simp [pageImage]

structure Filled (z : Zydis) (m : Mem) (memory : Ptr) (size : Nat)
    (inner : Inner) (m' : Mem) : Prop where
  size_ge : 0x100 ≤ size
  size_le : size ≤ 2 ^ 64
  length_ge : 5 ≤ inner.patchedOriginalBytes.length
  length_lt : inner.patchedOriginalBytes.length < 20
  saved : m.Holds inner.targetFunc inner.patchedOriginalBytes
  page : ∃ page, inner.codePage = some page ∧ page.memory = memory ∧
    page.size = size
  notInstalled : inner.isInstalled = false
  callOriginal : inner.codeCallOriginal = memory
  enterDetour : inner.codeEnterDetour =
    memory + BitVec.ofNat 64 (inner.patchedOriginalBytes.length + 14)
  image : ∃ reloc, (∀ data, relocateCode z data inner.patchedOriginalBytes
      inner.targetFunc memory = .ok reloc) ∧
    reloc.length = inner.patchedOriginalBytes.length ∧
    m' = m.write memory (pageImage inner.targetFunc inner.detourFunc reloc)

theorem writeCode_of_le (m : Mem) {page : MemPage} (reloc : List Byte)
    (target detour : Ptr) (hoffset : page.writeOffset = 0)
    (hfits : reloc.length + 28 ≤ page.size) (hsize : page.size ≤ 2 ^ 64) :
    ∃ page', writeCode m page reloc (target + BitVec.ofNat 64 reloc.length)
        detour =
      .ok (page.memory, page.memory + BitVec.ofNat 64 (reloc.length + 14),
        page', m.write page.memory (pageImage target detour reloc)) ∧
      page'.memory = page.memory ∧ page'.size = page.size := by
  obtain ⟨size, memory, offset, hbound⟩ := page
  dsimp only at hoffset hfits hsize
  subst hoffset
  have hjump : ∀ dest, (({} : Encoder).encodePureJmp dest).bytes =
      absJumpBytes dest := by
    intro dest
    rw [Encoder.encodePureJmp_bytes]
    rfl
  unfold writeCode
  rw [MemPage.writeBytes_of_le (by dsimp only; omega)]
  simp only [ok_bind]
  rw [MemPage.writeBytes_of_le (by
    rw [hjump, length_absJumpBytes]; dsimp only; omega)]
  simp only [ok_bind]
  rw [MemPage.writeBytes_of_le (by
    simp only [hjump, length_absJumpBytes]; omega)]
  simp only [ok_bind]
  refine ⟨⟨size, memory, reloc.length + 28, hfits⟩, ?_, rfl, rfl⟩
  unfold pageImage
  rw [Memory.write_append (by simp; omega),
    Memory.write_append (by simp; omega)]
  simp [MemPage.nextWritePtr, hjump]

theorem fill_eq_ok (hz : z.Lawful) {m m' : Mem} {page : MemPage}
    {name : String} {target detour out : Ptr} {inner : Inner}
    (hoffset : page.writeOffset = 0) (hsize : 0x100 ≤ page.size)
    (hmax : page.size ≤ 2 ^ 64)
    (h : fill z os m page name target detour out = .ok (inner, m')) :
    Filled z m page.memory page.size inner m' ∧ inner.name = name ∧
      inner.targetFunc = target ∧ inner.detourFunc = detour ∧
      inner.outputOriginalFunc = out := by
  obtain ⟨n, reloc, page', hsteps⟩ := fill_steps h
  obtain ⟨hlow, hhigh⟩ := decodePatchLength_bounds (by omega) hsteps.decodes
  obtain ⟨hbytes, hholds⟩ := readBytes_eq_ok.mp hsteps.reads
  have hreloc := hsteps.relocates
  have hwrites := hsteps.writes
  have hlen := relocateCode_length hz hreloc
  have hstart : page.nextWritePtr = page.memory := by
    simp [MemPage.nextWritePtr, hoffset]
  rw [hstart] at hreloc
  obtain ⟨page'', hwrite, hmemory, hpagesize⟩ := writeCode_of_le m reloc target
    detour hoffset (by omega) hmax
  rw [← hlen, hwrite] at hwrites
  simp only [Except.ok.injEq, Prod.mk.injEq] at hwrites
  obtain ⟨hcall, henter, rfl, rfl⟩ := hwrites
  obtain rfl := hsteps.target
  obtain rfl := hsteps.detour
  refine ⟨?_, hsteps.named, rfl, rfl, hsteps.output⟩
  exact
    { size_ge := hsize
      size_le := hmax
      length_ge := by omega
      length_lt := by omega
      saved := hholds
      page := ⟨page'', hsteps.codePage, hmemory, hpagesize⟩
      notInstalled := hsteps.isInstalled
      callOriginal := hcall.symm
      enterDetour := by rw [← hlen, henter]
      image := ⟨reloc, fun data => (relocateCode_data hz _ data).mp hreloc,
        hlen, rfl⟩ }

/-! ## All ways in which the constructor ends -/

theorem resolveArgs_eq_ok {m : Mem} {name : String}
    {target detour out t d : Ptr}
    (h : resolveArgs m name target detour out = .ok (t, d)) :
    resolveFuncPtr m target = .ok t ∧ resolveFuncPtr m detour = .ok d := by
  obtain ⟨-, -, h⟩ := bind_eq_ok.mp h
  obtain ⟨t', ht, h⟩ := bind_eq_ok.mp h
  obtain ⟨d', hd, h⟩ := bind_eq_ok.mp h
  cases h
  exact ⟨ht, hd⟩

inductive NewOutcome (z : Zydis) (os : Os) (p : Process) (name : String)
    (target detour out : Ptr) : Res Inner × Process → Prop
  | rejected (e : Err) : NewOutcome z os p name target detour out (.error e, p)
  | noTarget (detourFunc : Ptr)
      (resolved : resolveArgs p.mem name target detour out =
        .ok (0, detourFunc)) :
      NewOutcome z os p name target detour out
        (.ok (withoutTarget name detourFunc out), p.setOut out 0)
  | unwound (e e' : Err) (page : MemPage) (m m' : Mem)
      (fresh : FreshPage p.mem page.size page.memory m)
      (unwinds : page.unwind os m e = (e', m')) :
      NewOutcome z os p name target detour out
        (.error e', { p with mem := m', pages := page :: p.pages })
  | constructed (inner : Inner) (page : MemPage) (m m' : Mem)
      (resolved : resolveArgs p.mem name target detour out =
        .ok (inner.targetFunc, inner.detourFunc))
      (nonnull : inner.targetFunc ≠ 0)
      (fresh : FreshPage p.mem page.size page.memory m)
      (filled : Filled z m page.memory page.size inner m')
      (named : inner.name = name)
      (output : inner.outputOriginalFunc = out) :
      NewOutcome z os p name target detour out
        (.ok inner, { p with mem := m', pages := page :: p.pages }.setOut out
          inner.codeCallOriginal)

theorem new_outcome (hz : z.Lawful) (os : Os) (p : Process) (name : String)
    (target detour out : Ptr) :
    NewOutcome z os p name target detour out
      (new z os p name target detour out) := by
  unfold new
  cases hargs : resolveArgs p.mem name target detour out with
  | error e => exact .rejected e
  | ok resolved =>
      obtain ⟨t, d⟩ := resolved
      dsimp only
      split
      · rename_i hnull
        subst hnull
        exact .noTarget d hargs
      · rename_i hnonnull
        cases hpage : MemPage.new os p.mem t with
        | error e => exact .rejected e
        | ok allocated =>
            obtain ⟨page, m⟩ := allocated
            obtain ⟨hoffset, hmax, hsize, hfresh⟩ := MemPage.new_eq_ok hpage
            dsimp only
            cases hfill : fill z os m page name t d out with
            | error e => exact .unwound e _ page m _ hfresh rfl
            | ok filled =>
                obtain ⟨inner, m'⟩ := filled
                obtain ⟨hfilled, hname, rfl, rfl, hout⟩ :=
                  fill_eq_ok hz hoffset hsize hmax hfill
                exact .constructed inner page m m' hargs hnonnull hfresh
                  hfilled hname hout

theorem Filled.mem_outside {m m' : Mem} {memory x : Ptr} {size : Nat}
    {inner : Inner} (h : Filled z m memory size inner m')
    (hx : x ∉ span memory size) : m' x = m x := by
  obtain ⟨reloc, -, hlen, rfl⟩ := h.image
  have := h.length_lt
  have := h.size_ge
  apply Memory.write_of_not_mem
  intro hmem
  rw [length_pageImage] at hmem
  exact hx (span_mono (by omega) hmem)

section NewOutcome

variable {p p' : Process} {name : String} {target detour out : Ptr}
  {r : Res Inner} (h : NewOutcome z os p name target detour out (r, p'))

include h

theorem NewOutcome.pages : p.pageMemory ⊆ p'.pageMemory := by
  cases h with
  | rejected e => exact subset_rfl
  | noTarget d resolved => exact subset_rfl
  | unwound e e' page m m' fresh unwinds =>
      rintro x ⟨old, hold, hx⟩
      exact ⟨old, List.mem_cons_of_mem _ hold, hx⟩
  | constructed inner page m m' resolved nonnull fresh filled named output =>
      rintro x ⟨old, hold, hx⟩
      exact ⟨old, List.mem_cons_of_mem _ hold, hx⟩

theorem NewOutcome.mem_eq {x : Ptr}
    (hx : p.mem x ≠ none ∨ x ∉ p'.pageMemory) : p'.mem x = p.mem x := by
  have hout : ∀ {page m}, FreshPage p.mem page.size page.memory m →
      page ∈ p'.pages → x ∉ span page.memory page.size := by
    intro page m fresh hpage hmem
    rcases hx with hmapped | hnew
    · exact hmapped (fresh.unmapped x hmem)
    · exact hnew ⟨page, hpage, hmem⟩
  cases h with
  | rejected e => rfl
  | noTarget d resolved => rfl
  | unwound e e' page m m' fresh unwinds =>
      have hpage := hout fresh List.mem_cons_self
      exact (MemPage.unwind_of_not_mem unwinds hpage).trans
        (fresh.mem_outside hpage)
  | constructed inner page m m' resolved nonnull fresh filled named output =>
      have hpage := hout fresh List.mem_cons_self
      exact (filled.mem_outside hpage).trans (fresh.mem_outside hpage)

end NewOutcome

theorem NewOutcome.notInstalled {p p' : Process} {name : String}
    {target detour out : Ptr} {inner : Inner}
    (h : NewOutcome z os p name target detour out (.ok inner, p')) :
    inner.isInstalled = false := by
  cases h with
  | noTarget d resolved => rfl
  | constructed inner page m m' resolved nonnull fresh filled named output =>
      exact filled.notInstalled

/-- The head is no jump, which relocation would have refused. -/
def HeadNotJmp (inner : Inner) : Prop :=
  inner.patchedOriginalBytes.head? ≠ some 0xE9

theorem relocateCode_head (hz : z.Lawful) (hjmp : z.DecodesJmp)
    {data : Ptr} {code result : List Byte} (hne : source ≠ dest)
    (h : relocateCode z data code source dest = .ok result) :
    code.head? ≠ some 0xE9 := by
  obtain ⟨-, pieces, hsplit, hreloc, -⟩ := (relocateCode_eq_ok hz hne).mp h
  cases code with
  | nil => simp
  | cons byte bytes =>
      intro hhead
      obtain rfl : byte = 0xE9 := by simpa using hhead
      obtain ⟨ins, tail, hdec, -, rfl⟩ := splitFrom_cons.mp hsplit
      obtain ⟨op, hop, hbranch⟩ := hjmp hdec
      have hplain := (hreloc _ List.mem_cons_self op hop).1
      rw [hbranch] at hplain
      cases hplain

theorem NewOutcome.headNotJmp (hz : z.Lawful) (hjmp : z.DecodesJmp)
    {p p' : Process} {name : String} {target detour out : Ptr} {inner : Inner}
    (h : NewOutcome z os p name target detour out (.ok inner, p')) :
    inner.HeadNotJmp := by
  cases h with
  | noTarget d resolved => simp [HeadNotJmp, withoutTarget]
  | constructed inner page m m' resolved nonnull fresh filled named output =>
      obtain ⟨reloc, hreloc, -, -⟩ := filled.image
      by_cases heq : inner.targetFunc = page.memory
      · -- The target is the page itself, which is filled with zeros.
        have hsize := filled.size_ge
        have hmax := filled.size_le
        have hstart : inner.targetFunc ∈ span page.memory page.size := by
          rw [heq, mem_span, BitVec.sub_self]
          exact lt_of_lt_of_le (by decide) hsize
        have hzero : m inner.targetFunc = some 0 := by
          rw [fresh.mem_eq]
          simp [Memory.map, hstart]
        have hsaved := filled.saved
        unfold HeadNotJmp
        cases hbytes : inner.patchedOriginalBytes with
        | nil => simp
        | cons byte bytes =>
            rw [hbytes] at hsaved
            have hbyte := (Memory.holds_cons.mp hsaved).1
            rw [hzero, Option.some.injEq] at hbyte
            rw [← hbyte]
            simp
      · exact relocateCode_head hz hjmp heq (hreloc 0)

/-! ## Installing and uninstalling -/

def patch (inner : Inner) : List Byte :=
  relJumpBytes inner.targetFunc inner.codeEnterDetour ++
    List.replicate (inner.patchedOriginalBytes.length - 5) 0x90

theorem length_patch {inner : Inner}
    (h : 5 ≤ inner.patchedOriginalBytes.length) :
    inner.patch.length = inner.patchedOriginalBytes.length := by
  simp [patch]
  omega

theorem jmpPatchBytes_eq_ok {inner : Inner} {bytes : List Byte}
    (h : inner.jmpPatchBytes = .ok bytes) :
    5 ≤ inner.patchedOriginalBytes.length ∧
      FitsSigned 32 (inner.codeEnterDetour - (inner.targetFunc + 5)) ∧
      bytes = inner.patch := by
  obtain ⟨encoder, hencoder, h⟩ := bind_eq_ok.mp h
  obtain ⟨hfits, rfl⟩ := Encoder.encodeRelJmp_eq_ok.mp hencoder
  obtain ⟨u, hassert, h⟩ := bind_eq_ok.mp h
  obtain ⟨-, -, h⟩ := bind_eq_ok.mp h
  have hlen : 5 ≤ inner.patchedOriginalBytes.length := by
    unfold ztAssert at hassert
    split at hassert
    · rename_i hle
      simpa using hle
    · cases hassert
  cases h
  exact ⟨hlen, hfits, by simp [patch]⟩

theorem prepareInstall_eq_ok {inner : Inner} {bytes : List Byte}
    (h : inner.prepareInstall = .ok bytes) :
    inner.isInstalled = false ∧ inner.targetFunc ≠ 0 ∧
      5 ≤ inner.patchedOriginalBytes.length ∧
      FitsSigned 32 (inner.codeEnterDetour - (inner.targetFunc + 5)) ∧
      bytes = inner.patch := by
  unfold prepareInstall at h
  split at h
  · cases h
  · rename_i hnot
    split at h
    · cases h
    · rename_i htarget
      refine ⟨by simpa using hnot, ?_, jmpPatchBytes_eq_ok h⟩
      simpa [hasTargetFunc] using htarget

theorem prepareUninstall_eq_ok {inner : Inner} {bytes : List Byte}
    (h : inner.prepareUninstall = .ok bytes) :
    inner.isInstalled = true ∧ bytes = inner.patchedOriginalBytes := by
  unfold prepareUninstall at h
  split at h
  · cases h
  · rename_i hinstalled
    cases h
    exact ⟨by simpa using hinstalled, rfl⟩

/-- How writing over the target ends: refused, cut short, or done. -/
inductive OverwriteOutcome (inner : Inner) (os : Os) (m : Mem)
    (prepared : Res (List Byte)) (flag : Bool) :
    Res Unit × Inner × Mem → Prop
  | rejected (e : Err) (refused : prepared = .error e) :
      OverwriteOutcome inner os m prepared flag (.error e, inner, m)
  | failed (e : Err) (bytes : List Byte) (ready : prepared = .ok bytes)
      (short : bytes ≠ [] →
        os.selfMem.stored m inner.targetFunc bytes.length ≠ bytes.length) :
      OverwriteOutcome inner os m prepared flag
        (.error e, inner, m.write inner.targetFunc
          (bytes.take (os.selfMem.stored m inner.targetFunc bytes.length)))
  | done (bytes : List Byte) (ready : prepared = .ok bytes)
      (whole : os.selfMem.stored m inner.targetFunc bytes.length =
        bytes.length) :
      OverwriteOutcome inner os m prepared flag
        (.ok (), { inner with isInstalled := flag },
          m.write inner.targetFunc bytes)

theorem overwrite_outcome (inner : Inner) (os : Os) (m : Mem)
    (prepared : Res (List Byte)) (flag : Bool) :
    OverwriteOutcome inner os m prepared flag
      (inner.overwrite os m prepared flag) := by
  unfold overwrite
  cases prepared with
  | error e => exact .rejected e rfl
  | ok bytes =>
      dsimp only
      have hmem := overwriteExecutableMem_mem os m bytes inner.targetFunc
      have hok := overwriteExecutableMem_eq_ok os m bytes inner.targetFunc
      have hshort := overwriteExecutableMem_short os m bytes inner.targetFunc
      generalize overwriteExecutableMem os m bytes inner.targetFunc = result
        at hmem hok hshort
      obtain ⟨res, m'⟩ := result
      dsimp only at hmem hok hshort
      subst hmem
      cases res with
      | error e => exact .failed e bytes rfl (hshort e rfl)
      | ok u =>
          obtain ⟨hwhole, heq⟩ := hok rfl
          rw [heq]
          exact .done bytes rfl hwhole

end Inner

end Ztour
