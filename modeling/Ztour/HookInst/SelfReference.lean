import Ztour.Foundation.Footprint
import Ztour.HookInst.ControlFlow
import Ztour.Relocation.Composition

/-!
# Heads that refer to themselves

Relocation keeps the addresses that a head refers to, those inside the head
among them, and installing a hook overwrites them.  The copy of the head then
reads the patch where it read the original bytes.
-/

namespace Ztour

open Ztour.Foundation ZydisDecodedOperand

/-! ## What an instruction refers to -/

section References

variable (width : ZydisDecodedInstruction → ZydisDecodedOperand → Nat)

/--
The bytes that an instruction-pointer-relative operand refers to: the first
one of a branch target, and as many as the instruction reads through a memory
operand, which its layout decides.
-/
def operandBytes (ins : ZydisDecodedInstruction) (bytes : List Byte)
    (address : Ptr) (op : ZydisDecodedOperand) : Set Ptr :=
  span (ipTarget ins bytes address op)
    (if op.isBranch then 1 else width ins.layout op.shape)

def ipReferences (ins : ZydisDecodedInstruction) (bytes : List Byte)
    (address : Ptr) : Set Ptr :=
  {x | ∃ op ∈ ins.operands, op.isIpRelative = true ∧
    x ∈ operandBytes width ins bytes address op}

variable {width} {ins ins' : ZydisDecodedInstruction} {bytes : List Byte}
  {address : Ptr} {region : Set Ptr}

theorem disjoint_ipReferences :
    Disjoint (ipReferences width ins bytes address) region ↔
      ∀ op ∈ ins.operands, op.isIpRelative = true →
        Disjoint (operandBytes width ins bytes address op) region := by
  simp only [Set.disjoint_left]
  constructor
  · intro h op hop hrel x hx
    exact h ⟨op, hop, hrel, hx⟩
  · rintro h x ⟨op, hop, hrel, hx⟩
    exact h op hop hrel hx

theorem isEip_shape (op : ZydisDecodedOperand) : op.shape.isEip = op.isEip := by
  cases op with
  | memory base disp => cases base <;> rfl
  | immediate isRelative value => rfl
  | other => rfl

theorem isIpRelative_shape (op : ZydisDecodedOperand) :
    op.shape.isIpRelative = op.isIpRelative := by
  simp only [isIpRelative, isRip_shape, isEip_shape, isBranch_shape]

theorem ipTarget_shape (op : ZydisDecodedOperand) :
    ipTarget ins bytes address op.shape = ipTarget ins bytes address op := by
  have hfield : ins.ipField op.shape = ins.ipField op := by
    cases op <;> rfl
  simp only [ipTarget, hfield, isEip_shape]

theorem operandBytes_shape (op : ZydisDecodedOperand) :
    operandBytes width ins bytes address op.shape =
      operandBytes width ins bytes address op := by
  have hshape : op.shape.shape = op.shape := by
    cases op <;> rfl
  simp only [operandBytes, ipTarget_shape, isBranch_shape, hshape]

theorem SameLayout.operandBytes_eq (h : SameLayout ins ins')
    (op : ZydisDecodedOperand) :
    operandBytes width ins' bytes address op =
      operandBytes width ins bytes address op := by
  have hlayout : ins'.layout = ins.layout := h.symm
  simp only [operandBytes, h.ipTarget_eq, hlayout]

theorem mem_ipReferences {x : Ptr} :
    x ∈ ipReferences width ins bytes address ↔
      ∃ op ∈ ins.operands.map shape, op.isIpRelative = true ∧
        x ∈ operandBytes width ins bytes address op := by
  simp only [List.mem_map, exists_exists_and_eq_and, isIpRelative_shape,
    operandBytes_shape]
  rfl

theorem SameLayout.ipReferences_eq (h : SameLayout ins ins') :
    ipReferences width ins' bytes address =
      ipReferences width ins bytes address := by
  have hshapes : ins'.operands.map shape = ins.operands.map shape :=
    (congrArg ZydisDecodedInstruction.operands h).symm
  ext x
  simp only [mem_ipReferences, hshapes, h.operandBytes_eq]

end References

/-! ## What the copy of a head refers to -/

section Copy

variable {z : Zydis} {source dest : Ptr} {region : Set Ptr}
  (width : ZydisDecodedInstruction → ZydisDecodedOperand → Nat)

/--
No operand of the piece refers to the region once the piece was copied: an
operand based on `RIP` keeps its target, one based on `EIP` its displacement.
-/
def Piece.Avoids (source dest : Ptr) (region : Set Ptr) (p : Piece) : Prop :=
  ∀ op ∈ p.ins.operands,
    (op.isRip = true → Disjoint (operandBytes width p.ins p.bytes
      (source + BitVec.ofNat 64 p.offset) op) region) ∧
    (op.isEip = true → Disjoint (operandBytes width p.ins p.bytes
      (dest + BitVec.ofNat 64 p.offset) op) region)

variable {width}

theorem operandBytes_image_of_isRip (hz : z.Lawful) {p : Piece}
    (hdec : p.Decoded z) (hreloc : p.Relocates source dest)
    {op : ZydisDecodedOperand} (hop : op ∈ p.ins.operands)
    (hrip : op.isRip = true) :
    operandBytes width p.ins (p.image source dest)
        (dest + BitVec.ofNat 64 p.offset) op =
      operandBytes width p.ins p.bytes (source + BitVec.ofNat 64 p.offset)
        op := by
  unfold operandBytes
  rw [ipTarget_image_of_isRip hz hdec hreloc hop hrip]

theorem disjoint_references_image (hz : z.Lawful) {p : Piece}
    (hdec : p.Decoded z) (hreloc : p.Relocates source dest) :
    Disjoint (ipReferences width p.ins (p.image source dest)
        (dest + BitVec.ofNat 64 p.offset)) region ↔
      p.Avoids width source dest region := by
  rw [disjoint_ipReferences]
  have himage : ∀ op ∈ p.ins.operands, op.isEip = true →
      p.image source dest = p.bytes := fun op hop heip =>
    image_of_hasEip hz hdec ⟨op, hop, heip⟩
  constructor
  · intro h op hop
    refine ⟨fun hrip => ?_, fun heip => ?_⟩
    · rw [← operandBytes_image_of_isRip hz hdec hreloc hop hrip]
      exact h op hop (by simp [isIpRelative, hrip])
    · have hcopy := h op hop (by simp [isIpRelative, heip])
      rwa [himage op hop heip] at hcopy
  · intro h op hop hrel
    have hbranch := (hreloc op hop).1
    rw [isIpRelative, hbranch, Bool.or_false, Bool.or_eq_true] at hrel
    rcases hrel with hrip | heip
    · rw [operandBytes_image_of_isRip hz hdec hreloc hop hrip]
      exact (h op hop).1 hrip
    · rw [himage op hop heip]
      exact (h op hop).2 heip

theorem Piece.RelocatedTo.disjoint_references (hz : z.Lawful) {p p' : Piece}
    (hdec : p.Decoded z) (hreloc : p.Relocates source dest)
    (h : p.RelocatedTo source dest p') :
    Disjoint (ipReferences width p'.ins p'.bytes
        (dest + BitVec.ofNat 64 p'.offset)) region ↔
      p.Avoids width source dest region := by
  obtain ⟨hoffset, hlayout, hbytes⟩ := h
  rw [hoffset, hbytes, hlayout.ipReferences_eq]
  exact disjoint_references_image hz hdec hreloc

theorem forall_disjoint_references (hz : z.Lawful) {pieces pieces' : List Piece}
    (hdec : ∀ p ∈ pieces, p.Decoded z)
    (hreloc : ∀ p ∈ pieces, p.Relocates source dest)
    (h : List.Forall₂ (Piece.RelocatedTo source dest) pieces pieces') :
    (∀ p ∈ pieces', Disjoint (ipReferences width p.ins p.bytes
        (dest + BitVec.ofNat 64 p.offset)) region) ↔
      ∀ p ∈ pieces, p.Avoids width source dest region := by
  induction h with
  | nil => simp
  | @cons p p' pieces pieces' hhead _ ih =>
      rw [List.forall_mem_cons] at hdec hreloc
      rw [List.forall_mem_cons, List.forall_mem_cons,
        hhead.disjoint_references hz hdec.1 hreloc.1, ih hdec.2 hreloc.2]

theorem splitFrom_offset_le (hz : z.Lawful) {fuel offset : Nat}
    {code : List Byte} {pieces : List Piece}
    (h : splitFrom z fuel offset code = some pieces) :
    ∀ p ∈ pieces, p.offset + p.bytes.length ≤ offset + code.length := by
  induction fuel generalizing offset code pieces with
  | zero =>
      cases code with
      | nil =>
          cases h
          simp
      | cons byte bytes => cases h
  | succ fuel ih =>
      cases code with
      | nil =>
          cases h
          simp
      | cons byte bytes =>
          obtain ⟨ins, tail, hdec, htail, rfl⟩ := splitFrom_cons.mp h
          have hlen := hz.length_le hdec
          rw [List.forall_mem_cons]
          refine ⟨?_, fun p hp => ?_⟩
          · have htake := List.length_take_le' ins.length (byte :: bytes)
            dsimp only
            omega
          · have hrest := ih htail p hp
            rw [List.length_drop] at hrest
            omega

end Copy

/-! ## Running the copy -/

/--
A processor: besides its own bytes and what its instruction-pointer-relative
operands refer to, an instruction reads `otherReads`, through registers, the
stack or absolute addresses.
-/
structure Cpu (z : Zydis)
    (width : ZydisDecodedInstruction → ZydisDecodedOperand → Nat) (σ : Type)
    extends MemoryMachine 64 Byte σ where
  pc : σ → Ptr
  otherReads : σ → Mem → Set Ptr
  reads_subset : ∀ {s m buffer ins}, z.decode buffer = some ins →
    m.Holds (pc s) (buffer.take ins.length) →
    reads s m ⊆ span (pc s) ins.length ∪
      ipReferences width ins (buffer.take ins.length) (pc s) ∪ otherReads s m

section Running

variable {z : Zydis} {σ : Type}
  {width : ZydisDecodedInstruction → ZydisDecodedOperand → Nat}

/-- The next instruction is a piece of the code at `base`, and reaches the
region neither through a register nor at an absolute address. -/
def Cpu.Executes (cpu : Cpu z width σ) (pieces : List Piece) (base : Ptr)
    (region : Set Ptr) (s : σ) (m : Mem) : Prop :=
  ∃ p ∈ pieces, cpu.pc s = base + BitVec.ofNat 64 p.offset ∧
    m.Holds (cpu.pc s) p.bytes ∧ Disjoint (cpu.otherReads s m) region

theorem Cpu.Executes.disjoint_reads (hz : z.Lawful) {cpu : Cpu z width σ}
    {pieces : List Piece} {base : Ptr} {region : Set Ptr}
    (hdec : ∀ p ∈ pieces, p.Decoded z)
    (hcode : ∀ p ∈ pieces,
      Disjoint (span (base + BitVec.ofNat 64 p.offset) p.bytes.length) region)
    (hrefers : ∀ p ∈ pieces, Disjoint (ipReferences width p.ins p.bytes
      (base + BitVec.ofNat 64 p.offset)) region)
    {s : σ} {m : Mem} (h : cpu.Executes pieces base region s m) :
    Disjoint (cpu.reads s m) region := by
  obtain ⟨p, hp, hpc, hholds, hother⟩ := h
  have hlen := Piece.length_bytes hz (hdec p hp)
  obtain ⟨buffer, hbuf, hbytes⟩ := hdec p hp
  have hreads := cpu.reads_subset hbuf (hbytes ▸ hholds)
  rw [← hbytes, hpc] at hreads
  refine Disjoint.mono_left hreads ?_
  rw [Set.disjoint_union_left, Set.disjoint_union_left]
  exact ⟨⟨hlen ▸ hcode p hp, hrefers p hp⟩, hother⟩

end Running

namespace Inner

/--
Calling the original is unaffected by the patch: the copy of the head, as the
constructor left it in `m`, refers to no patched byte, and executing it does
the same before and after an installation.
-/
structure UnaffectedCopy (z : Zydis)
    (width : ZydisDecodedInstruction → ZydisDecodedOperand → Nat)
    (inner : Inner) (m : Mem) (copy : List Byte) (pieces : List Piece) :
    Prop where
  length_eq : copy.length = inner.patchedOriginalBytes.length
  holds : m.Holds inner.codeCallOriginal copy
  split : splitCode z copy = some pieces
  refers : ∀ p ∈ pieces, Disjoint (ipReferences width p.ins p.bytes
    (inner.codeCallOriginal + BitVec.ofNat 64 p.offset)) inner.range
  effects : ∀ (σ : Type) (cpu : Cpu z width σ) (os : Os) (m₁ m₂ : Mem)
    (inner' : Inner), inner.install os m₁ = (.ok (), inner', m₂) →
    ∀ n s, cpu.Along
        (cpu.Executes pieces inner.codeCallOriginal inner.range) n s m₁ →
      cpu.trace n s m₂ = cpu.trace n s m₁

def CallOriginalUnaffected (z : Zydis)
    (width : ZydisDecodedInstruction → ZydisDecodedOperand → Nat)
    (inner : Inner) (m : Mem) : Prop :=
  ∃ copy pieces, UnaffectedCopy z width inner m copy pieces

def copiedHead (z : Zydis) (os : Os) (m : Mem) (target : Ptr) :
    Res (Ptr × Ptr × List Byte) := do
  let targetFunc ← resolveFuncPtr m target
  let (page, m) ← MemPage.new os m targetFunc
  let patchLength ← decodePatchLength z m targetFunc (Encoder.relJmpSize + 1) 0
  let head ← readBytes m targetFunc patchLength
  .ok (targetFunc, page.memory, head)

/-- No instruction-pointer-relative operand of the head at `target` refers to
the head. -/
def NoSelfReference (z : Zydis)
    (width : ZydisDecodedInstruction → ZydisDecodedOperand → Nat) (os : Os)
    (m : Mem) (target : Ptr) : Prop :=
  ∀ targetFunc memory head,
    copiedHead z os m target = .ok (targetFunc, memory, head) →
    ∀ pieces, splitCode z head = some pieces → ∀ p ∈ pieces,
      p.Avoids width targetFunc memory (span targetFunc head.length)

section New

variable {z : Zydis} {os : Os} {p p' : Process} {name : String}
  {target detour out : Ptr} {inner : Inner}
  {width : ZydisDecodedInstruction → ZydisDecodedOperand → Nat}

theorem copiedHead_zero {m : Mem} (h : resolveFuncPtr m target = .ok 0)
    (result : Ptr × Ptr × List Byte) :
    copiedHead z os m target ≠ .ok result := by
  intro hcopied
  unfold copiedHead at hcopied
  rw [h, ok_bind] at hcopied
  obtain ⟨⟨page, m₁⟩, hpage, -⟩ := bind_eq_ok.mp hcopied
  obtain ⟨size, -, hpage⟩ := bind_eq_ok.mp hpage
  obtain ⟨allocated, halloc, -⟩ := bind_eq_ok.mp hpage
  obtain ⟨u, hassert, -⟩ := bind_eq_ok.mp halloc
  cases hassert

theorem new_copiedHead (hz : z.Lawful)
    (h : new z os p name target detour out = (.ok inner, p')) :
    (inner.patchedOriginalBytes = [] ∧ resolveFuncPtr p.mem target = .ok 0) ∨
      copiedHead z os p.mem target = .ok (inner.targetFunc,
        inner.codeCallOriginal, inner.patchedOriginalBytes) := by
  unfold new at h
  cases hargs : resolveArgs p.mem name target detour out with
  | error e =>
      rw [hargs] at h
      cases h
  | ok resolved =>
      obtain ⟨t, d⟩ := resolved
      have htarget := (resolveArgs_eq_ok hargs).1
      rw [hargs] at h
      dsimp only at h
      split at h
      · rename_i hnull
        subst hnull
        cases h
        exact .inl ⟨rfl, htarget⟩
      · cases hpage : MemPage.new os p.mem t with
        | error e =>
            rw [hpage] at h
            cases h
        | ok allocated =>
            obtain ⟨page, m⟩ := allocated
            obtain ⟨hoffset, hmax, hsize, -⟩ := MemPage.new_eq_ok hpage
            rw [hpage] at h
            dsimp only at h
            cases hfill : fill z os m page name t d out with
            | error e =>
                rw [hfill] at h
                cases h
            | ok filled =>
                obtain ⟨filledInner, m'⟩ := filled
                rw [hfill] at h
                cases h
                obtain ⟨hfilled, -, rfl, -⟩ :=
                  fill_eq_ok hz hoffset hsize hmax hfill
                obtain ⟨n, reloc, page', hsteps⟩ := fill_steps hfill
                refine .inr ?_
                unfold copiedHead
                rw [htarget, ok_bind, hpage, ok_bind]
                dsimp only
                rw [hsteps.decodes, ok_bind, hsteps.reads, ok_bind,
                  hfilled.callOriginal]

theorem effects_of_refers (hz : z.Lawful) {pieces : List Piece} {copy : List Byte}
    (hmax : copy.length ≤ 2 ^ 64) (hsplit : splitCode z copy = some pieces)
    (houtside : Disjoint (span inner.codeCallOriginal copy.length) inner.range)
    (hrefers : ∀ p ∈ pieces, Disjoint (ipReferences width p.ins p.bytes
      (inner.codeCallOriginal + BitVec.ofNat 64 p.offset)) inner.range)
    {σ : Type} (cpu : Cpu z width σ) {os : Os} {m₁ m₂ : Mem} {inner' : Inner}
    (hinstall : inner.install os m₁ = (.ok (), inner', m₂)) {n : Nat} {s : σ}
    (hrun : cpu.Along
      (cpu.Executes pieces inner.codeCallOriginal inner.range) n s m₁) :
    cpu.trace n s m₂ = cpu.trace n s m₁ := by
  obtain ⟨hready, -, -, rfl⟩ := install_eq_ok_iff.mp hinstall
  have hlong := (prepareInstall_eq_ok hready).2.2.1
  have hcode : ∀ p ∈ pieces, Disjoint (span (inner.codeCallOriginal +
      BitVec.ofNat 64 p.offset) p.bytes.length) inner.range := by
    intro p hp
    have hbound := splitFrom_offset_le hz hsplit p hp
    rw [Nat.zero_add] at hbound
    exact houtside.mono_left (span_offset_subset hbound hmax)
  have hreads := hrun.mono fun s m h =>
    h.disjoint_reads hz (splitCode_decoded hsplit) hcode hrefers
  refine hreads.trace_eq fun x hx => Memory.write_of_not_mem ?_
  rw [length_patch hlong]
  exact hx

theorem Filled.copy_pieces (hz : z.Lawful) {m₁ m₂ : Mem} {memory : Ptr}
    {size : Nat} (h : Filled z m₁ memory size inner m₂)
    (hdisj : Disjoint (span memory size) inner.range) :
    ∃ copy pieces pieces', copy.length = inner.patchedOriginalBytes.length ∧
      m₂.Holds inner.codeCallOriginal copy ∧
      splitCode z inner.patchedOriginalBytes = some pieces ∧
      splitCode z copy = some pieces' ∧
      (∀ p ∈ pieces, p.Relocates inner.targetFunc inner.codeCallOriginal) ∧
      List.Forall₂ (Piece.RelocatedTo inner.targetFunc inner.codeCallOriginal)
        pieces pieces' := by
  obtain ⟨copy, hreloc, hlen, hcall, -⟩ := h.holds
  rw [← h.callOriginal] at hreloc hcall
  have hne : inner.targetFunc ≠ inner.codeCallOriginal := by
    intro heq
    have hpage : inner.codeCallOriginal ∈ span memory size := by
      rw [h.callOriginal, mem_span, BitVec.sub_self]
      exact lt_of_lt_of_le (by decide) h.size_ge
    have htarget : inner.targetFunc ∈ inner.range := by
      rw [range, mem_span, BitVec.sub_self]
      exact lt_of_lt_of_le (by decide) h.length_ge
    exact Set.disjoint_left.mp hdisj hpage (heq ▸ htarget)
  obtain ⟨-, pieces, hsplit, hpieces, rfl⟩ :=
    (relocateCode_eq_ok hz hne).mp (hreloc 0)
  obtain ⟨pieces', hsplit', hrel, hcopy⟩ := splitFrom_image inner.targetFunc
    inner.codeCallOriginal hz hsplit
  refine ⟨_, pieces, pieces', hlen, (Memory.holds_append.mp hcall).1, hsplit,
    ?_, hpieces, hrel⟩
  rw [splitCode, hcopy]
  exact hsplit'

theorem UnaffectedCopy.unique {m : Mem} {copy copy' : List Byte}
    {pieces pieces' : List Piece}
    (h : UnaffectedCopy z width inner m copy pieces)
    (hlen : copy'.length = inner.patchedOriginalBytes.length)
    (hholds : m.Holds inner.codeCallOriginal copy')
    (hsplit : splitCode z copy' = some pieces') : pieces = pieces' := by
  have hread := Memory.read_eq_some_iff.mpr ⟨h.length_eq, h.holds⟩
  have hread' := Memory.read_eq_some_iff.mpr ⟨hlen, hholds⟩
  obtain rfl : copy = copy' := Option.some.inj (hread.symm.trans hread')
  exact Option.some.inj (h.split.symm.trans hsplit)

theorem Filled.unaffected_iff (hz : z.Lawful) {m₁ m₂ : Mem} {memory : Ptr}
    {size : Nat} (h : Filled z m₁ memory size inner m₂)
    (hdisj : Disjoint (span memory size) inner.range) :
    CallOriginalUnaffected z width inner m₂ ↔
      ∀ pieces, splitCode z inner.patchedOriginalBytes = some pieces →
        ∀ p ∈ pieces, p.Avoids width inner.targetFunc inner.codeCallOriginal
          inner.range := by
  obtain ⟨copy, pieces, pieces', hlen, hholds, hsplit, hsplit', hreloc, hrel⟩ :=
    h.copy_pieces hz hdisj
  have hrefers : (∀ p ∈ pieces', Disjoint (ipReferences width p.ins p.bytes
      (inner.codeCallOriginal + BitVec.ofNat 64 p.offset)) inner.range) ↔
      ∀ p ∈ pieces, p.Avoids width inner.targetFunc inner.codeCallOriginal
        inner.range :=
    forall_disjoint_references hz (splitCode_decoded hsplit) hreloc hrel
  have hsize := h.length_lt
  have houtside : Disjoint (span inner.codeCallOriginal copy.length)
      inner.range := by
    refine hdisj.mono_left (subset_trans (span_mono ?_) h.callOriginal_inside)
    omega
  constructor
  · rintro ⟨copy₀, pieces₀, hcopy⟩ pieces'' hsplit''
    cases Option.some.inj (hsplit.symm.trans hsplit'')
    obtain rfl := hcopy.unique hlen hholds hsplit'
    exact hrefers.mp hcopy.refers
  · intro havoids
    have hno := hrefers.mpr (havoids pieces hsplit)
    refine ⟨copy, pieces', hlen, hholds, hsplit', hno, ?_⟩
    intro σ cpu os m m' inner' hinstall n s hrun
    exact effects_of_refers hz (by omega) hsplit' houtside hno cpu hinstall hrun

theorem unaffected_of_empty {m : Mem} (h : inner.patchedOriginalBytes = []) :
    CallOriginalUnaffected z width inner m := by
  refine ⟨[], [], by rw [h], Memory.holds_nil _ _, rfl, by simp, ?_⟩
  intro σ cpu os m₁ m₂ inner' hinstall
  have hlong := (prepareInstall_eq_ok (install_eq_ok_iff.mp hinstall).1).2.2.1
  rw [h] at hlong
  cases hlong

end New

/-- Calling the original of a hook on an existing function is unaffected by the
patch exactly if the function's head does not refer to itself. -/
theorem callOriginalUnaffected_iff {z : Zydis} (hz : z.Lawful)
    (width : ZydisDecodedInstruction → ZydisDecodedOperand → Nat) {os : Os}
    {p p' : Process} {name : String} {target detour out : Ptr} {inner : Inner}
    (h : new z os p name target detour out = (.ok inner, p'))
    (hmapped : ∀ x ∈ inner.range, p.mem x ≠ none) :
    CallOriginalUnaffected z width inner p'.mem ↔
      NoSelfReference z width os p.mem target := by
  have hcopied := new_copiedHead hz h
  have houtcome := new_outcome hz os p name target detour out
  rw [h] at houtcome
  cases houtcome with
  | noTarget d resolved =>
      refine iff_of_true (unaffected_of_empty rfl) ?_
      intro t memory head hhead
      exact absurd hhead (copiedHead_zero (resolveArgs_eq_ok resolved).1 _)
  | constructed inner page m₁ m₂ resolved nonnull fresh filled named output =>
      have hdisj := disjoint_of_fresh fresh.unmapped hmapped
      have hlong := filled.length_ge
      obtain ⟨hempty, -⟩ | hhead := hcopied
      · rw [hempty] at hlong
        cases hlong
      · rw [Process.setOut_mem]
        refine (filled.unaffected_iff hz hdisj).trans ?_
        unfold NoSelfReference
        rw [hhead]
        constructor
        · intro hsafe t memory head heq
          cases heq
          exact hsafe
        · intro hsafe
          exact hsafe _ _ _ rfl

def quadWidth : ZydisDecodedInstruction → ZydisDecodedOperand → Nat :=
  fun _ _ => 8

theorem callOriginalUnaffected_nop :
    CallOriginalUnaffected (tableZydis smallTable) quadWidth nopInner
      nopHooked.mem := by
  refine (callOriginalUnaffected_iff (tableZydis_lawful smallTable) quadWidth
    new_nop nop_mapped).mpr ?_
  have hcopied : copiedHead (tableZydis smallTable) smallOs nopProcess.mem
      0x1000 = .ok (0x1000, 0xF00, [0x90, 0x90, 0x90, 0x90, 0x90]) := by
    decide +kernel
  intro t memory head hhead pieces hsplit p hp op hop
  rw [hcopied] at hhead
  cases hhead
  have hplain : ((splitCode (tableZydis smallTable)
      [0x90, 0x90, 0x90, 0x90, 0x90]).map fun pieces =>
        pieces.all fun p => p.ins.operands.isEmpty) = some true := by
    decide
  rw [hsplit, Option.map_some, Option.some.injEq, List.all_eq_true] at hplain
  rw [List.isEmpty_iff.mp (hplain p hp)] at hop
  cases hop

/-! ## A function that loads its own first bytes -/

def selfReadingProcess : Process where
  mem := Memory.write (Memory.write (fun _ => none) 0x1000
    [0x48, 0x8B, 0x05, 0xF9, 0xFF, 0xFF, 0xFF, 0xC3]) 0x2000 [0x90]
  outs := fun _ => 0
  pages := []

def loadAddress (m : Mem) (pc : Ptr) : Option Ptr :=
  match m.read pc 7 with
  | some (0x48 :: 0x8B :: 0x05 :: disp) =>
      some (pc + 7 + (leWord 32 disp).signExtend 64)
  | _ => none

theorem loadAddress_eq_some {m : Mem} {pc address : Ptr}
    (h : loadAddress m pc = some address) :
    ∃ disp, m.read pc 7 = some (0x48 :: 0x8B :: 0x05 :: disp) ∧
      address = pc + 7 + (leWord 32 disp).signExtend 64 := by
  unfold loadAddress at h
  split at h
  · rename_i disp hread
    cases h
    exact ⟨disp, hread, rfl⟩
  · cases h

theorem span_loadAddress_subset {m : Mem} {pc address : Ptr}
    {buffer : List Byte} {ins : ZydisDecodedInstruction}
    (hload : loadAddress m pc = some address)
    (hdec : (tableZydis smallTable).decode buffer = some ins)
    (hholds : m.Holds pc (buffer.take ins.length)) :
    ins.length = 7 ∧ span address 8 ⊆
      ipReferences quadWidth ins (buffer.take ins.length) pc := by
  obtain ⟨disp, hread, rfl⟩ := loadAddress_eq_some hload
  obtain ⟨hlen, hcode⟩ := Memory.read_eq_some_iff.mp hread
  have hbound := (tableZydis_lawful smallTable).length_le hdec
  have hpos := ins.length_pos
  obtain ⟨byte, bytes, rfl⟩ : ∃ byte bytes, buffer = byte :: bytes :=
    List.exists_cons_of_length_pos (by omega)
  obtain rfl : byte = 0x48 := by
    have hfirst := hholds 0 (by rw [List.length_take]; omega)
    rw [hcode 0 (by simp), List.getElem_take] at hfirst
    exact (Option.some.inj hfirst).symm
  change tableDecode smallTable (0x48 :: bytes) = some ins at hdec
  obtain ⟨form, hform, -, rfl⟩ := tableDecode_eq_some.mp hdec
  have hmov : some movRipForm = some form := hform
  cases hmov
  have hbytes : (0x48 :: bytes).take 7 = 0x48 :: 0x8B :: 0x05 :: disp := by
    have htaken := Memory.read_eq_some_iff.mpr
      ⟨List.length_take_of_le hbound, hholds⟩
    exact Option.some.inj (htaken.symm.trans hread)
  have hdisp : movRipForm.field.signed ((0x48 :: bytes).take 7) =
      (leWord 32 disp).signExtend 64 := by
    have hfour : disp.take 4 = disp := by
      simp only [List.length_cons] at hlen
      exact List.take_of_length_le (by omega)
    rw [hbytes]
    change (leWord 32 (disp.take 4)).signExtend 64 =
      (leWord 32 disp).signExtend 64
    rw [hfour]
  refine ⟨rfl, fun x hx => ⟨_, List.mem_singleton_self _, rfl, ?_⟩⟩
  rw [← hdisp] at hx
  exact hx

def loadCpu : Cpu (tableZydis smallTable) quadWidth (Ptr × BitVec 64) where
  step := fun s m => do
    let address ← loadAddress m s.1
    let value ← Memory.read m address 8
    some ((s.1 + 7, leWord 64 value), [])
  reads := fun s m => span s.1 7 ∪
    match loadAddress m s.1 with
    | some address => span address 8
    | none => ∅
  step_congr := by
    intro s m m' hagree
    have hcode : Memory.read m' s.1 7 = Memory.read m s.1 7 :=
      Memory.read_congr (by decide) fun x hx => hagree (.inl hx)
    have haddress : loadAddress m' s.1 = loadAddress m s.1 := by
      unfold loadAddress
      rw [hcode]
    rw [haddress]
    cases hload : loadAddress m s.1 with
    | none => rfl
    | some address =>
        have hvalue : Memory.read m' address 8 = Memory.read m address 8 := by
          refine Memory.read_congr (by decide) fun x hx => hagree (.inr ?_)
          rw [hload]
          exact hx
        simp only [Option.bind_eq_bind, Option.bind_some, hvalue]
  pc := Prod.fst
  otherReads := fun s m => if loadAddress m s.1 = none then span s.1 7 else ∅
  reads_subset := by
    intro s m buffer ins hdec hholds
    cases hload : loadAddress m s.1 with
    | none =>
        rw [if_pos rfl]
        exact Set.union_subset Set.subset_union_right (Set.empty_subset _)
    | some address =>
        obtain ⟨hlen, hsubset⟩ := span_loadAddress_subset hload hdec hholds
        rw [hlen]
        refine Set.union_subset ?_ ?_
        · exact fun x hx => .inl (.inl hx)
        · exact fun x hx => .inl (.inr (hlen ▸ hsubset hx))

def selfReadingInner : Inner where
  isInstalled := false
  name := "load"
  targetFunc := 0x1000
  detourFunc := 0x2000
  patchedOriginalBytes := [0x48, 0x8B, 0x05, 0xF9, 0xFF, 0xFF, 0xFF]
  codeEnterDetour := 0xF15
  codeCallOriginal := 0xF00
  outputOriginalFunc := 0x3000
  codePage := some ⟨0x100, 0xF00, 35, by decide⟩

def selfReadingHooked : Process :=
  (new (tableZydis smallTable) smallOs selfReadingProcess "load" 0x1000 0x2000
    0x3000).2

theorem new_selfReading : new (tableZydis smallTable) smallOs selfReadingProcess
    "load" 0x1000 0x2000 0x3000 = (.ok selfReadingInner, selfReadingHooked) := by
  have hinner : (new (tableZydis smallTable) smallOs selfReadingProcess "load"
      0x1000 0x2000 0x3000).1 = .ok selfReadingInner := by
    decide +kernel
  exact eq_mk_of_fst hinner

/-- The copy loads from the head, where the patch is once it is installed. -/
theorem callOriginalUnaffected_selfReading :
    new (tableZydis smallTable) smallOs selfReadingProcess "load" 0x1000 0x2000
        0x3000 = (.ok selfReadingInner, selfReadingHooked) ∧
      ¬ CallOriginalUnaffected (tableZydis smallTable) quadWidth
        selfReadingInner selfReadingHooked.mem ∧
      loadCpu.trace 1 (0xF00, 0) selfReadingHooked.mem =
        [((0xF07, 0xC3FFFFFFF9058B48), [])] ∧
      (selfReadingInner.install smallOs selfReadingHooked.mem).1 = .ok () ∧
      loadCpu.trace 1 (0xF00, 0)
          (selfReadingInner.install smallOs selfReadingHooked.mem).2.2 =
        [((0xF07, 0xC39090FFFFFF10E9), [])] := by
  refine ⟨new_selfReading, ?_, by decide +kernel, by decide +kernel,
    by decide +kernel⟩
  rintro ⟨copy, pieces, h⟩
  have hread : selfReadingHooked.mem.read 0xF00 7 =
      some [0x48, 0x8B, 0x05, 0xF9, 0x00, 0x00, 0x00] := by
    decide +kernel
  obtain ⟨hlen, hholds⟩ := Memory.read_eq_some_iff.mp hread
  have hsplit : splitCode (tableZydis smallTable)
      [0x48, 0x8B, 0x05, 0xF9, 0x00, 0x00, 0x00] =
      some [⟨0, movRipForm.instruction [0x48, 0x8B, 0x05, 0xF9, 0x00, 0x00, 0x00],
        [0x48, 0x8B, 0x05, 0xF9, 0x00, 0x00, 0x00]⟩] := by
    decide
  obtain rfl := h.unique hlen hholds hsplit
  have hrefers := disjoint_ipReferences.mp (h.refers _ List.mem_cons_self) _
    List.mem_cons_self rfl
  have hhead : (0x1000 : Ptr) ∈ selfReadingInner.range := by
    rw [range, mem_span]
    decide
  refine Set.disjoint_left.mp hrefers ?_ hhead
  rw [operandBytes, mem_span]
  decide

end Inner

end Ztour
