import Ztour.Foundation.Simulation
import Ztour.HookInst.Independence
import Ztour.HookInst.SelfReference

/-!
# Calling the original of an installed hook

The relocated head and the jump behind it are code at another address.  A
processor that runs them makes the stores that it would have made in the
unhooked function, and comes out of the head in the same state.
-/

namespace Ztour

open Ztour.Foundation ZydisDecodedOperand

/-! ## Walking through the pieces of a head -/

section Pieces

variable {z : Zydis} {fuel offset : Nat} {code : List Byte}
  {pieces : List Piece}

theorem splitFrom_holds {m : Mem} {base : Ptr} (hz : z.Lawful)
    (h : splitFrom z fuel offset code = some pieces)
    (hholds : m.Holds (base + BitVec.ofNat 64 offset) code) :
    ∀ p ∈ pieces, m.Holds (base + BitVec.ofNat 64 p.offset) p.bytes := by
  induction fuel generalizing offset code pieces with
  | zero =>
      cases code with
      | nil =>
          cases h
          simp
      | cons byte bytes => cases h
  | succ fuel ih =>
      cases code with
      | nil =>
          cases h
          simp
      | cons byte bytes =>
          obtain ⟨ins, tail, hdec, htail, rfl⟩ := splitFrom_cons.mp h
          have hlen := List.length_take_of_le (hz.length_le hdec)
          rw [← List.take_append_drop ins.length (byte :: bytes),
            Memory.holds_append, hlen, BitVec.add_assoc,
            ← BitVec.ofNat_add] at hholds
          rw [List.forall_mem_cons]
          exact ⟨hholds.1, ih htail hholds.2⟩

theorem splitFrom_next (hz : z.Lawful)
    (h : splitFrom z fuel offset code = some pieces) :
    (code = [] ∨ ∃ p ∈ pieces, p.offset = offset) ∧
      ∀ p ∈ pieces, p.offset + p.ins.length = offset + code.length ∨
        ∃ q ∈ pieces, q.offset = p.offset + p.ins.length := by
  induction fuel generalizing offset code pieces with
  | zero =>
      cases code with
      | nil =>
          cases h
          simp
      | cons byte bytes => cases h
  | succ fuel ih =>
      cases code with
      | nil =>
          cases h
          simp
      | cons byte bytes =>
          obtain ⟨ins, tail, hdec, htail, rfl⟩ := splitFrom_cons.mp h
          obtain ⟨hfirst, hnext⟩ := ih htail
          have hlen := hz.length_le hdec
          have hdrop := List.length_drop (i := ins.length) (l := byte :: bytes)
          refine ⟨.inr ⟨_, List.mem_cons_self, rfl⟩, ?_⟩
          rw [List.forall_mem_cons]
          constructor
          · rcases hfirst with hnil | ⟨q, hq, hoffset⟩
            · rw [hnil, List.length_nil] at hdrop
              left
              dsimp only
              omega
            · exact .inr ⟨q, List.mem_cons_of_mem _ hq, hoffset⟩
          · intro p hp
            rcases hnext p hp with hend | ⟨q, hq, hoffset⟩
            · left
              omega
            · exact .inr ⟨q, List.mem_cons_of_mem _ hq, hoffset⟩

end Pieces

theorem forall₂_exists {α β : Type} {R : α → β → Prop} {xs : List α}
    {ys : List β} (h : List.Forall₂ R xs ys) :
    ∀ x ∈ xs, ∃ y ∈ ys, R x y := by
  induction h with
  | nil => simp
  | @cons x y xs ys hxy _ ih =>
      rw [List.forall_mem_cons]
      refine ⟨⟨y, List.mem_cons_self, hxy⟩, fun x' hx' => ?_⟩
      obtain ⟨y', hy', hrelated⟩ := ih x' hx'
      exact ⟨y', List.mem_cons_of_mem _ hy', hrelated⟩

/-! ## Processors that can be started anywhere -/

/--
A processor with its instruction pointer as a register.  What an instruction
does depends on where it stands only through its instruction-pointer-relative
operands, unless it makes its address visible, as calls do; what `transfers`
control loads the instruction pointer instead of advancing it.
-/
structure Processor (z : Zydis)
    (width : ZydisDecodedInstruction → ZydisDecodedOperand → Nat) (σ : Type)
    extends Cpu z width σ where
  setPc : σ → Ptr → σ
  transfers : List Byte → Bool
  exposesIp : List Byte → Bool
  pc_setPc : ∀ s address, pc (setPc s address) = address
  setPc_pc : ∀ s, setPc s (pc s) = s
  setPc_setPc : ∀ s address address',
    setPc (setPc s address) address' = setPc s address'
  step_jump : ∀ {s m target}, jumpTarget m (pc s) = some target →
    step s m = some (setPc s target, [])
  step_next : ∀ {p : Piece} {s s'} {m : Mem} {stores}, p.Decoded z →
    (∀ op ∈ p.ins.operands, op.isBranch = false) →
    m.Holds (pc s) p.bytes → transfers p.bytes = false →
    step s m = some (s', stores) →
    pc s' = pc s + BitVec.ofNat 64 p.ins.length
  step_moved : ∀ {source dest : Ptr} {p p' : Piece} {s} {m m' : Mem},
    p.Decoded z → p'.Decoded z → PieceSound source dest p p' →
    (∀ op ∈ p.ins.operands, op.isBranch = false) →
    exposesIp p.bytes = false → pc s = source + BitVec.ofNat 64 p.offset →
    m.Holds (pc s) p.bytes →
    m'.Holds (dest + BitVec.ofNat 64 p.offset) p'.bytes →
    Set.EqOn m' m (ipReferences width p.ins p.bytes (pc s) ∪ otherReads s m) →
    step (setPc s (dest + BitVec.ofNat 64 p.offset)) m' =
      (step s m).map fun next =>
        (if transfers p.bytes then next.1
          else setPc next.1 (dest + BitVec.ofNat 64 (p.offset + p.ins.length)),
          next.2)

namespace Inner

def footprint (inner : Inner) : Set Ptr :=
  {x | ∃ page, inner.codePage = some page ∧ x ∈ page.range} ∪ inner.range

section Simulation

variable {z : Zydis} {σ : Type}
  {width : ZydisDecodedInstruction → ZydisDecodedOperand → Nat}

/-- No instruction of the head shows its address or refers to `EIP`. -/
def MovableHead (cpu : Processor z width σ) (inner : Inner) : Prop :=
  ∀ pieces, splitCode z inner.patchedOriginalBytes = some pieces →
    ∀ p ∈ pieces, cpu.exposesIp p.bytes = false ∧ ¬ HasEipOperand p

/--
One step of the unhooked function that knows nothing of the hook.  It stores
nothing to the footprint and reads there nothing but the instructions of the
head, which it enters only by advancing from one of them to the next.
-/
structure Unaware (cpu : Processor z width σ) (inner : Inner) (s : σ)
    (m : Mem) : Prop where
  stores : ∀ s' stores, cpu.step s m = some (s', stores) →
    ∀ cell ∈ stores, cell.1 ∉ inner.footprint
  inside : ∀ pieces, splitCode z inner.patchedOriginalBytes = some pieces →
    ∀ p ∈ pieces, cpu.pc s = inner.targetFunc + BitVec.ofNat 64 p.offset →
    Disjoint (ipReferences width p.ins p.bytes (cpu.pc s) ∪ cpu.otherReads s m)
      inner.footprint
  outside : cpu.pc s ∉ inner.range →
    Disjoint (cpu.reads s m) inner.footprint
  enters : ∀ s' stores, cpu.step s m = some (s', stores) →
    cpu.pc s' ∈ inner.range → cpu.pc s ∈ inner.range ∧
      ∀ pieces, splitCode z inner.patchedOriginalBytes = some pieces →
        ∀ p ∈ pieces, cpu.pc s = inner.targetFunc + BitVec.ofNat 64 p.offset →
          cpu.transfers p.bytes = false

structure CopiedHead (z : Zydis) (inner : Inner) (hooked : Mem)
    (pieces : List Piece) : Prop where
  nonempty : inner.patchedOriginalBytes ≠ []
  length_lt : inner.patchedOriginalBytes.length < 20
  split : splitCode z inner.patchedOriginalBytes = some pieces
  plain : ∀ p ∈ pieces, ∀ op ∈ p.ins.operands, op.isBranch = false
  copied : ∀ p ∈ pieces, ∃ p' : Piece, p'.Decoded z ∧
    PieceSound inner.targetFunc inner.codeCallOriginal p p' ∧
    hooked.Holds (inner.codeCallOriginal + BitVec.ofNat 64 p.offset) p'.bytes
  resumes : hooked.Holds (inner.codeCallOriginal +
      BitVec.ofNat 64 inner.patchedOriginalBytes.length)
    (absJumpBytes (inner.targetFunc +
      BitVec.ofNat 64 inner.patchedOriginalBytes.length))
  inside : span inner.codeCallOriginal
    (inner.patchedOriginalBytes.length + 14) ⊆ inner.footprint

/--
The unhooked function is in state `s`, the hooked one in `s'`: at the copy of
the same instruction, or outside the head in the same state.
-/
structure Follows (cpu : Processor z width σ) (inner : Inner) (hooked : Mem)
    (pieces : List Piece) (s : σ) (m : Mem) (s' : σ) (m' : Mem) : Prop where
  agree : Set.EqOn m' m inner.footprintᶜ
  head : m.Holds inner.targetFunc inner.patchedOriginalBytes
  kept : Set.EqOn m' hooked inner.footprint
  control : (cpu.pc s ∉ inner.range ∧ s' = s) ∨
    ∃ p ∈ pieces, cpu.pc s = inner.targetFunc + BitVec.ofNat 64 p.offset ∧
      s' = cpu.setPc s (inner.codeCallOriginal + BitVec.ofNat 64 p.offset)

section Follows

variable {cpu : Processor z width σ} {inner : Inner} {hooked : Mem}
  {pieces : List Piece} {s s' : σ} {m m' : Mem}

theorem CopiedHead.at_piece (hz : z.Lawful) (h : CopiedHead z inner hooked pieces)
    (hfollows : Follows cpu inner hooked pieces s m s' m') {p : Piece}
    (hp : p ∈ pieces)
    (hpc : cpu.pc s = inner.targetFunc + BitVec.ofNat 64 p.offset) :
    p.Decoded z ∧ cpu.pc s ∈ inner.range ∧ m.Holds (cpu.pc s) p.bytes ∧
      ∃ p' : Piece, p'.Decoded z ∧
        PieceSound inner.targetFunc inner.codeCallOriginal p p' ∧
        m'.Holds (inner.codeCallOriginal + BitVec.ofNat 64 p.offset) p'.bytes := by
  have hdec := splitCode_decoded h.split p hp
  have hlen := Piece.length_bytes hz hdec
  have hpos := p.ins.length_pos
  have hlt := h.length_lt
  have hbound := splitFrom_offset_le hz h.split p hp
  rw [Nat.zero_add] at hbound
  obtain ⟨p', hdec', hsound, hcopy⟩ := h.copied p hp
  refine ⟨hdec, ?_, ?_, p', hdec', hsound, ?_⟩
  · rw [hpc]
    exact offset_mem_span (by omega) (by omega)
  · rw [hpc]
    refine splitFrom_holds hz h.split ?_ p hp
    rw [BitVec.add_zero]
    exact hfollows.head
  · have hlen' := hsound.length
    refine hcopy.congr (by omega) fun x hx => hfollows.kept (h.inside ?_)
    exact span_offset_subset (by omega) (by omega) hx

theorem CopiedHead.jumpTarget_eq (h : CopiedHead z inner hooked pieces)
    (hkept : Set.EqOn m' hooked inner.footprint) :
    jumpTarget m' (inner.codeCallOriginal +
        BitVec.ofNat 64 inner.patchedOriginalBytes.length) =
      some (inner.targetFunc +
        BitVec.ofNat 64 inner.patchedOriginalBytes.length) := by
  have hlt := h.length_lt
  refine jumpTarget_absJump (h.resumes.congr (by simp) fun x hx => hkept ?_)
  rw [length_absJumpBytes] at hx
  exact h.inside (span_offset_subset (by omega) (by omega) hx)

theorem Follows.store (h : Follows cpu inner hooked pieces s m s' m')
    (hlen : inner.patchedOriginalBytes.length < 20) {stores : Stores 64 Byte}
    (hclear : ∀ cell ∈ stores, cell.1 ∉ inner.footprint) :
    Set.EqOn (m'.store stores) (m.store stores) inner.footprintᶜ ∧
      (m.store stores).Holds inner.targetFunc inner.patchedOriginalBytes ∧
      Set.EqOn (m'.store stores) hooked inner.footprint := by
  refine ⟨fun x hx => Memory.store_congr _ (h.agree hx), ?_, ?_⟩
  · exact h.head.congr (by omega) fun x hx => Memory.eqOn_store hclear (.inr hx)
  · exact (Memory.eqOn_store hclear).trans h.kept

theorem end_not_mem_range (hlen : inner.patchedOriginalBytes.length < 20) :
    inner.targetFunc + BitVec.ofNat 64 inner.patchedOriginalBytes.length ∉
      inner.range := by
  rw [range, mem_span, offset_toNat (by omega)]
  exact Nat.lt_irrefl _

theorem Follows.step_copy (hz : z.Lawful) (h : CopiedHead z inner hooked pieces)
    (hmove : inner.MovableHead cpu)
    (hfollows : Follows cpu inner hooked pieces s m s' m')
    (hunaware : Unaware cpu inner s m) {p : Piece} (hp : p ∈ pieces)
    (hpc : cpu.pc s = inner.targetFunc + BitVec.ofNat 64 p.offset)
    (hs : s' = cpu.setPc s
      (inner.codeCallOriginal + BitVec.ofNat 64 p.offset)) :
    cpu.step s' m' = (cpu.step s m).map fun next =>
      (if cpu.transfers p.bytes then next.1
        else cpu.setPc next.1 (inner.codeCallOriginal +
          BitVec.ofNat 64 (p.offset + p.ins.length)), next.2) := by
  obtain ⟨hdec, -, hholds, p', hdec', hsound, hcopy⟩ :=
    h.at_piece hz hfollows hp hpc
  have hreads := hunaware.inside pieces h.split p hp hpc
  rw [hs]
  exact cpu.step_moved hdec hdec' hsound (h.plain p hp)
    (hmove pieces h.split p hp).1 hpc hholds hcopy
    (hfollows.agree.mono hreads.subset_compl_right)

theorem Follows.step_outside
    (hfollows : Follows cpu inner hooked pieces s m s' m')
    (hunaware : Unaware cpu inner s m) (hout : cpu.pc s ∉ inner.range) :
    cpu.step s m' = cpu.step s m :=
  cpu.step_congr
    (hfollows.agree.mono (hunaware.outside hout).subset_compl_right)

theorem CopiedHead.step_back (h : CopiedHead z inner hooked pieces)
    (hkept : Set.EqOn m' hooked inner.footprint)
    (hpc : cpu.pc s = inner.targetFunc +
      BitVec.ofNat 64 inner.patchedOriginalBytes.length) :
    cpu.step (cpu.setPc s (inner.codeCallOriginal +
        BitVec.ofNat 64 inner.patchedOriginalBytes.length)) m' =
      some (s, []) := by
  have hjump := cpu.step_jump (s := cpu.setPc s (inner.codeCallOriginal +
    BitVec.ofNat 64 inner.patchedOriginalBytes.length))
    (by rw [cpu.pc_setPc]; exact h.jumpTarget_eq hkept)
  rw [cpu.setPc_setPc, ← hpc, cpu.setPc_pc] at hjump
  exact hjump

/-- One step of the unhooked function is one of the hooked one; behind the last
instruction of the head, the jump back is a second one. -/
theorem CopiedHead.simulation (hz : z.Lawful)
    (h : CopiedHead z inner hooked pieces) (hmove : inner.MovableHead cpu) :
    MemoryMachine.Simulation cpu.toMemoryMachine cpu.toMemoryMachine
      (Unaware cpu inner) (Follows cpu inner hooked pieces) where
  step := by
    intro s m s' m' s₁ stores hfollows hunaware hstep
    obtain ⟨hagree, hhead, hkept⟩ := hfollows.store h.length_lt
      (hunaware.stores s₁ stores hstep)
    rcases hfollows.control with ⟨hout, rfl⟩ | ⟨p, hp, hpc, hs⟩
    · have hstep' := (hfollows.step_outside hunaware hout).trans hstep
      have hout₁ : cpu.pc s₁ ∉ inner.range := fun hin =>
        hout (hunaware.enters s₁ stores hstep hin).1
      exact ⟨1, s₁, Nat.one_pos, MemoryMachine.exec_one hstep',
        hagree, hhead, hkept, .inl ⟨hout₁, rfl⟩⟩
    · have hstep' := hfollows.step_copy hz h hmove hunaware hp hpc hs
      obtain ⟨hdec, -, hholds, -⟩ := h.at_piece hz hfollows hp hpc
      rw [hstep, Option.map_some] at hstep'
      dsimp only at hstep'
      cases htransfers : cpu.transfers p.bytes with
      | true =>
          rw [htransfers, if_pos rfl] at hstep'
          have hout₁ : cpu.pc s₁ ∉ inner.range := by
            intro hin
            have hplain := (hunaware.enters s₁ stores hstep hin).2 pieces
              h.split p hp hpc
            rw [htransfers] at hplain
            cases hplain
          exact ⟨1, s₁, Nat.one_pos, MemoryMachine.exec_one hstep',
            hagree, hhead, hkept, .inl ⟨hout₁, rfl⟩⟩
      | false =>
          rw [htransfers, if_neg Bool.false_ne_true] at hstep'
          have hpc₁ : cpu.pc s₁ = inner.targetFunc +
              BitVec.ofNat 64 (p.offset + p.ins.length) := by
            rw [cpu.step_next hdec (h.plain p hp) hholds htransfers hstep, hpc,
              BitVec.add_assoc, ← BitVec.ofNat_add]
          rcases (splitFrom_next hz h.split).2 p hp with hend | ⟨q, hq, hoffset⟩
          · rw [Nat.zero_add] at hend
            rw [hend] at hpc₁ hstep'
            have htwo := MemoryMachine.exec_append
              (MemoryMachine.exec_one hstep')
              (MemoryMachine.exec_one (h.step_back hkept hpc₁))
            rw [List.append_nil] at htwo
            have hout₁ : cpu.pc s₁ ∉ inner.range := by
              rw [hpc₁]
              exact end_not_mem_range h.length_lt
            exact ⟨2, s₁, Nat.two_pos, htwo, hagree, hhead, hkept,
              .inl ⟨hout₁, rfl⟩⟩
          · rw [← hoffset] at hpc₁ hstep'
            exact ⟨1, _, Nat.one_pos, MemoryMachine.exec_one hstep',
              hagree, hhead, hkept, .inr ⟨q, hq, hpc₁, rfl⟩⟩
  fault := by
    intro s m s' m' hfollows hunaware hfault
    rcases hfollows.control with ⟨hout, rfl⟩ | ⟨p, hp, hpc, hs⟩
    · exact (hfollows.step_outside hunaware hout).trans hfault
    · have hstep' := hfollows.step_copy hz h hmove hunaware hp hpc hs
      rw [hfault] at hstep'
      exact hstep'

end Follows

/-! ## From construction and installation -/

section Hooked

variable {os : Os} {p p' : Process} {name : String} {target detour out : Ptr}
  {inner : Inner} {page : MemPage} {m : Mem}

theorem new_saved (hz : z.Lawful)
    (h : new z os p name target detour out = (.ok inner, p'))
    (hmapped : ∀ x ∈ inner.range, p.mem x ≠ none) :
    p.mem.Holds inner.targetFunc inner.patchedOriginalBytes := by
  have houtcome := new_outcome hz os p name target detour out
  rw [h] at houtcome
  intro i hi
  refine houtcome.saved_bytes hi (hmapped _ ?_)
  rw [range, mem_span, BitVec.add_comm, BitVec.add_sub_cancel,
    BitVec.toNat_ofNat]
  exact lt_of_le_of_lt (Nat.mod_le _ _) hi

theorem Detoured.range_subset (h : Detoured z p p' out inner page m) :
    page.range ∪ inner.range = inner.footprint := by
  ext x
  simp [footprint, h.codePage]

theorem Detoured.copiedHead (hz : z.Lawful) {cpu : Processor z width σ}
    (h : Detoured z p p' out inner page m)
    (hmapped : ∀ x ∈ inner.range, p.mem x ≠ none)
    (hmove : inner.MovableHead cpu) :
    ∃ pieces, CopiedHead z inner m pieces := by
  obtain ⟨reloc, hreloc, hlen, hcall⟩ := h.callOriginal
  have hne : inner.targetFunc ≠ inner.codeCallOriginal := by
    intro heq
    have hlong := h.length_ge
    have hmax := h.length_le
    have hhead : inner.targetFunc ∈ inner.range := by
      rw [range, mem_span, BitVec.sub_self]
      exact lt_of_lt_of_le (by decide) hlong
    have hcopy : inner.targetFunc ∈ page.range := by
      refine h.callOriginal_inside ?_
      rw [heq, mem_span, BitVec.sub_self]
      exact lt_of_lt_of_le (by decide) (Nat.le_add_left 14 _)
    exact hmapped _ hhead (h.fresh _ hcopy)
  obtain ⟨hnil, pieces, hsplit, hpieces, rfl⟩ :=
    (relocateCode_eq_ok hz hne).mp (hreloc 0)
  obtain ⟨pieces', hsplit', hrel, -⟩ := splitFrom_image inner.targetFunc
    inner.codeCallOriginal hz hsplit
  obtain ⟨hcode, hjump⟩ := Memory.holds_append.mp hcall
  have hdec := splitCode_decoded hsplit
  refine ⟨pieces,
    { nonempty := hnil
      length_lt := Nat.lt_succ_of_le h.length_le
      split := hsplit
      plain := fun q hq op hop => (hpieces q hq op hop).1
      copied := ?_
      resumes := hlen ▸ hjump
      inside := ?_ }⟩
  · intro q hq
    obtain ⟨q', hq', hrelated⟩ := forall₂_exists hrel q hq
    have hsound := (pieceSound_iff hz (hdec q hq) (hpieces q hq) hrelated).mpr
      (.inr (hmove pieces hsplit q hq).2)
    refine ⟨q', splitFrom_decoded hsplit' q' hq', hsound, ?_⟩
    rw [← hsound.offset]
    refine splitFrom_holds hz hsplit' ?_ q' hq'
    rw [BitVec.add_zero]
    exact hcode
  · rw [← h.range_subset]
    exact h.callOriginal_inside.trans Set.subset_union_left

end Hooked

end Simulation

/--
A call of a hooked function is in the detour after two jumps that change
nothing else.  A call through the output variable makes the stores that the
unhooked function would make, in their order, faults where that one faults, and
leaves the head of the function in the same state.
-/
theorem callOriginal_simulates {z : Zydis} (hz : z.Lawful)
    {width : ZydisDecodedInstruction → ZydisDecodedOperand → Nat} {σ : Type}
    (cpu : Processor z width σ) {os os' : Os} {p p' : Process} {name : String}
    {target detour out : Ptr} {inner inner' : Inner} {m : Mem}
    (hnew : new z os p name target detour out = (.ok inner, p'))
    (hinstall : inner.install os' p'.mem = (.ok (), inner', m))
    (hmapped : ∀ x ∈ inner.range, p.mem x ≠ none)
    (hmove : inner.MovableHead cpu) {s : σ}
    (hentry : cpu.pc s = inner.targetFunc) :
    cpu.exec 2 s m = some (cpu.setPc s inner.detourFunc, []) ∧
      ∀ n, cpu.Along (Unaware cpu inner) n s p.mem →
        (∀ s₁ stores, cpu.exec n s p.mem = some (s₁, stores) →
          ∃ k s₂, n ≤ k ∧
            cpu.exec k (cpu.setPc s (p'.outs out)) m = some (s₂, stores) ∧
            cpu.setPc s₂ (cpu.pc s₁) = s₁ ∧
            (cpu.pc s₁ ∉ inner.range → s₂ = s₁)) ∧
        (cpu.exec n s p.mem = none →
          ∃ stores, cpu.FaultsAfter s p.mem stores ∧
            cpu.FaultsAfter (cpu.setPc s (p'.outs out)) m stores) := by
  obtain ⟨-, -, page, hdetoured⟩ := (install_detoured hz).2 os p name target
    detour out inner p' os' inner' m hnew hinstall hmapped
  have hsaved := new_saved hz hnew hmapped
  constructor
  · have hfirst := cpu.step_jump (hentry.symm ▸ hdetoured.entered)
    have hsecond := cpu.step_jump (s := cpu.setPc s inner.codeEnterDetour)
      (by rw [cpu.pc_setPc]; exact hdetoured.detoured)
    rw [cpu.setPc_setPc] at hsecond
    exact MemoryMachine.exec_append (MemoryMachine.exec_one hfirst)
      (MemoryMachine.exec_one hsecond)
  · obtain ⟨pieces, hcopied⟩ := hdetoured.copiedHead hz hmapped hmove
    have hsim := hcopied.simulation hz hmove
    obtain ⟨first, hfirst, hzero⟩ :=
      (splitFrom_next hz hcopied.split).1.resolve_left hcopied.nonempty
    have hstart : Follows cpu inner m pieces s p.mem
        (cpu.setPc s (p'.outs out)) m :=
      { agree := by
          intro x hx
          rw [← hdetoured.range_subset, Set.mem_compl_iff, Set.mem_union,
            not_or] at hx
          exact hdetoured.frame x hx.1 hx.2
        head := hsaved
        kept := Set.eqOn_refl _ _
        control := .inr ⟨first, hfirst, by rw [hzero, BitVec.add_zero, hentry],
          by rw [hzero, BitVec.add_zero, hdetoured.output]⟩ }
    intro n halong
    refine ⟨fun s₁ stores hrun => ?_, hsim.exec_none hstart halong⟩
    obtain ⟨k, s₂, hk, hrun', hend⟩ := hsim.exec hstart halong hrun
    rcases hend.control with ⟨hout, rfl⟩ | ⟨q, hq, hpc, rfl⟩
    · exact ⟨k, s₂, hk, hrun', cpu.setPc_pc s₂, fun _ => rfl⟩
    · refine ⟨k, _, hk, hrun', ?_, fun hout => ?_⟩
      · rw [cpu.setPc_setPc, cpu.setPc_pc]
      · exact absurd (hcopied.at_piece hz hend hq hpc).2.1 hout

/-! ## A function that loads a constant -/

def loadingCode : List Byte := [0x48, 0x8B, 0x05, 0xF9, 0x0F, 0x00, 0x00, 0x90]

def loadingProcess : Process where
  mem := Memory.write (Memory.write (Memory.write (fun _ => none) 0x1000
    loadingCode) 0x2000 [0x2A, 0, 0, 0, 0, 0, 0, 0]) 0x3000 [0x90]
  outs := fun _ => 0
  pages := []

inductive SmallPiece (p : Piece) : Prop
  | nop (bytes : p.bytes = [0x90]) (ins : p.ins = nopForm.instruction p.bytes)
  | load (disp : List Byte) (length : disp.length = 4)
      (bytes : p.bytes = 0x48 :: 0x8B :: 0x05 :: disp)
      (ins : p.ins = movRipForm.instruction p.bytes)
  | eip (rest : List Byte) (bytes : p.bytes = 0x67 :: rest)
      (ins : p.ins = movEipForm.instruction p.bytes)
  | jump (disp : List Byte) (bytes : p.bytes = 0xE9 :: disp)
      (branch : ∃ op ∈ p.ins.operands, op.isBranch = true)

theorem smallPiece {p : Piece} (h : p.Decoded (tableZydis smallTable)) :
    SmallPiece p := by
  have hlen := Piece.length_bytes (tableZydis_lawful smallTable) h
  obtain ⟨buffer, hdec, hbytes⟩ := h
  obtain ⟨form, hfind, ⟨hopcode, hfits⟩, hins⟩ := tableDecode_eq_some.mp hdec
  have hform := List.mem_of_find?_eq_some hfind
  have hlen' : p.bytes.length = form.length := by rw [hlen, hins]; rfl
  have hins' : p.ins = form.instruction p.bytes := by
    have hsigned : form.field.signed p.bytes = form.field.signed buffer := by
      rw [hbytes, hins]
      refine RawField.signed_take ?_
      simp [InstructionForm.field, InstructionForm.instruction,
        InstructionForm.length]
    rw [hins, InstructionForm.instruction, InstructionForm.instruction, hsigned]
  obtain ⟨field, hfield⟩ : ∃ field, p.bytes = form.opcode ++ field := by
    refine ⟨p.bytes.drop form.opcode.length, ?_⟩
    have htake : p.bytes.take form.opcode.length = form.opcode := by
      rw [hbytes, List.take_take, hins, Nat.min_eq_left, hopcode]
      exact Nat.le_add_right _ _
    conv_rhs => enter [1]; rw [← htake]
    exact (List.take_append_drop _ _).symm
  simp only [smallTable, List.mem_cons, List.not_mem_nil, or_false] at hform
  rw [hfield, List.length_append, InstructionForm.length,
    Nat.add_left_cancel_iff] at hlen'
  rcases hform with rfl | rfl | rfl | rfl
  · rw [List.length_eq_zero_iff.mp hlen'] at hfield
    exact .nop hfield hins'
  · exact .load field hlen' hfield hins'
  · exact .eip _ hfield hins'
  · exact .jump field hfield ⟨_, by rw [hins']; exact List.mem_singleton_self _, rfl⟩

theorem loadAddress_of_holds {m : Mem} {pc : Ptr} {disp : List Byte}
    (hlen : disp.length = 4)
    (h : m.Holds pc (0x48 :: 0x8B :: 0x05 :: disp)) :
    loadAddress m pc = some (pc + 7 + (leWord 32 disp).signExtend 64) := by
  have hread : m.read pc 7 = some (0x48 :: 0x8B :: 0x05 :: disp) :=
    Memory.read_eq_some_iff.mpr ⟨by simp [hlen], h⟩
  unfold loadAddress
  rw [hread]
  rfl

theorem ipTarget_load {p : Piece} {disp : List Byte} {address : Ptr}
    (hlen : disp.length = 4) (hbytes : p.bytes = 0x48 :: 0x8B :: 0x05 :: disp)
    (hins : p.ins = movRipForm.instruction p.bytes) (value : BitVec 64) :
    ipTarget p.ins p.bytes address (.memory .rip value) =
      address + 7 + (leWord 32 disp).signExtend 64 := by
  have htake : disp.take 4 = disp := List.take_of_length_le (by omega)
  have hsigned : movRipForm.field.signed (0x48 :: 0x8B :: 0x05 :: disp) =
      (leWord 32 disp).signExtend 64 := by
    change (leWord 32 (disp.take 4)).signExtend 64 =
      (leWord 32 disp).signExtend 64
    rw [htake]
  rw [hins, hbytes, ← hsigned]
  rfl

def smallStep (s : Ptr × BitVec 64) (m : Mem) :
    Option ((Ptr × BitVec 64) × Stores 64 Byte) :=
  if m s.1 = some 0x90 then some ((s.1 + 1, s.2), [])
  else if m s.1 = some 0x48 then do
    let address ← loadAddress m s.1
    let value ← Memory.read m address 8
    some ((s.1 + 7, leWord 64 value), [])
  else (jumpTarget m s.1).map fun target => ((target, s.2), [])

def smallReads (s : Ptr × BitVec 64) (m : Mem) : Set Ptr :=
  if m s.1 = some 0x90 then span s.1 1
  else if m s.1 = some 0x48 then span s.1 7 ∪
    match loadAddress m s.1 with
    | some address => span address 8
    | none => ∅
  else span s.1 14

theorem smallStep_congr {s : Ptr × BitVec 64} {m m' : Mem}
    (h : Set.EqOn m' m (smallReads s m)) : smallStep s m' = smallStep s m := by
  unfold smallReads at h
  unfold smallStep
  by_cases hnop : m s.1 = some 0x90
  · rw [if_pos hnop] at h ⊢
    have hfirst : m' s.1 = m s.1 := h (by rw [mem_span, BitVec.sub_self]; decide)
    rw [if_pos (hfirst.trans hnop)]
  · rw [if_neg hnop] at h ⊢
    by_cases hload : m s.1 = some 0x48
    · rw [if_pos hload] at h ⊢
      have hcode : m'.read s.1 7 = m.read s.1 7 :=
        Memory.read_congr (by decide) fun x hx => h (.inl hx)
      have haddress : loadAddress m' s.1 = loadAddress m s.1 := by
        unfold loadAddress
        rw [hcode]
      have hfirst : m' s.1 = m s.1 :=
        h (.inl (by rw [mem_span, BitVec.sub_self]; decide))
      rw [if_neg (hfirst ▸ hnop), if_pos (hfirst.trans hload), haddress]
      cases htarget : loadAddress m s.1 with
      | none => rfl
      | some address =>
          have hvalue : m'.read address 8 = m.read address 8 := by
            refine Memory.read_congr (by decide) fun x hx => h (.inr ?_)
            rw [htarget]
            exact hx
          simp only [Option.bind_eq_bind, Option.bind_some, hvalue]
    · rw [if_neg hload] at h ⊢
      have hfirst : m' s.1 = m s.1 :=
        h (by rw [mem_span, BitVec.sub_self]; decide)
      rw [if_neg (hfirst ▸ hnop), if_neg (hfirst ▸ hload), jumpTarget_congr h]

theorem smallStep_nop {s : Ptr × BitVec 64} {m : Mem} (h : m.Holds s.1 [0x90]) :
    smallStep s m = some ((s.1 + 1, s.2), []) :=
  if_pos (Memory.holds_cons.mp h).1

theorem smallStep_load {s : Ptr × BitVec 64} {m : Mem} {disp : List Byte}
    (hlen : disp.length = 4)
    (h : m.Holds s.1 (0x48 :: 0x8B :: 0x05 :: disp)) :
    smallStep s m = (m.read (s.1 + 7 + (leWord 32 disp).signExtend 64) 8).map
      fun value => ((s.1 + 7, leWord 64 value), []) := by
  have hfirst := (Memory.holds_cons.mp h).1
  have hne : m s.1 ≠ some 0x90 := by
    rw [hfirst]
    decide
  rw [smallStep, if_neg hne, if_pos hfirst, loadAddress_of_holds hlen h]
  exact Option.map_eq_bind.symm

theorem smallStep_eip {s : Ptr × BitVec 64} {m : Mem} (h : m s.1 = some 0x67) :
    smallStep s m = none := by
  simp [smallStep, jumpTarget, h]

theorem smallStep_jump {s : Ptr × BitVec 64} {m : Mem} {target : Ptr}
    (h : jumpTarget m s.1 = some target) :
    smallStep s m = some ((target, s.2), []) := by
  have hopcode : m s.1 = some 0xE9 ∨ m s.1 = some 0xFF := by
    unfold jumpTarget at h
    obtain ⟨opcode, hopcode, h⟩ := Option.bind_eq_some_iff.mp h
    rw [hopcode]
    split at h
    · rename_i hjmp
      exact .inl (congrArg some hjmp)
    · split at h
      · rename_i hjmp
        exact .inr (congrArg some hjmp)
      · cases h
  rcases hopcode with hjmp | hjmp <;> simp [smallStep, hjmp, h]

theorem smallPiece_reads {p : Piece} (h : SmallPiece p) {s : Ptr × BitVec 64}
    {m : Mem} (hholds : m.Holds s.1 p.bytes) :
    smallReads s m ⊆ span s.1 p.ins.length ∪
      ipReferences quadWidth p.ins p.bytes s.1 ∪
      if m s.1 = some 0x90 ∨ m s.1 = some 0x48 then ∅ else span s.1 14 := by
  unfold smallReads
  cases h with
  | nop bytes ins =>
      rw [bytes] at hholds
      have hfirst := (Memory.holds_cons.mp hholds).1
      rw [if_pos hfirst, ins]
      exact fun x hx => .inl (.inl hx)
  | load disp length bytes ins =>
      have hfirst := (Memory.holds_cons.mp (bytes ▸ hholds)).1
      have hne : m s.1 ≠ some 0x90 := by
        rw [hfirst]
        decide
      rw [if_neg hne, if_pos hfirst,
        loadAddress_of_holds length (bytes ▸ hholds)]
      rintro x (hx | hx)
      · rw [ins]
        exact .inl (.inl hx)
      · have hop : .memory .rip (movRipForm.field.signed p.bytes) ∈
            p.ins.operands := by
          rw [ins]
          exact List.mem_singleton_self _
        refine .inl (.inr ⟨_, hop, rfl, ?_⟩)
        rw [operandBytes, ipTarget_load length bytes ins]
        exact hx
  | eip rest bytes ins =>
      have hfirst := (Memory.holds_cons.mp (bytes ▸ hholds)).1
      simp [hfirst]
  | jump disp bytes branch =>
      have hfirst := (Memory.holds_cons.mp (bytes ▸ hholds)).1
      simp [hfirst]

theorem smallStep_next {p : Piece} (h : SmallPiece p)
    (hplain : ∀ op ∈ p.ins.operands, op.isBranch = false)
    {s s' : Ptr × BitVec 64} {m : Mem} {stores : Stores 64 Byte}
    (hholds : m.Holds s.1 p.bytes)
    (hstep : smallStep s m = some (s', stores)) :
    s'.1 = s.1 + BitVec.ofNat 64 p.ins.length := by
  cases h with
  | nop bytes ins =>
      rw [smallStep_nop (bytes ▸ hholds)] at hstep
      cases hstep
      rw [ins]
      rfl
  | load disp length bytes ins =>
      rw [smallStep_load length (bytes ▸ hholds)] at hstep
      obtain ⟨value, -, hnext⟩ := Option.map_eq_some_iff.mp hstep
      cases hnext
      rw [ins]
      rfl
  | eip rest bytes ins =>
      rw [smallStep_eip (Memory.holds_cons.mp (bytes ▸ hholds)).1] at hstep
      cases hstep
  | jump disp bytes branch =>
      obtain ⟨op, hop, hbranch⟩ := branch
      rw [hplain op hop] at hbranch
      cases hbranch

theorem smallStep_moved {source dest : Ptr} {p p' : Piece} (h : SmallPiece p)
    (h' : SmallPiece p') (hsound : PieceSound source dest p p')
    (hplain : ∀ op ∈ p.ins.operands, op.isBranch = false)
    {s : Ptr × BitVec 64} {m m' : Mem}
    (hpc : s.1 = source + BitVec.ofNat 64 p.offset)
    (hholds : m.Holds s.1 p.bytes)
    (hholds' : m'.Holds (dest + BitVec.ofNat 64 p.offset) p'.bytes)
    (hagree : Set.EqOn m' m (ipReferences quadWidth p.ins p.bytes s.1)) :
    smallStep (dest + BitVec.ofNat 64 p.offset, s.2) m' =
      (smallStep s m).map fun next =>
        ((dest + BitVec.ofNat 64 (p.offset + p.ins.length), next.1.2),
          next.2) := by
  have hfirst : ∀ form : InstructionForm, p.ins = form.instruction p.bytes →
      p'.bytes[0]? = p.bytes[0]? := fun form hins => hsound.unchanged 0
    (hins ▸ form.outsideIpFields_of_lt p.bytes
      (List.length_pos_of_ne_nil form.opcode_ne_nil))
  cases h with
  | nop bytes ins =>
      have hhead := hfirst nopForm ins
      rw [smallStep_nop (s := s) (bytes ▸ hholds), ins]
      cases h' with
      | nop bytes' ins' =>
          rw [smallStep_nop (m := m') (bytes' ▸ hholds'), BitVec.ofNat_add,
            ← BitVec.add_assoc]
          rfl
      | load disp' length' bytes' ins' => simp [bytes, bytes'] at hhead
      | eip rest' bytes' ins' => simp [bytes, bytes'] at hhead
      | jump disp' bytes' branch' => simp [bytes, bytes'] at hhead
  | load disp length bytes ins =>
      have hhead := hfirst movRipForm ins
      rw [smallStep_load (s := s) length (bytes ▸ hholds)]
      cases h' with
      | nop bytes' ins' => simp [bytes, bytes'] at hhead
      | load disp' length' bytes' ins' =>
          have hop : .memory .rip (movRipForm.field.signed p.bytes) ∈
              p.ins.operands := by
            rw [ins]
            exact List.mem_singleton_self _
          have htarget := hsound.target _ hop rfl
          rw [ipTarget_load length' bytes' ins', ipTarget_load length bytes ins,
            ← hpc] at htarget
          have hvalue : m'.read (s.1 + 7 + (leWord 32 disp).signExtend 64) 8 =
              m.read (s.1 + 7 + (leWord 32 disp).signExtend 64) 8 := by
            refine Memory.read_congr (by decide) fun x hx =>
              hagree ⟨_, hop, rfl, ?_⟩
            rw [operandBytes, ipTarget_load length bytes ins]
            exact hx
          rw [smallStep_load (m := m') length' (bytes' ▸ hholds'), htarget,
            hvalue, ins, BitVec.ofNat_add, ← BitVec.add_assoc, Option.map_map]
          rfl
      | eip rest' bytes' ins' => simp [bytes, bytes'] at hhead
      | jump disp' bytes' branch' => simp [bytes, bytes'] at hhead
  | eip rest bytes ins =>
      have hhead := hfirst movEipForm ins
      rw [smallStep_eip (s := s) (Memory.holds_cons.mp (bytes ▸ hholds)).1]
      cases h' with
      | nop bytes' ins' => simp [bytes, bytes'] at hhead
      | load disp' length' bytes' ins' => simp [bytes, bytes'] at hhead
      | eip rest' bytes' ins' =>
          have hbyte := (Memory.holds_cons.mp (bytes' ▸ hholds')).1
          exact smallStep_eip hbyte
      | jump disp' bytes' branch' => simp [bytes, bytes'] at hhead
  | jump disp bytes branch =>
      obtain ⟨op, hop, hbranch⟩ := branch
      rw [hplain op hop] at hbranch
      cases hbranch

def smallProcessor :
    Processor (tableZydis smallTable) quadWidth (Ptr × BitVec 64) where
  step := smallStep
  reads := smallReads
  step_congr := smallStep_congr
  pc := Prod.fst
  otherReads := fun s m =>
    if m s.1 = some 0x90 ∨ m s.1 = some 0x48 then ∅ else span s.1 14
  reads_subset := by
    intro s m buffer ins hdec hholds
    exact smallPiece_reads (p := ⟨0, ins, buffer.take ins.length⟩)
      (smallPiece ⟨buffer, hdec, rfl⟩) hholds
  setPc := fun s address => (address, s.2)
  transfers := fun _ => false
  exposesIp := fun _ => false
  pc_setPc := fun _ _ => rfl
  setPc_pc := fun _ => rfl
  setPc_setPc := fun _ _ _ => rfl
  step_jump := smallStep_jump
  step_next := fun hdec hplain hholds _ hstep =>
    smallStep_next (smallPiece hdec) hplain hholds hstep
  step_moved := fun hdec hdec' hsound hplain _ hpc hholds hholds' hagree =>
    smallStep_moved (smallPiece hdec) (smallPiece hdec') hsound hplain hpc
      hholds hholds' (hagree.mono Set.subset_union_left)

def loadingInner : Inner where
  isInstalled := false
  name := "load"
  targetFunc := 0x1000
  detourFunc := 0x3000
  patchedOriginalBytes := [0x48, 0x8B, 0x05, 0xF9, 0x0F, 0x00, 0x00]
  codeEnterDetour := 0xF15
  codeCallOriginal := 0xF00
  outputOriginalFunc := 0x4000
  codePage := selfReadingInner.codePage

def loadingHooked : Process :=
  (new (tableZydis smallTable) smallOs loadingProcess "load" 0x1000 0x3000
    0x4000).2

theorem new_loading : new (tableZydis smallTable) smallOs loadingProcess "load"
    0x1000 0x3000 0x4000 = (.ok loadingInner, loadingHooked) := by
  have hinner : (new (tableZydis smallTable) smallOs loadingProcess "load"
      0x1000 0x3000 0x4000).1 = .ok loadingInner := by
    decide +kernel
  exact eq_mk_of_fst hinner

theorem loading_mapped : ∀ x ∈ loadingInner.range,
    loadingProcess.mem x ≠ none := by
  intro x hx
  apply Memory.write_mapped
  apply Memory.write_mapped
  obtain ⟨i, hi, -, rfl⟩ := eq_offset_of_mem_span
    (span_mono (by decide : 7 ≤ loadingCode.length) hx)
  have hget := Memory.write_offset (m := fun _ => none)
    (a := loadingInner.targetFunc) (by decide) hi
  exact ne_of_eq_of_ne hget (Option.some_ne_none _)

theorem splitCode_loading : splitCode (tableZydis smallTable)
    loadingInner.patchedOriginalBytes =
      some [⟨0, movRipForm.instruction loadingInner.patchedOriginalBytes,
        loadingInner.patchedOriginalBytes⟩] := by
  decide

theorem loading_movable : loadingInner.MovableHead smallProcessor := by
  intro pieces hsplit p hp
  rw [splitCode_loading] at hsplit
  cases hsplit
  rw [List.mem_singleton.mp hp]
  refine ⟨rfl, ?_⟩
  rintro ⟨op, hop, heip⟩
  rw [List.mem_singleton.mp hop] at heip
  cases heip

theorem disjoint_loading_footprint {i n : Nat} (hi : 0x107 ≤ i)
    (hn : i + n ≤ 2 ^ 64) :
    Disjoint (span (0xF00 + BitVec.ofNat 64 i) n) loadingInner.footprint := by
  have hpage := disjoint_span_offset (a := (0xF00 : Ptr)) (i := 0) (k := 0x107)
    hi hn
  rw [BitVec.add_zero] at hpage
  refine hpage.symm.mono_right ?_
  rintro x (⟨page, heq, hx⟩ | hx)
  · cases heq
    exact span_mono (by decide) hx
  · exact span_offset_subset (a := (0xF00 : Ptr)) (i := 0x100) (k := 7)
      (by decide) (by decide) hx

theorem loading_unaware : smallProcessor.Along
    (Unaware smallProcessor loadingInner) 2 (0x1000, 0) loadingProcess.mem := by
  have hfirst : smallStep (0x1000, 0) loadingProcess.mem =
      some ((0x1007, 0x2A), []) := by
    decide +kernel
  have hsecond : smallStep (0x1007, 0x2A) loadingProcess.mem =
      some ((0x1008, 0x2A), []) := by
    decide +kernel
  have hin : (0x1000 : Ptr) ∈ loadingInner.range := by
    rw [range, mem_span]
    decide
  have hend : (0x1007 : Ptr) ∉ loadingInner.range := by
    rw [range, mem_span]
    decide
  have hout : (0x1008 : Ptr) ∉ loadingInner.range := by
    rw [range, mem_span]
    decide
  refine MemoryMachine.along_succ.mpr ⟨?_, fun s' stores hstep =>
    MemoryMachine.along_succ.mpr ⟨?_, fun _ _ _ => trivial⟩⟩
  · refine ⟨fun s' stores hstep => ?_, fun pieces hsplit p hp hpc => ?_,
      fun houtside => absurd hin houtside, fun s' stores hstep hin' => ?_⟩
    · cases hfirst.symm.trans hstep
      simp
    · rw [splitCode_loading] at hsplit
      cases hsplit
      rw [List.mem_singleton.mp hp]
      refine Disjoint.mono_left (Set.union_subset ?_ ?_)
        (disjoint_loading_footprint (i := 0x1100) (n := 8) (by decide)
          (by decide))
      · rintro x ⟨op, hop, -, hx⟩
        rw [List.mem_singleton.mp hop] at hx
        exact hx
      · exact Set.empty_subset _
    · cases hfirst.symm.trans hstep
      exact absurd hin' hend
  · cases hfirst.symm.trans hstep
    refine ⟨fun s' stores hstep => ?_, fun pieces hsplit p hp hpc => ?_,
      fun _ => ?_, fun s' stores hstep hin' => ?_⟩
    · cases hsecond.symm.trans hstep
      simp
    · rw [splitCode_loading] at hsplit
      cases hsplit
      rw [List.mem_singleton.mp hp] at hpc
      cases hpc
    · exact disjoint_loading_footprint (i := 0x107) (n := 1) (by decide)
        (by decide)
    · cases hsecond.symm.trans hstep
      exact absurd hin' hout

theorem callOriginal_simulates_loading :
    ∃ k, 2 ≤ k ∧ smallProcessor.exec k (0xF00, 0)
      (loadingInner.install smallOs loadingHooked.mem).2.2 =
        some ((0x1008, 0x2A), []) := by
  have hok : (loadingInner.install smallOs loadingHooked.mem).1 = .ok () := by
    decide +kernel
  have hrun : smallProcessor.exec 2 (0x1000, 0) loadingProcess.mem =
      some ((0x1008, 0x2A), []) := by
    decide +kernel
  have hout : loadingHooked.outs 0x4000 = 0xF00 := by
    decide +kernel
  generalize hinstall : loadingInner.install smallOs loadingHooked.mem = installed
    at hok ⊢
  obtain ⟨res, inner', m⟩ := installed
  cases hok
  obtain ⟨k, s₂, hk, hrun', -, heq⟩ := ((callOriginal_simulates
    (tableZydis_lawful smallTable) smallProcessor new_loading hinstall
    loading_mapped loading_movable (s := (0x1000, 0)) rfl).2 2
    loading_unaware).1 _ _ hrun
  have houtside : (0x1008 : Ptr) ∉ loadingInner.range := by
    rw [range, mem_span]
    decide
  rw [heq houtside, hout] at hrun'
  exact ⟨k, hk, hrun'⟩

end Inner

end Ztour
