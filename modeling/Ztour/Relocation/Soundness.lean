import Ztour.Relocation.Code
import Ztour.TableDecoder

/-!
# Soundness of relocation

A successful relocation keeps the length, the instruction boundaries and every
byte outside the instruction-pointer fields.  The addresses that the operands
denote are kept too, except for operands based on `EIP`: only `RIP` is tested
for, so their displacement is copied and denotes another address unless the two
bases agree in their low 32 bits.
-/

namespace Ztour

open Ztour.Foundation ZydisDecodedOperand

variable {z : Zydis} {data source dest : Ptr}

/-- `p'` at `dest` does what `p` did at `source`. -/
structure PieceSound (source dest : Ptr) (p p' : Piece) : Prop where
  offset : p'.offset = p.offset
  layout : SameLayout p.ins p'.ins
  length : p'.bytes.length = p.bytes.length
  unchanged : ∀ i, p.ins.OutsideIpFields i → p'.bytes[i]? = p.bytes[i]?
  target : ∀ op ∈ p.ins.operands, op.isIpRelative = true →
    ipTarget p'.ins p'.bytes (dest + BitVec.ofNat 64 p.offset) op =
      ipTarget p.ins p.bytes (source + BitVec.ofNat 64 p.offset) op

/-- Code that does not split into instructions has to be copied as it is. -/
def SoundRelocation (z : Zydis) (codeBytes : List Byte) (source dest : Ptr)
    (result : List Byte) : Prop :=
  result.length = codeBytes.length ∧
    match splitCode z codeBytes with
    | none => result = codeBytes
    | some pieces => ∃ pieces', splitCode z result = some pieces' ∧
        List.Forall₂ (PieceSound source dest) pieces pieces'

def HasEipOperand (p : Piece) : Prop := ∃ op ∈ p.ins.operands, op.isEip = true

theorem ipField_of_not_branch {ins : ZydisDecodedInstruction}
    {op : ZydisDecodedOperand} (h : op.isIpRelative = true)
    (hbranch : op.isBranch = false) : ins.ipField op = ins.rawDisp := by
  cases op with
  | memory base disp => rfl
  | immediate isRelative value => simp_all [isIpRelative, isRip, isEip]
  | other => rfl

theorem signed_putField {field : RawField} {bytes : List Byte}
    {value : BitVec 64} (hsize : field.size = 32)
    (hfits : field.offset + 4 ≤ bytes.length) (hvalue : FitsSigned 32 value) :
    field.signed (putField bytes field.offset 32 value) = value := by
  have hroom : field.offset + (leBytes 4 (value.setWidth 32).toNat).length ≤
      bytes.length := by
    simpa using hfits
  have htake := take_drop_splice _ hroom
  rw [length_leBytes] at htake
  have hbytes : ((putField bytes field.offset 32 value).drop
      field.offset).take 4 = leBytes 4 (value.setWidth 32).toNat := htake
  rw [RawField.signed, hsize]
  change (leWord 32 (((putField bytes field.offset 32 value).drop
    field.offset).take 4)).signExtend 64 = value
  rw [hbytes, leWord_leBytes_toNat (value.setWidth 32) (by norm_num)]
  exact signExtend_setWidth_of_fits (by decide) (by decide) hvalue

theorem ipTarget_image_of_isRip (hz : z.Lawful) {p : Piece}
    (hdec : p.Decoded z) (hreloc : p.Relocates source dest)
    {op : ZydisDecodedOperand} (hop : op ∈ p.ins.operands)
    (hrip : op.isRip = true) :
    ipTarget p.ins (p.image source dest)
        (dest + BitVec.ofNat 64 p.offset) op =
      ipTarget p.ins p.bytes (source + BitVec.ofNat 64 p.offset) op := by
  have hlen := Piece.length_bytes hz hdec
  obtain ⟨buffer, hbuf, -⟩ := hdec
  have hany : p.ins.operands.any isRip = true :=
    List.any_eq_true.mpr ⟨op, hop, hrip⟩
  obtain ⟨hsize, hfits⟩ := rawDisp_fits hz hbuf hany
  obtain ⟨hbranch, hfit⟩ := hreloc op hop
  have hfield : p.ins.ipField op = p.ins.rawDisp :=
    ipField_of_not_branch (by simp [isIpRelative, hrip]) hbranch
  have heip : op.isEip = false := isEip_of_isRip hrip
  rw [Piece.image, relocatedBytes, if_pos hany]
  simp only [ipTarget, hfield, heip]
  rw [signed_putField hsize (by omega) (hfit hrip), ripDisplacement,
    BitVec.add_comm, BitVec.sub_add_cancel]

theorem image_of_hasEip (hz : z.Lawful) {p : Piece} (hdec : p.Decoded z)
    (heip : HasEipOperand p) : p.image source dest = p.bytes := by
  obtain ⟨buffer, hbuf, -⟩ := hdec
  obtain ⟨op, hop, hisEip⟩ := heip
  have hnone : p.ins.operands.any isRip = false := by
    rw [List.any_eq_false]
    intro op' hop'
    simp [hz.one_base hbuf hop hop' hisEip]
  rw [Piece.image, relocatedBytes, hnone]
  rfl

theorem ipTarget_eip_iff {ins : ZydisDecodedInstruction} {bytes : List Byte}
    {offset : Nat} {op : ZydisDecodedOperand} (heip : op.isEip = true) :
    ipTarget ins bytes (dest + BitVec.ofNat 64 offset) op =
        ipTarget ins bytes (source + BitVec.ofNat 64 offset) op ↔
      source.setWidth 32 = dest.setWidth 32 := by
  simp only [ipTarget, heip, if_true]
  have hinj : ∀ x y : BitVec 32, x.setWidth 64 = y.setWidth 64 ↔ x = y := by
    intro x y
    refine ⟨fun h => ?_, fun h => h ▸ rfl⟩
    have := congrArg (BitVec.setWidth 32) h
    simpa using this
  rw [hinj]
  simp only [BitVec.setWidth_add _ _ (by decide : 32 ≤ 64),
    BitVec.add_left_inj]
  exact eq_comm

theorem pieceSound_iff (hz : z.Lawful) {p p' : Piece} (hdec : p.Decoded z)
    (hreloc : p.Relocates source dest) (h : p.RelocatedTo source dest p') :
    PieceSound source dest p p' ↔
      (source.setWidth 32 = dest.setWidth 32 ∨ ¬ HasEipOperand p) := by
  obtain ⟨hoffset, hlayout, hbytes⟩ := h
  constructor
  · intro hsound
    by_cases heip : HasEipOperand p
    · left
      obtain ⟨op, hop, hisEip⟩ := heip
      have htarget := hsound.target op hop (by simp [isIpRelative, hisEip])
      rw [hlayout.ipTarget_eq, hbytes,
        image_of_hasEip hz hdec ⟨op, hop, hisEip⟩] at htarget
      exact (ipTarget_eip_iff hisEip).mp htarget
    · exact .inr heip
  · intro hcond
    refine ⟨hoffset, hlayout, ?_, ?_, ?_⟩
    · rw [hbytes, Piece.length_image source dest hz hdec,
        Piece.length_bytes hz hdec]
    · intro i hi
      rw [hbytes, Piece.image_outside hz hdec hi]
    · intro op hop hip
      rw [hlayout.ipTarget_eq, hbytes]
      by_cases hisEip : op.isEip = true
      · have heip : HasEipOperand p := ⟨op, hop, hisEip⟩
        rw [image_of_hasEip hz hdec heip]
        exact (ipTarget_eip_iff hisEip).mpr
          (hcond.resolve_right (fun hno => hno heip))
      · have hrip : op.isRip = true := by
          have hbranch := (hreloc op hop).1
          simpa [isIpRelative, hbranch, hisEip] using hip
        exact ipTarget_image_of_isRip hz hdec hreloc hop hrip

theorem pieceSound_self {p : Piece} : PieceSound source source p p :=
  ⟨rfl, rfl, rfl, fun _ _ => rfl, fun _ _ _ => rfl⟩

private theorem forall₂_pieceSound_iff (hz : z.Lawful)
    {pieces pieces' : List Piece} (hdec : ∀ p ∈ pieces, p.Decoded z)
    (hreloc : ∀ p ∈ pieces, p.Relocates source dest)
    (h : List.Forall₂ (Piece.RelocatedTo source dest) pieces pieces') :
    List.Forall₂ (PieceSound source dest) pieces pieces' ↔
      (source.setWidth 32 = dest.setWidth 32 ∨
        ∀ p ∈ pieces, ¬ HasEipOperand p) := by
  induction h with
  | nil => simp
  | @cons p p' pieces pieces' hhead _ ih =>
      rw [List.forall_mem_cons] at hdec hreloc
      rw [List.forall₂_cons, pieceSound_iff hz hdec.1 hreloc.1 hhead,
        ih hdec.2 hreloc.2, List.forall_mem_cons]
      tauto

/-- Whenever relocation returns, it is sound exactly if the bases agree modulo
`2 ^ 32` or no instruction has a memory operand based on `EIP`. -/
theorem relocateCode_sound_iff (hz : z.Lawful) {codeBytes result : List Byte}
    (h : relocateCode z data codeBytes source dest = .ok result) :
    SoundRelocation z codeBytes source dest result ↔
      (source.setWidth 32 = dest.setWidth 32 ∨
        ∀ pieces, splitCode z codeBytes = some pieces →
          ∀ p ∈ pieces, ¬ HasEipOperand p) := by
  by_cases hbase : source = dest
  · subst hbase
    obtain ⟨-, rfl⟩ := relocateCode_self.mp h
    refine ⟨fun _ => .inl rfl, fun _ => ⟨rfl, ?_⟩⟩
    split
    · rfl
    · rename_i pieces hsplit
      exact ⟨pieces, hsplit, List.forall₂_same.mpr fun _ _ => pieceSound_self⟩
  · obtain ⟨-, pieces, hsplit, hreloc, rfl⟩ :=
      (relocateCode_eq_ok hz hbase).mp h
    obtain ⟨pieces', hsplit', hrel, hlen⟩ :=
      splitFrom_image source dest hz hsplit
    have hresult : splitCode z
        (pieces.map (Piece.image source dest)).flatten = some pieces' := by
      rw [splitCode, hlen]
      exact hsplit'
    have hiff := forall₂_pieceSound_iff hz (splitCode_decoded hsplit) hreloc hrel
    simp only [SoundRelocation, hsplit, hresult, hlen, Option.some.injEq,
      exists_eq_left', true_and, forall_eq']
    exact hiff

def movRipCode : List Byte := [0x48, 0x8B, 0x05, 0x10, 0x00, 0x00, 0x00]

def movEipCode : List Byte := [0x67, 0x48, 0x8B, 0x05, 0x10, 0x00, 0x00, 0x00]

theorem relocateCode_sound_movRip :
    SoundRelocation (tableZydis smallTable) movRipCode 0x1000 0x2000
      [0x48, 0x8B, 0x05, 0x10, 0xF0, 0xFF, 0xFF] := by
  have hmoved : relocateCode (tableZydis smallTable) 0x7000 movRipCode 0x1000
      0x2000 = .ok [0x48, 0x8B, 0x05, 0x10, 0xF0, 0xFF, 0xFF] := by decide
  refine (relocateCode_sound_iff (tableZydis_lawful _) hmoved).mpr
    (.inr fun pieces hsplit => ?_)
  have hpieces : splitCode (tableZydis smallTable) movRipCode =
      some [⟨0, movRipForm.instruction movRipCode, movRipCode⟩] := by decide
  rw [hpieces, Option.some.injEq] at hsplit
  subst hsplit
  simp [HasEipOperand, InstructionForm.instruction, InstructionForm.operands,
    movRipForm, isEip]

/-- The `EIP` displacement is copied, and the load moves by the distance. -/
theorem relocateCode_eip_unsound :
    relocateCode (tableZydis smallTable) 0x7000 movEipCode 0x1000 0x2000 =
        .ok movEipCode ∧
      ¬ SoundRelocation (tableZydis smallTable) movEipCode 0x1000 0x2000
        movEipCode := by
  refine ⟨by decide, ?_⟩
  rintro ⟨-, hsound⟩
  have hpieces : splitCode (tableZydis smallTable) movEipCode =
      some [⟨0, movEipForm.instruction movEipCode, movEipCode⟩] := by decide
  simp only [hpieces, Option.some.injEq, exists_eq_left', List.forall₂_cons,
    List.forall₂_nil_left_iff, and_true] at hsound
  have htarget := hsound.target (.memory .eip 0x10) (by decide) rfl
  revert htarget
  decide

end Ztour
