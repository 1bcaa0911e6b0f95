import Ztour.Relocation.Model

/-!
# What relocation does to one instruction

The relative-immediate switch never reaches a normal exit, so an instruction is
relocated only if it has no relative branch operand.  Its instruction-pointer
displacement, of which there is at most one field, is rewritten once.
-/

namespace Ztour

open Ztour.Foundation ZydisDecodedOperand

theorem ensureDisplacementRelocBounds_eq_ok {width : Nat}
    {displacement : BitVec 64} {u : Unit} :
    ensureDisplacementRelocBounds width displacement = .ok u ↔
      FitsSigned width displacement := by
  simp only [ensureDisplacementRelocBounds]
  split <;> simp_all

theorem relocateDisp_eq_ok {field : RawField} {newDisp : BitVec 64}
    {insBytes result : List Byte} :
    relocateDisp field newDisp insBytes = .ok result ↔
      field.size = 32 ∧ FitsSigned 32 newDisp ∧
        result = putField insBytes field.offset 32 newDisp := by
  simp only [relocateDisp, ne_eq]
  split
  · simp_all
  · rename_i hsize
    rw [not_not] at hsize
    rw [bind_eq_ok]
    constructor
    · rintro ⟨_, hfit, hres⟩
      exact ⟨hsize, ensureDisplacementRelocBounds_eq_ok.mp hfit,
        (Except.ok.inj hres).symm⟩
    · rintro ⟨-, hfit, rfl⟩
      exact ⟨(), ensureDisplacementRelocBounds_eq_ok.mpr hfit, rfl⟩

/-! ## Relative immediates -/

section Immediate

variable {field : RawField} {newDisp : BitVec 64} {insBytes result : List Byte}

theorem relocateImm8_ne_ok :
    relocateImm8 field newDisp insBytes ≠ .ok result := by
  intro h
  obtain ⟨_, -, hdefault⟩ := bind_eq_ok.mp h
  simp [relocateImmDefault] at hdefault

theorem relocateImm16_ne_ok :
    relocateImm16 field newDisp insBytes ≠ .ok result := by
  intro h
  obtain ⟨_, -, hnext⟩ := bind_eq_ok.mp h
  exact relocateImm8_ne_ok hnext

theorem relocateImm32_ne_ok :
    relocateImm32 field newDisp insBytes ≠ .ok result := by
  intro h
  obtain ⟨_, -, hnext⟩ := bind_eq_ok.mp h
  exact relocateImm16_ne_ok hnext

theorem relocateImm_ne_ok :
    relocateImm field newDisp insBytes ≠ .ok result := by
  unfold relocateImm
  split
  · exact relocateImm32_ne_ok
  split
  · exact relocateImm16_ne_ok
  split
  · exact relocateImm8_ne_ok
  · simp [relocateImmDefault]

end Immediate

/-! ## The operand loop -/

/-- The displacement an operand needs once its instruction sits at `dest`. -/
def newDisplacement (ins : ZydisDecodedInstruction) (bytes : List Byte)
    (source dest : Ptr) (op : ZydisDecodedOperand) : BitVec 64 :=
  ipTarget ins bytes source op - (dest + BitVec.ofNat 64 ins.length)

/-- The displacement written for every `RIP` operand of the instruction. -/
def ripDisplacement (ins : ZydisDecodedInstruction) (bytes : List Byte)
    (source dest : Ptr) : BitVec 64 :=
  source + BitVec.ofNat 64 ins.length + ins.rawDisp.signed bytes -
    (dest + BitVec.ofNat 64 ins.length)

theorem newDisplacement_of_isRip {ins : ZydisDecodedInstruction}
    {bytes : List Byte} {source dest : Ptr} {op : ZydisDecodedOperand}
    (h : op.isRip = true) :
    newDisplacement ins bytes source dest op =
      ripDisplacement ins bytes source dest := by
  cases op with
  | memory base disp =>
      cases base with
      | rip => rfl
      | eip => simp [isRip] at h
      | other => simp [isRip] at h
  | immediate isRelative value => simp [isRip] at h
  | other => simp [isRip] at h

theorem RawField.signed_take {field : RawField} {bytes : List Byte} {n : Nat}
    (h : field.offset + field.size / 8 ≤ n) :
    field.signed (bytes.take n) = field.signed bytes := by
  rw [RawField.signed, RawField.signed, List.drop_take, List.take_take,
    Nat.min_eq_left (by omega)]

variable {z : Zydis} {buffer : List Byte} {ins : ZydisDecodedInstruction}

/-- An operand lets relocation continue, and this is its effect if it does. -/
def Relocatable (ins : ZydisDecodedInstruction) (bytes : List Byte)
    (source dest : Ptr) (op : ZydisDecodedOperand) : Prop :=
  op.isBranch = false ∧
    (op.isRip = true → FitsSigned 32 (ripDisplacement ins bytes source dest))

def operandEffect (ins : ZydisDecodedInstruction) (bytes : List Byte)
    (source dest : Ptr) (insBytes : List Byte) (op : ZydisDecodedOperand) :
    List Byte :=
  if op.isRip then
    putField insBytes ins.rawDisp.offset 32
      (ripDisplacement ins bytes source dest)
  else insBytes

theorem relocateOperand_eq_ok (hz : z.Lawful) (hdec : z.decode buffer = some ins)
    {op : ZydisDecodedOperand} (hop : op ∈ ins.operands) {source dest : Ptr}
    {insBytes result : List Byte} :
    relocateOperand z ins source dest insBytes op = .ok result ↔
      Relocatable ins (buffer.take ins.length) source dest op ∧
        result = operandEffect ins (buffer.take ins.length) source dest
          insBytes op := by
  cases op with
  | memory base disp =>
      cases base with
      | rip =>
          obtain ⟨hsize, hdisp⟩ := hz.disp_size hdec hop (by decide)
          have hcalc := hz.calc_rip source hdec hop
          have hsigned : ins.rawDisp.signed (buffer.take ins.length) =
              ins.rawDisp.signed buffer :=
            RawField.signed_take (hz.field_fits hdec hop rfl)
          simp only [relocateOperand, hcalc, Option.getD_some]
          rw [relocateDisp_eq_ok, hdisp, ← hsigned]
          simp only [Relocatable, operandEffect, ripDisplacement, isRip,
            isBranch, hsize, true_and, if_true, forall_const]
      | eip => simp [relocateOperand, Relocatable, operandEffect, isRip, isBranch,
          eq_comm]
      | other => simp [relocateOperand, Relocatable, operandEffect, isRip,
          isBranch, eq_comm]
  | immediate isRelative value =>
      by_cases hrel : isRelative = 0
      · subst hrel
        simp [relocateOperand, Relocatable, operandEffect, isRip, isBranch,
          eq_comm]
      · have hbranch : (immediate isRelative value).isBranch = true := by
          simpa [isBranch] using hrel
        simp only [relocateOperand, if_neg hrel, Relocatable, hbranch,
          Bool.true_eq_false, false_and, iff_false]
        exact relocateImm_ne_ok
  | other => simp [relocateOperand, Relocatable, operandEffect, isRip, isBranch,
      eq_comm]

def relocatedBytes (ins : ZydisDecodedInstruction) (bytes : List Byte)
    (source dest : Ptr) : List Byte :=
  if ins.operands.any isRip then
    putField bytes ins.rawDisp.offset 32 (ripDisplacement ins bytes source dest)
  else bytes

theorem length_putField {bytes : List Byte} {offset : Nat} {value : BitVec 64}
    (h : offset + 4 ≤ bytes.length) :
    (putField bytes offset 32 value).length = bytes.length :=
  length_splice (by simpa using h)

theorem putField_putField {bytes : List Byte} {offset : Nat}
    {value value' : BitVec 64} (h : offset + 4 ≤ bytes.length) :
    putField (putField bytes offset 32 value) offset 32 value' =
      putField bytes offset 32 value' :=
  splice_splice (by simpa using h) (by simp)

private theorem foldl_operandEffect_idem {bytes insBytes : List Byte}
    {source dest : Ptr} {ops : List ZydisDecodedOperand}
    (h : ins.rawDisp.offset + 4 ≤ insBytes.length) :
    ops.foldl (operandEffect ins bytes source dest)
        (putField insBytes ins.rawDisp.offset 32
          (ripDisplacement ins bytes source dest)) =
      putField insBytes ins.rawDisp.offset 32
        (ripDisplacement ins bytes source dest) := by
  induction ops with
  | nil => rfl
  | cons op ops ih =>
      rw [List.foldl_cons, operandEffect]
      split
      · rw [putField_putField h]
        exact ih
      · exact ih

private theorem foldl_operandEffect {bytes insBytes : List Byte}
    {source dest : Ptr} {ops : List ZydisDecodedOperand}
    (h : ops.any isRip = true → ins.rawDisp.offset + 4 ≤ insBytes.length) :
    ops.foldl (operandEffect ins bytes source dest) insBytes =
      if ops.any isRip then
        putField insBytes ins.rawDisp.offset 32
          (ripDisplacement ins bytes source dest)
      else insBytes := by
  induction ops with
  | nil => simp
  | cons op ops ih =>
      by_cases hrip : op.isRip = true
      · rw [List.foldl_cons, operandEffect, if_pos hrip,
          foldl_operandEffect_idem (h (by simp [hrip]))]
        simp [hrip]
      · rw [List.foldl_cons, operandEffect, if_neg hrip,
          ih (fun hany => h (by simp [hany]))]
        simp [hrip]

theorem rawDisp_fits (hz : z.Lawful) (hdec : z.decode buffer = some ins)
    (hrip : ins.operands.any isRip = true) :
    ins.rawDisp.size = 32 ∧ ins.rawDisp.offset + 4 ≤ ins.length := by
  obtain ⟨op, hop, hisRip⟩ := List.any_eq_true.mp hrip
  cases op with
  | memory base disp =>
      have hbase : base = .rip := by
        cases base <;> simp_all [isRip]
      subst hbase
      obtain ⟨hsize, -⟩ := hz.disp_size hdec hop (by decide)
      have hfits := hz.field_fits hdec hop rfl
      simp only [ZydisDecodedInstruction.ipField, hsize] at hfits
      exact ⟨hsize, hfits⟩
  | immediate isRelative value => simp [isRip] at hisRip
  | other => simp [isRip] at hisRip

theorem relocateInstruction_eq_ok (hz : z.Lawful)
    (hdec : z.decode buffer = some ins) {source dest : Ptr}
    {result : List Byte} :
    relocateInstruction z ins source dest (buffer.take ins.length) =
        .ok result ↔
      (∀ op ∈ ins.operands,
        Relocatable ins (buffer.take ins.length) source dest op) ∧
        result = relocatedBytes ins (buffer.take ins.length) source dest := by
  have hlen := hz.length_le hdec
  rw [relocateInstruction, foldlM_eq_ok
    (fun op hop _ _ => relocateOperand_eq_ok hz hdec hop),
    foldl_operandEffect (fun hany => by
      have := (rawDisp_fits hz hdec hany).2
      rw [List.length_take]
      omega)]
  rfl

end Ztour
