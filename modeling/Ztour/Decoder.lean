import Ztour.Base
import Ztour.Foundation.Result

/-!
# The instruction decoder

Zydis itself is a parameter: `decode` stands for the decoding functions on a
buffer, `noMoreData` for the status with which they fail when the buffer ends
inside an instruction, `calcAbsoluteAddress` for `ZydisCalcAbsoluteAddress`.
What relocation relies on is collected in `Zydis.Lawful`, stated against
`ipTarget`, the architectural meaning of an instruction-pointer-relative operand.
-/

namespace Ztour

open Ztour.Foundation

/-- The registers that relocation tells apart. -/
inductive ZydisRegister where
  | rip
  | eip
  | other
  deriving DecidableEq, Repr

/-- The operand fields that are read; `isRelative` is a `ZyanBool`. -/
inductive ZydisDecodedOperand where
  | memory (base : ZydisRegister) (disp : BitVec 64)
  | immediate (isRelative : BitVec 8) (value : BitVec 64)
  | other
  deriving DecidableEq, Repr

/-- A physical field of an instruction: its size in bits, its offset in bytes. -/
structure RawField where
  size : Nat
  offset : Nat
  deriving DecidableEq, Repr

structure ZydisDecodedInstruction where
  length : Nat
  operands : List ZydisDecodedOperand
  rawDisp : RawField
  rawImm : RawField × RawField
  length_pos : 0 < length
  length_le : length ≤ 15
  deriving DecidableEq, Repr

structure Zydis where
  decode : List Byte → Option ZydisDecodedInstruction
  noMoreData : List Byte → Bool
  calcAbsoluteAddress : ZydisDecodedInstruction → ZydisDecodedOperand →
    BitVec 64 → Option (BitVec 64)

def ZydisDecodedInstruction.imm (ins : ZydisDecodedInstruction)
    (index : BitVec 8) : RawField :=
  if index = 0 then ins.rawImm.1 else ins.rawImm.2

def maxInstructionLength : Nat := 15

def failedDecodeText (instructionPtr : Ptr) : String :=
  "Failed to decode instruction at " ++ ptrStr instructionPtr

/--
`ZydisDecoderDecodeInstruction` on live memory.  Zydis fetches byte by byte, so
it sees the mapped bytes from `ptr` on, and faults at the first gap if the
instruction goes on there.
-/
def decodeAt (z : Zydis) (m : Mem) (ptr : Ptr) (maxLen : Nat) :
    Res ZydisDecodedInstruction :=
  let bytes := m.readable ptr maxLen
  match z.decode bytes with
  | some ins => .ok ins
  | none =>
      if bytes.length < maxLen ∧ z.noMoreData bytes then
        .error (.fault (ptr + BitVec.ofNat 64 bytes.length))
      else .error (.thrown (failedDecodeText ptr))

def decodeInstruction (z : Zydis) (m : Mem) (ptr : Ptr) :
    Res ZydisDecodedInstruction :=
  decodeAt z m ptr maxInstructionLength

def decodeInstructionLength (z : Zydis) (m : Mem) (ptr : Ptr) : Res Nat := do
  let ins ← decodeInstruction z m ptr
  .ok ins.length

/-- `Decoder::disassemble_instruction` on the rest of a buffer. -/
def disassembleInstruction (z : Zydis) (instructionPtr : Ptr)
    (buffer : List Byte) : Res ZydisDecodedInstruction :=
  match z.decode buffer with
  | some ins => .ok ins
  | none => .error (.thrown (failedDecodeText instructionPtr))

theorem disassembleInstruction_eq_ok {z : Zydis} {instructionPtr : Ptr}
    {buffer : List Byte} {ins : ZydisDecodedInstruction} :
    disassembleInstruction z instructionPtr buffer = .ok ins ↔
      z.decode buffer = some ins := by
  simp only [disassembleInstruction]
  split <;> simp_all

theorem decodeAt_eq_ok {z : Zydis} {m : Mem} {ptr : Ptr} {maxLen : Nat}
    {ins : ZydisDecodedInstruction} :
    decodeAt z m ptr maxLen = .ok ins ↔
      z.decode (m.readable ptr maxLen) = some ins := by
  simp only [decodeAt]
  split
  · simp_all
  · split <;> simp_all

theorem decodeInstructionLength_bounds {z : Zydis} {m : Mem} {ptr : Ptr}
    {len : Nat} (h : decodeInstructionLength z m ptr = .ok len) :
    0 < len ∧ len ≤ 15 := by
  obtain ⟨ins, -, hlen⟩ := bind_eq_ok.mp h
  cases hlen
  exact ⟨ins.length_pos, ins.length_le⟩

/-! ## Instruction-pointer-relative operands -/

namespace ZydisDecodedOperand

def shape : ZydisDecodedOperand → ZydisDecodedOperand
  | .memory base _ => .memory base 0
  | .immediate isRelative _ => .immediate isRelative 0
  | .other => .other

def isEip : ZydisDecodedOperand → Bool
  | .memory .eip _ => true
  | _ => false

def isRip : ZydisDecodedOperand → Bool
  | .memory .rip _ => true
  | _ => false

def isBranch : ZydisDecodedOperand → Bool
  | .immediate isRelative _ => isRelative ≠ 0
  | _ => false

def isIpRelative (op : ZydisDecodedOperand) : Bool :=
  op.isRip || op.isEip || op.isBranch

theorem isEip_of_isRip {op : ZydisDecodedOperand} (h : op.isRip = true) :
    op.isEip = false := by
  cases op with
  | memory base disp =>
      cases base with
      | rip => rfl
      | eip => simp [isRip] at h
      | other => simp [isRip] at h
  | immediate isRelative value => simp [isRip] at h
  | other => simp [isRip] at h

end ZydisDecodedOperand

open ZydisDecodedOperand

namespace ZydisDecodedInstruction

def layout (ins : ZydisDecodedInstruction) : ZydisDecodedInstruction :=
  { ins with operands := ins.operands.map shape }

def ipField (ins : ZydisDecodedInstruction) :
    ZydisDecodedOperand → RawField
  | .immediate isRelative _ => ins.imm (isRelative - 1)
  | _ => ins.rawDisp

def OutsideIpFields (ins : ZydisDecodedInstruction) (i : Nat) : Prop :=
  ∀ op ∈ ins.operands, op.isIpRelative = true →
    i < (ins.ipField op).offset ∨
      (ins.ipField op).offset + (ins.ipField op).size / 8 ≤ i

end ZydisDecodedInstruction

def RawField.signed (field : RawField) (bytes : List Byte) : BitVec 64 :=
  (leWord field.size ((bytes.drop field.offset).take (field.size / 8))).signExtend 64

/--
The address that an operand of an instruction placed at `address` denotes.
Under the address-size prefix the sum is taken in 32 bits and zero-extended.
-/
def ipTarget (ins : ZydisDecodedInstruction) (bytes : List Byte)
    (address : Ptr) (op : ZydisDecodedOperand) : Ptr :=
  let sum := address + BitVec.ofNat 64 ins.length +
    (ins.ipField op).signed bytes
  if op.isEip then (sum.setWidth 32).setWidth 64 else sum

def SameLayout (ins ins' : ZydisDecodedInstruction) : Prop :=
  ins.layout = ins'.layout

/-- What relocation relies on about Zydis and the instruction set. -/
structure Zydis.Lawful (z : Zydis) : Prop where
  length_le : ∀ {buffer ins}, z.decode buffer = some ins →
    ins.length ≤ buffer.length
  field_fits : ∀ {buffer ins op}, z.decode buffer = some ins →
    op ∈ ins.operands → op.isIpRelative = true →
    (ins.ipField op).offset + (ins.ipField op).size / 8 ≤ ins.length
  disp_size : ∀ {buffer ins base disp}, z.decode buffer = some ins →
    .memory base disp ∈ ins.operands → base ≠ .other →
    ins.rawDisp.size = 32 ∧ disp = ins.rawDisp.signed buffer
  imm_size : ∀ {buffer ins isRelative value}, z.decode buffer = some ins →
    .immediate isRelative value ∈ ins.operands → isRelative ≠ 0 →
    isRelative = 1 ∧ (ins.imm 0).size ∈ [8, 16, 32] ∧
      value = (ins.imm 0).signed buffer
  /-- The address size of an instruction selects `RIP` or `EIP` for all of it. -/
  one_base : ∀ {buffer ins op op'}, z.decode buffer = some ins →
    op ∈ ins.operands → op' ∈ ins.operands → op.isEip = true →
    op'.isRip = false
  calc_rip : ∀ {buffer ins disp} (address : Ptr), z.decode buffer = some ins →
    .memory .rip disp ∈ ins.operands →
    z.calcAbsoluteAddress ins (.memory .rip disp) address =
      some (address + BitVec.ofNat 64 ins.length + disp)
  calc_branch : ∀ {buffer ins value} (address : Ptr),
    z.decode buffer = some ins → .immediate 1 value ∈ ins.operands →
    z.calcAbsoluteAddress ins (.immediate 1 value) address =
      some (address + BitVec.ofNat 64 ins.length + value)
  /-- Decoding looks at the bytes of one instruction, and a displacement or
  branch offset does not change how the rest of it is decoded. -/
  decode_stable : ∀ {buffer buffer' ins}, z.decode buffer = some ins →
    ins.length ≤ buffer'.length →
    (∀ i < ins.length, ins.OutsideIpFields i → buffer'[i]? = buffer[i]?) →
    ∃ ins', z.decode buffer' = some ins' ∧ SameLayout ins ins'

def Zydis.DecodesJmp (z : Zydis) : Prop :=
  ∀ {bytes ins}, z.decode (0xE9 :: bytes) = some ins →
    ∃ op ∈ ins.operands, op.isBranch = true

end Ztour
