import Ztour.Decoder

/-!
# Decoders given by a table of instruction forms

A form is an opcode followed by at most one instruction-pointer-relative field.
Every table of forms yields a lawful decoder, so the assumptions on Zydis can
be met, and concrete heads can be decoded.
-/

namespace Ztour

open Ztour.Foundation ZydisDecodedOperand

inductive FieldKind where
  | plain
  | rip
  | eip
  | branch
  deriving DecidableEq, Repr

structure InstructionForm where
  opcode : List Byte
  kind : FieldKind
  fieldBytes : Nat
  opcode_ne_nil : opcode ≠ []
  length_le : opcode.length + fieldBytes ≤ 15
  fieldBytes_memory : kind = .rip ∨ kind = .eip → fieldBytes = 4
  fieldBytes_branch : kind = .branch → fieldBytes ∈ [1, 2, 4]

namespace InstructionForm

variable (form : InstructionForm)

def length : Nat := form.opcode.length + form.fieldBytes

def field : RawField := ⟨8 * form.fieldBytes, form.opcode.length⟩

def operands (value : BitVec 64) : List ZydisDecodedOperand :=
  match form.kind with
  | .plain => []
  | .rip => [.memory .rip value]
  | .eip => [.memory .eip value]
  | .branch => [.immediate 1 value]

theorem length_pos : 0 < form.length := by
  have := List.length_pos_of_ne_nil form.opcode_ne_nil
  simp only [length]
  omega

def instruction (buffer : List Byte) : ZydisDecodedInstruction where
  length := form.length
  operands := form.operands (form.field.signed buffer)
  rawDisp := form.field
  rawImm := (form.field, form.field)
  length_pos := form.length_pos
  length_le := form.length_le

def Matches (buffer : List Byte) : Prop :=
  buffer.take form.opcode.length = form.opcode ∧ form.length ≤ buffer.length

instance (buffer : List Byte) : Decidable (form.Matches buffer) :=
  inferInstanceAs (Decidable (_ ∧ _))

end InstructionForm

/-- The form is chosen by the first opcode byte. -/
def tableDecode (table : List InstructionForm) (buffer : List Byte) :
    Option ZydisDecodedInstruction :=
  match table.find? fun form => form.opcode.head? = buffer.head? with
  | none => none
  | some form =>
      if form.Matches buffer then some (form.instruction buffer) else none

/-- The form has begun, and has not ended with the buffer. -/
def tableNoMoreData (table : List InstructionForm) (buffer : List Byte) : Bool :=
  match buffer, table.find? fun form => form.opcode.head? = buffer.head? with
  | [], _ => true
  | _, none => false
  | _, some form =>
      buffer.take form.opcode.length = form.opcode.take buffer.length &&
        decide (buffer.length < form.length)

def tableCalcAbsoluteAddress (ins : ZydisDecodedInstruction)
    (operand : ZydisDecodedOperand) (address : BitVec 64) :
    Option (BitVec 64) :=
  match operand with
  | .memory .rip disp => some (address + BitVec.ofNat 64 ins.length + disp)
  | .memory .eip disp => some
      (((address + BitVec.ofNat 64 ins.length + disp).setWidth 32).setWidth 64)
  | .immediate isRelative value =>
      if isRelative = 0 then none
      else some (address + BitVec.ofNat 64 ins.length + value)
  | _ => none

def tableZydis (table : List InstructionForm) : Zydis where
  decode := tableDecode table
  noMoreData := tableNoMoreData table
  calcAbsoluteAddress := tableCalcAbsoluteAddress

variable {table : List InstructionForm}

theorem tableDecode_eq_some {buffer : List Byte}
    {ins : ZydisDecodedInstruction} :
    tableDecode table buffer = some ins ↔
      ∃ form, table.find? (fun form => form.opcode.head? = buffer.head?) =
          some form ∧ form.Matches buffer ∧ ins = form.instruction buffer := by
  simp only [tableDecode]
  split
  · rename_i hnone
    simp [hnone]
  · rename_i form hform
    rw [hform]
    split
    · rename_i hmatch
      constructor
      · intro h
        exact ⟨form, rfl, hmatch, (Option.some.inj h).symm⟩
      · rintro ⟨form', hform', -, rfl⟩
        rw [Option.some.inj hform']
    · rename_i hmatch
      constructor
      · intro h
        cases h
      · rintro ⟨form', hform', hmatch', -⟩
        rw [← Option.some.inj hform'] at hmatch'
        exact absurd hmatch' hmatch

theorem InstructionForm.ipField_instruction (form : InstructionForm)
    (buffer : List Byte) (op : ZydisDecodedOperand) :
    (form.instruction buffer).ipField op = form.field := by
  cases op with
  | memory base disp => rfl
  | immediate isRelative value =>
      simp [ZydisDecodedInstruction.ipField, ZydisDecodedInstruction.imm,
        instruction]
  | other => rfl

theorem InstructionForm.operands_shape (form : InstructionForm)
    (value value' : BitVec 64) :
    (form.operands value).map shape = (form.operands value').map shape := by
  simp only [operands]
  split <;> rfl

theorem InstructionForm.outsideIpFields_of_lt (form : InstructionForm)
    (buffer : List Byte) {i : Nat} (h : i < form.opcode.length) :
    (form.instruction buffer).OutsideIpFields i := by
  intro op _ _
  rw [form.ipField_instruction]
  exact .inl h

private theorem take_eq_of_getElem? {xs ys : List Byte} {n : Nat}
    (h : ∀ i < n, ys[i]? = xs[i]?) : ys.take n = xs.take n := by
  apply List.ext_getElem?
  intro i
  by_cases hi : i < n
  · rw [List.getElem?_take_of_lt hi, List.getElem?_take_of_lt hi, h i hi]
  · rw [List.getElem?_take_eq_none (by omega),
      List.getElem?_take_eq_none (by omega)]

theorem tableDecode_stable {buffer buffer' : List Byte}
    {ins : ZydisDecodedInstruction} (h : tableDecode table buffer = some ins)
    (hlen : ins.length ≤ buffer'.length)
    (hagree : ∀ i < ins.length, ins.OutsideIpFields i →
      buffer'[i]? = buffer[i]?) :
    ∃ ins', tableDecode table buffer' = some ins' ∧ SameLayout ins ins' := by
  obtain ⟨form, hfind, hmatch, rfl⟩ := tableDecode_eq_some.mp h
  have hopcode : ∀ i < form.opcode.length, buffer'[i]? = buffer[i]? := by
    intro i hi
    have hlt : i < form.length := by
      unfold InstructionForm.length
      omega
    exact hagree i hlt (form.outsideIpFields_of_lt buffer hi)
  have hhead : buffer'.head? = buffer.head? := by
    rw [List.head?_eq_getElem?, List.head?_eq_getElem?]
    exact hopcode 0 (List.length_pos_of_ne_nil form.opcode_ne_nil)
  refine ⟨form.instruction buffer', tableDecode_eq_some.mpr
    ⟨form, ?_, ⟨?_, hlen⟩, rfl⟩, ?_⟩
  · rw [hhead]
    exact hfind
  · rw [take_eq_of_getElem? hopcode]
    exact hmatch.1
  · simp only [SameLayout, ZydisDecodedInstruction.layout,
      InstructionForm.instruction, ZydisDecodedInstruction.mk.injEq, true_and]
    exact ⟨form.operands_shape _ _, trivial⟩

theorem tableZydis_lawful (table : List InstructionForm) :
    (tableZydis table).Lawful where
  length_le := by
    intro buffer ins h
    obtain ⟨form, -, hmatch, rfl⟩ := tableDecode_eq_some.mp h
    exact hmatch.2
  field_fits := by
    intro buffer ins op h _ _
    obtain ⟨form, -, -, rfl⟩ := tableDecode_eq_some.mp h
    rw [form.ipField_instruction]
    simp [InstructionForm.field, InstructionForm.instruction,
      InstructionForm.length]
  disp_size := by
    intro buffer ins base disp h hop hbase
    obtain ⟨form, -, -, rfl⟩ := tableDecode_eq_some.mp h
    have hmem : disp = form.field.signed buffer ∧
        (form.kind = .rip ∨ form.kind = .eip) := by
      simp only [InstructionForm.instruction, InstructionForm.operands] at hop
      split at hop <;> simp_all
    have hfour := form.fieldBytes_memory hmem.2
    exact ⟨by simp [InstructionForm.instruction, InstructionForm.field, hfour],
      hmem.1⟩
  imm_size := by
    intro buffer ins isRelative value h hop _
    obtain ⟨form, -, -, rfl⟩ := tableDecode_eq_some.mp h
    have hmem : isRelative = 1 ∧ value = form.field.signed buffer ∧
        form.kind = .branch := by
      simp only [InstructionForm.instruction, InstructionForm.operands] at hop
      split at hop <;> simp_all
    obtain ⟨hrel, hvalue, hkind⟩ := hmem
    have hbytes := form.fieldBytes_branch hkind
    refine ⟨hrel, ?_, hvalue⟩
    simp only [ZydisDecodedInstruction.imm, InstructionForm.instruction,
      InstructionForm.field, if_true, List.mem_cons, List.not_mem_nil,
      or_false] at hbytes ⊢
    omega
  one_base := by
    intro buffer ins op op' h hop hop' heip
    obtain ⟨form, -, -, rfl⟩ := tableDecode_eq_some.mp h
    simp only [InstructionForm.instruction, InstructionForm.operands]
      at hop hop'
    split at hop <;> simp_all [isEip, isRip]
  calc_rip := fun _ _ _ => rfl
  calc_branch := fun _ _ _ => rfl
  decode_stable := tableDecode_stable

/-! ## A small table -/

def nopForm : InstructionForm :=
  ⟨[0x90], .plain, 0, by decide, by decide, by decide, by decide⟩

def movRipForm : InstructionForm :=
  ⟨[0x48, 0x8B, 0x05], .rip, 4, by decide, by decide, by decide, by decide⟩

def movEipForm : InstructionForm :=
  ⟨[0x67, 0x48, 0x8B, 0x05], .eip, 4, by decide, by decide, by decide,
    by decide⟩

def jmpRipForm : InstructionForm :=
  ⟨[0xFF, 0x25], .rip, 4, by decide, by decide, by decide, by decide⟩

def jmpRel32Form : InstructionForm :=
  ⟨[0xE9], .branch, 4, by decide, by decide, by decide, by decide⟩

def smallTable : List InstructionForm :=
  [nopForm, movRipForm, movEipForm, jmpRel32Form]

theorem smallTable_decodesJmp : (tableZydis smallTable).DecodesJmp := by
  intro bytes ins h
  change tableDecode smallTable (0xE9 :: bytes) = some ins at h
  obtain ⟨form, hform, -, rfl⟩ := tableDecode_eq_some.mp h
  have hjmp : some jmpRel32Form = some form := hform
  cases hjmp
  exact ⟨_, List.mem_singleton_self _, rfl⟩

end Ztour
