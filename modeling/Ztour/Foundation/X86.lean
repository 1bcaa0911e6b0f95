import Ztour.Foundation.Ram

/-!
# Some instructions of x86-64

The encodings and the effects of the 64-bit forms of `pushf`, `popf`, `push`,
`pop`, `mov` of an immediate, and `inc` and `dec` in memory.  Code is a list of
bytes that is decoded and performed from its start to its end.
-/

namespace Ztour.Foundation.X86

/-! ## Registers -/

inductive Reg where
  | rax | rcx | rdx | rbx | rsp | rbp | rsi | rdi
  | r8 | r9 | r10 | r11 | r12 | r13 | r14 | r15
  deriving DecidableEq, Repr

def Reg.ofBits (high : Bool) (low : BitVec 3) : Reg :=
  match high, low.toNat with
  | false, 0 => rax
  | false, 1 => rcx
  | false, 2 => rdx
  | false, 3 => rbx
  | false, 4 => rsp
  | false, 5 => rbp
  | false, 6 => rsi
  | false, _ => rdi
  | true, 0 => r8
  | true, 1 => r9
  | true, 2 => r10
  | true, 3 => r11
  | true, 4 => r12
  | true, 5 => r13
  | true, 6 => r14
  | true, _ => r15

/-! ## Flags -/

def merge {w : Nat} (mask new old : BitVec w) : BitVec w :=
  (new &&& mask) ||| (old &&& ~~~mask)

theorem merge_and {w : Nat} {mask other : BitVec w} (new old : BitVec w)
    (h : mask &&& other = 0#w) : merge mask new old &&& other = old &&& other := by
  ext i hi
  have hbit : (mask[i] && other[i]) = false := by
    rw [← BitVec.getElem_and, h, BitVec.getElem_zero]
  simp only [merge, BitVec.getElem_and, BitVec.getElem_or, BitVec.getElem_not]
  cases hmask : mask[i] <;> simp_all

theorem merge_merge {w : Nat} {inner outer : BitVec w} (new old : BitVec w)
    (h : inner &&& ~~~outer = 0#w) :
    merge outer old (merge inner new old) = old := by
  ext i hi
  have hbit : (inner[i] && !outer[i]) = false := by
    rw [← BitVec.getElem_not, ← BitVec.getElem_and, h, BitVec.getElem_zero]
  simp only [merge, BitVec.getElem_and, BitVec.getElem_or, BitVec.getElem_not]
  cases houter : outer[i] <;> simp_all

/-- The bits of RFLAGS that always are the same in 64-bit mode: all but CF, PF,
AF, ZF, SF, TF, IF, DF, OF, IOPL, NT, AC, VIF, VIP and ID.  RF is among them, as
no instruction here leaves it set. -/
def fixedFlags : BitVec 64 := ~~~0x3C7FD5

structure RFlags where
  word : BitVec 64
  fixed : word &&& fixedFlags = 2
  deriving DecidableEq

namespace RFlags

def update (flags : RFlags) (mask new : BitVec 64)
    (h : mask &&& fixedFlags = 0) : RFlags where
  word := merge mask new flags.word
  fixed := (merge_and new flags.word h).trans flags.fixed

theorem update_update {flags : RFlags} {inner outer new : BitVec 64}
    (hinner : inner &&& fixedFlags = 0) (houter : outer &&& fixedFlags = 0)
    (h : inner &&& ~~~outer = 0) :
    (flags.update inner new hinner).update outer flags.word houter = flags := by
  obtain ⟨word, fixed⟩ := flags
  simp only [update, merge_merge new word h]

def ioPrivilege (flags : RFlags) : BitVec 2 := flags.word.extractLsb' 12 2

end RFlags

/-- The flags that `inc` and `dec` set: OF, SF, ZF, AF and PF. -/
def statusMask : BitVec 64 := 0x8D4

def evenParity (value : BitVec 64) : Bool :=
  ((List.range 8).countP fun i => value.getLsbD i) % 2 = 0

def statusWord (overflow adjust : Bool) (result : BitVec 64) : BitVec 64 :=
  (if overflow then 0x800 else 0) ||| (if result.msb then 0x80 else 0) |||
    (if result = 0 then 0x40 else 0) ||| (if adjust then 0x10 else 0) |||
    (if evenParity result then 0x4 else 0)

/-- What `popfq` may set: IOPL only at privilege level 0, IF only at one that
IOPL allows, VIF and VIP never. -/
def popfMask (privilege ioPrivilege : BitVec 2) : BitVec 64 :=
  if privilege = 0 then 0x247FD5
  else if privilege ≤ ioPrivilege then 0x244FD5
  else 0x244DD5

theorem popfMask_fixed (privilege ioPrivilege : BitVec 2) :
    popfMask privilege ioPrivilege &&& fixedFlags = 0 := by
  unfold popfMask
  split
  · decide
  · split <;> decide

theorem statusMask_popfMask (privilege ioPrivilege : BitVec 2) :
    statusMask &&& ~~~popfMask privilege ioPrivilege = 0 := by
  unfold popfMask
  split
  · decide
  · split <;> decide

/-! ## States -/

/-- `rest` is whatever else there is: vector and segment registers and the
like. -/
structure State (ρ : Type) where
  reg : Reg → BitVec 64
  rip : BitVec 64
  flags : RFlags
  privilege : BitVec 2
  mem : Ram 64 Byte
  rest : ρ

inductive Instr where
  | pushfq
  | popfq
  | push (reg : Reg)
  | pop (reg : Reg)
  | movImm (reg : Reg) (value : BitVec 64)
  | inc (locked : Bool) (base : Reg)
  | dec (locked : Bool) (base : Reg)
  deriving DecidableEq, Repr

section Effects

variable {ρ : Type}

namespace State

def setReg (s : State ρ) (reg : Reg) (value : BitVec 64) : State ρ :=
  { s with reg := Function.update s.reg reg value }

def pushWord (s : State ρ) (value : BitVec 64) : State ρ :=
  let top := s.reg .rsp - 8
  { s.setReg .rsp top with mem := s.mem.storeWord top value }

def topWord (s : State ρ) : BitVec 64 := s.mem.loadWord (s.reg .rsp)

def dropWord (s : State ρ) : State ρ := s.setReg .rsp (s.reg .rsp + 8)

def replaceWord (s : State ρ) (a value : BitVec 64) (overflow adjust : Bool) :
    State ρ :=
  { s with
    mem := s.mem.storeWord a value
    flags := s.flags.update statusMask (statusWord overflow adjust value)
      (by decide) }

/-- What an instruction does, apart from RIP.  `lock` changes nothing where
there is one processor. -/
def perform (s : State ρ) : Instr → State ρ
  | .pushfq => s.pushWord s.flags.word
  | .popfq =>
      let value := s.topWord
      { s.dropWord with
        flags := s.flags.update (popfMask s.privilege s.flags.ioPrivilege) value
          (popfMask_fixed _ _) }
  | .push reg => s.pushWord (s.reg reg)
  | .pop reg => s.dropWord.setReg reg s.topWord
  | .movImm reg value => s.setReg reg value
  | .inc _ base =>
      let value := s.mem.loadWord (s.reg base)
      s.replaceWord (s.reg base) (value + 1) (value = BitVec.intMax 64)
        (value.setWidth 4 = BitVec.allOnes 4)
  | .dec _ base =>
      let value := s.mem.loadWord (s.reg base)
      s.replaceWord (s.reg base) (value - 1) (value = BitVec.intMin 64)
        (value.setWidth 4 = 0)

def step (s : State ρ) (i : Instr) (length : Nat) : State ρ :=
  { s.perform i with rip := s.rip + BitVec.ofNat 64 length }

end State

end Effects

/-! ## Encodings -/

structure Rex where
  wide : Bool
  base : Bool
  deriving DecidableEq, Repr

def Rex.ofByte (byte : Byte) : Option Rex :=
  if byte &&& 0xF0 = 0x40 then some ⟨byte.getLsbD 3, byte.getLsbD 0⟩ else none

/-- `inc` or `dec` of the eight bytes at the address in a register; other forms
of ModRM, with a displacement, a SIB byte or a register operand, are left out. -/
def decodeModRM (locked : Bool) (rex : Rex) (modRM : Byte) : Option Instr :=
  let operand := modRM.extractLsb' 0 3
  let digit := modRM.extractLsb' 3 3
  if modRM.extractLsb' 6 2 = 0 ∧ operand ≠ 4 ∧ operand ≠ 5 ∧ rex.wide then
    if digit = 0 then some (.inc locked (.ofBits rex.base operand))
    else if digit = 1 then some (.dec locked (.ofBits rex.base operand))
    else none
  else none

/-- An instruction behind its prefixes, and the bytes behind it.  `lock` stands
before an instruction that changes memory only. -/
def decodeOpcode (locked : Bool) (rex : Rex) : List Byte →
    Option (Instr × List Byte)
  | [] => none
  | opcode :: code =>
      if opcode = 0xFF then do
        let modRM ← code.head?
        let i ← decodeModRM locked rex modRM
        some (i, code.tail)
      else if locked then none
      else if opcode = 0x9C then some (.pushfq, code)
      else if opcode = 0x9D then some (.popfq, code)
      else
        let reg := Reg.ofBits rex.base (opcode.extractLsb' 0 3)
        if opcode &&& 0xF8 = 0x50 then some (.push reg, code)
        else if opcode &&& 0xF8 = 0x58 then some (.pop reg, code)
        else if opcode &&& 0xF8 = 0xB8 ∧ rex.wide ∧ 8 ≤ code.length then
          some (.movImm reg (leWord 64 (code.take 8)), code.drop 8)
        else none

def decodeRex (locked : Bool) (code : List Byte) : Option (Instr × List Byte) :=
  match code.head?.bind Rex.ofByte with
  | some rex => decodeOpcode locked rex code.tail
  | none => decodeOpcode locked ⟨false, false⟩ code

def decode (code : List Byte) : Option (Instr × List Byte) :=
  if code.head? = some 0xF0 then decodeRex true code.tail
  else decodeRex false code

theorem decodeOpcode_length {locked : Bool} {rex : Rex} {code rest : List Byte}
    {i : Instr} (h : decodeOpcode locked rex code = some (i, rest)) :
    rest.length < code.length := by
  cases code with
  | nil => cases h
  | cons opcode code =>
      rw [List.length_cons, Nat.lt_succ_iff]
      simp only [decodeOpcode] at h
      split at h
      · obtain ⟨modRM, -, h⟩ := Option.bind_eq_some_iff.mp h
        obtain ⟨i, -, h⟩ := Option.bind_eq_some_iff.mp h
        cases h
        rw [List.length_tail]
        exact Nat.sub_le _ _
      · split_ifs at h <;> cases h
        all_goals try exact le_rfl
        rw [List.length_drop]
        exact Nat.sub_le _ _

theorem decodeRex_length {locked : Bool} {code rest : List Byte} {i : Instr}
    (h : decodeRex locked code = some (i, rest)) : rest.length < code.length := by
  unfold decodeRex at h
  split at h
  · refine lt_of_lt_of_le (decodeOpcode_length h) ?_
    rw [List.length_tail]
    exact Nat.sub_le _ _
  · exact decodeOpcode_length h

theorem decode_length {code rest : List Byte} {i : Instr}
    (h : decode code = some (i, rest)) : rest.length < code.length := by
  unfold decode at h
  split at h
  · refine lt_of_lt_of_le (decodeRex_length h) ?_
    rw [List.length_tail]
    exact Nat.sub_le _ _
  · exact decodeRex_length h

/-! ## Execution -/

section Execution

variable {ρ : Type}

def run (code : List Byte) (s : State ρ) : Option (State ρ) :=
  if code = [] then some s
  else
    match _h : decode code with
    | none => none
    | some (i, rest) => run rest (s.step i (code.length - rest.length))
  termination_by code.length
  decreasing_by exact decode_length _h

theorem run_nil (s : State ρ) : run [] s = some s := by
  rw [run, if_pos rfl]

theorem run_decoded {code rest : List Byte} {i : Instr}
    (h : decode code = some (i, rest)) (s : State ρ) :
    run code s = run rest (s.step i (code.length - rest.length)) := by
  have hne : code ≠ [] := by
    rintro rfl
    cases h
  rw [run, if_neg hne]
  split
  · rename_i hnone
    cases h.symm.trans hnone
  · rename_i hsome
    cases h.symm.trans hsome
    rfl

theorem run_rip {code : List Byte} {s s' : State ρ} (h : run code s = some s') :
    s'.rip = s.rip + BitVec.ofNat 64 code.length := by
  induction code, s using run.induct with
  | case1 s =>
      rw [run_nil] at h
      cases h
      exact (BitVec.add_zero _).symm
  | case2 code s hne hnone =>
      rw [run, if_neg hne] at h
      split at h
      · cases h
      · rename_i hsome
        cases hnone.symm.trans hsome
  | case3 code s hne i rest hsome ih =>
      rw [run_decoded hsome] at h
      have hlt := decode_length hsome
      rw [ih h, State.step, BitVec.add_assoc, ← BitVec.ofNat_add]
      congr 2
      omega

end Execution

end Ztour.Foundation.X86
