import Ztour.Foundation.Bytes
import Ztour.Foundation.ByteMemory

/-!
# The two x86-64 jumps of a code patch

`E9 rel32` jumps relative to the address after it, `FF 25 00000000` to the
64-bit address stored right after it.  Nothing else is decoded.
-/

namespace Ztour.Foundation

def jumpTarget (m : Memory 64 Byte) (pc : BitVec 64) : Option (BitVec 64) := do
  let opcode ← m pc
  if opcode = 0xE9 then
    let offset ← m.read (pc + 1) 4
    some (pc + 5 + (leWord 32 offset).signExtend 64)
  else if opcode = 0xFF then
    let operand ← m.read (pc + 1) 5
    let target ← m.read (pc + 6) 8
    if operand = [0x25, 0, 0, 0, 0] then some (leWord 64 target) else none
  else none

/-- The bytes `E9 rel32` at `source`; `target` has to be in range. -/
def relJumpBytes (source target : BitVec 64) : List Byte :=
  0xE9 :: leBytes 4 ((target - (source + 5)).setWidth 32).toNat

def absJumpBytes (target : BitVec 64) : List Byte :=
  [0xFF, 0x25, 0x00, 0x00, 0x00, 0x00] ++ leBytes 8 target.toNat

@[simp] theorem length_relJumpBytes (source target : BitVec 64) :
    (relJumpBytes source target).length = 5 := by
  simp [relJumpBytes]

@[simp] theorem length_absJumpBytes (target : BitVec 64) :
    (absJumpBytes target).length = 14 := by
  simp [absJumpBytes]

theorem jumpTarget_congr {m m' : Memory 64 Byte} {pc : BitVec 64}
    (h : ∀ x ∈ span pc 14, m' x = m x) : jumpTarget m' pc = jumpTarget m pc := by
  have hpart : ∀ i n, i + n ≤ 14 → m'.read (pc + BitVec.ofNat 64 i) n =
      m.read (pc + BitVec.ofNat 64 i) n := fun i n hin =>
    Memory.read_congr (by omega) fun x hx =>
      h x (span_offset_subset hin (by decide) hx)
  have hopcode : m' pc = m pc :=
    h pc (by rw [mem_span, BitVec.sub_self]; decide)
  have hoffset : m'.read (pc + 1) 4 = m.read (pc + 1) 4 :=
    hpart 1 4 (by decide)
  have hoperand : m'.read (pc + 1) 5 = m.read (pc + 1) 5 :=
    hpart 1 5 (by decide)
  have htarget : m'.read (pc + 6) 8 = m.read (pc + 6) 8 :=
    hpart 6 8 (by decide)
  simp only [jumpTarget, hopcode, hoffset, hoperand, htarget]

theorem jumpTarget_relJump {m : Memory 64 Byte} {source target : BitVec 64}
    (hfit : FitsSigned 32 (target - (source + 5)))
    (h : m.Holds source (relJumpBytes source target)) :
    jumpTarget m source = some target := by
  obtain ⟨hopcode, hoffset⟩ := Memory.holds_cons.mp h
  have hread : m.read (source + 1) 4 =
      some (leBytes 4 ((target - (source + 5)).setWidth 32).toNat) :=
    Memory.read_eq_some_iff.mpr ⟨by simp, hoffset⟩
  simp only [jumpTarget, hopcode, hread, Option.bind_eq_bind,
    Option.bind_some, if_true]
  rw [leWord_leBytes_toNat _ (by rfl),
    signExtend_setWidth_of_fits (by decide) (by decide) hfit,
    BitVec.add_comm, BitVec.sub_add_cancel]

theorem jumpTarget_absJump {m : Memory 64 Byte} {source target : BitVec 64}
    (h : m.Holds source (absJumpBytes target)) :
    jumpTarget m source = some target := by
  obtain ⟨hcode, htarget⟩ := Memory.holds_append.mp h
  obtain ⟨hopcode, hoperand⟩ := Memory.holds_cons.mp hcode
  have hread : m.read (source + 1) 5 = some [0x25, 0, 0, 0, 0] :=
    Memory.read_eq_some_iff.mpr ⟨rfl, hoperand⟩
  have hread' : m.read (source + 6) 8 = some (leBytes 8 target.toNat) :=
    Memory.read_eq_some_iff.mpr ⟨by simp, htarget⟩
  have hne : ¬ (0xFF : Byte) = 0xE9 := by decide
  simp only [jumpTarget, hopcode, hread, hread', Option.bind_eq_bind,
    Option.bind_some, if_neg hne, if_true]
  rw [leWord_leBytes_toNat _ (by rfl)]

def ripJumpTarget (m : Memory 64 Byte) (pc : BitVec 64) :
    Option (BitVec 64) := do
  let opcode ← m.read pc 2
  let disp ← m.read (pc + 2) 4
  let target ← m.read (pc + 6 + (leWord 32 disp).signExtend 64) 8
  if opcode = [0xFF, 0x25] then some (leWord 64 target) else none

/-- The bytes `FF 25 disp32` of a jump at `source` through the pointer that is
stored at `pointer`; that has to be in range. -/
def ripJumpBytes (source pointer : BitVec 64) : List Byte :=
  [0xFF, 0x25] ++ leBytes 4 ((pointer - (source + 6)).setWidth 32).toNat

theorem ripJumpTarget_ripJump {m : Memory 64 Byte}
    {source pointer target : BitVec 64}
    (hfit : FitsSigned 32 (pointer - (source + 6)))
    (h : m.Holds source (ripJumpBytes source pointer))
    (htarget : m.Holds pointer (leBytes 8 target.toNat)) :
    ripJumpTarget m source = some target := by
  obtain ⟨hopcode, hdisp⟩ := Memory.holds_append.mp h
  have hread : m.read source 2 = some [0xFF, 0x25] :=
    Memory.read_eq_some_iff.mpr ⟨rfl, hopcode⟩
  have hread' : m.read (source + 2) 4 =
      some (leBytes 4 ((pointer - (source + 6)).setWidth 32).toNat) :=
    Memory.read_eq_some_iff.mpr ⟨by simp, hdisp⟩
  have haddress : source + 6 + (leWord 32 (leBytes 4
      ((pointer - (source + 6)).setWidth 32).toNat)).signExtend 64 =
      pointer := by
    rw [leWord_leBytes_toNat _ (by rfl),
      signExtend_setWidth_of_fits (by decide) (by decide) hfit,
      BitVec.add_comm, BitVec.sub_add_cancel]
  have hpointer : m.read pointer 8 = some (leBytes 8 target.toNat) :=
    Memory.read_eq_some_iff.mpr ⟨by simp, htarget⟩
  simp only [ripJumpTarget, hread, hread', Option.bind_eq_bind,
    Option.bind_some, haddress, hpointer, if_true]
  rw [leWord_leBytes_toNat _ (by rfl)]

end Ztour.Foundation
