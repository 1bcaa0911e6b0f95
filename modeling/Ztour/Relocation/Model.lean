import Ztour.Decoder

/-!
# Relocation of cloned function heads

`relocateCode` copies whole instructions and rewrites the fields that encode an
address relative to the instruction pointer.  The cases of the immediate
switch have no `break`: each falls through into the next one and the last into
the default, which throws.
-/

namespace Ztour

open Ztour.Foundation

def typeName (width : Nat) : String :=
  if width = 32 then "i" else if width = 16 then "s" else "a"

def ensureDisplacementRelocBounds (width : Nat) (displacement : BitVec 64) :
    Res Unit :=
  if FitsSigned width displacement then .ok ()
  else .error (.thrown ("Relocation failure, displacement of " ++
    toString displacement.toInt ++ " cannot fit in type " ++ typeName width))

/-- The store of the low `width` bits of `value` at `offset` of the buffer. -/
def putField (bytes : List Byte) (offset width : Nat) (value : BitVec 64) :
    List Byte :=
  splice bytes offset (leBytes (width / 8) (value.setWidth width).toNat)

/-! ## One operand -/

section Operand

variable (field : RawField) (newDisp : BitVec 64)

/-- A `uint8_t` is streamed as a character. -/
def RawField.sizeStr : String := String.singleton (Char.ofNat field.size)

def relocateImmDefault (_insBytes : List Byte) : Res (List Byte) :=
  .error (.thrown ("Encountered weird immediate size: " ++ field.sizeStr))

def relocateImm8 (insBytes : List Byte) : Res (List Byte) := do
  ensureDisplacementRelocBounds 8 newDisp
  relocateImmDefault field (putField insBytes field.offset 8 newDisp)

def relocateImm16 (insBytes : List Byte) : Res (List Byte) := do
  ensureDisplacementRelocBounds 16 newDisp
  -- no `break`: on into `case 8`
  relocateImm8 field newDisp (putField insBytes field.offset 16 newDisp)

def relocateImm32 (insBytes : List Byte) : Res (List Byte) := do
  ensureDisplacementRelocBounds 32 newDisp
  -- no `break`: on into `case 16`
  relocateImm16 field newDisp (putField insBytes field.offset 32 newDisp)

/-- The `switch` on the immediate size. -/
def relocateImm (insBytes : List Byte) : Res (List Byte) :=
  if field.size = 32 then relocateImm32 field newDisp insBytes
  else if field.size = 16 then relocateImm16 field newDisp insBytes
  else if field.size = 8 then relocateImm8 field newDisp insBytes
  else relocateImmDefault field insBytes

def relocateDisp (insBytes : List Byte) : Res (List Byte) :=
  if field.size ≠ 32 then
    .error (.thrown ("Encountered weird displacement size: " ++ field.sizeStr))
  else do
    ensureDisplacementRelocBounds 32 newDisp
    .ok (putField insBytes field.offset 32 newDisp)

end Operand

variable (z : Zydis) (data : Ptr)

/--
One pass of the operand loop.  The status of `ZydisCalcAbsoluteAddress` is
ignored: on failure the target stays 0.
-/
def relocateOperand (ins : ZydisDecodedInstruction)
    (remoteAddressFrom remoteAddressTo : Ptr) (insBytes : List Byte)
    (operand : ZydisDecodedOperand) : Res (List Byte) :=
  let absTarget :=
    (z.calcAbsoluteAddress ins operand remoteAddressFrom).getD 0
  let ripAddr := remoteAddressTo + BitVec.ofNat 64 ins.length
  let newDisp := absTarget - ripAddr
  match operand with
  | .memory .rip _ => relocateDisp ins.rawDisp newDisp insBytes
  | .immediate isRelative _ =>
      if isRelative = 0 then .ok insBytes
      else relocateImm (ins.imm (isRelative - 1)) newDisp insBytes
  | _ => .ok insBytes

def relocateInstruction (ins : ZydisDecodedInstruction)
    (remoteAddressFrom remoteAddressTo : Ptr) (insBytes : List Byte) :
    Res (List Byte) :=
  ins.operands.foldlM
    (relocateOperand z ins remoteAddressFrom remoteAddressTo) insBytes

/-! ## The instruction loop -/

/-- The loop from `offset` on, with `rest` the bytes still to copy.  They stand
at `data + offset`, which only the text of an error mentions. -/
def relocateLoop (fromBase toBase : Ptr) :
    Nat → Nat → List Byte → Res (List Byte)
  | _, _, [] => .ok []
  | 0, _, _ :: _ => .error .outOfFuel
  | fuel + 1, offset, byte :: bytes => do
      let rest := byte :: bytes
      let ins ← disassembleInstruction z (data + BitVec.ofNat 64 offset) rest
      let insBytes ← relocateInstruction z ins
        (fromBase + BitVec.ofNat 64 offset) (toBase + BitVec.ofNat 64 offset)
        (rest.take ins.length)
      let results ← relocateLoop fromBase toBase fuel (offset + ins.length)
        (rest.drop ins.length)
      .ok (insBytes ++ results)

def relocateCode (codeBytes : List Byte) (fromBase toBase : Ptr) :
    Res (List Byte) := do
  ztAssert (!codeBytes.isEmpty) "!code_bytes.empty()"
  if fromBase = toBase then .ok codeBytes
  else relocateLoop z data fromBase toBase codeBytes.length 0 codeBytes

/-! ## Splitting code into instructions -/

structure Piece where
  offset : Nat
  ins : ZydisDecodedInstruction
  bytes : List Byte
  deriving DecidableEq, Repr

def splitFrom : Nat → Nat → List Byte → Option (List Piece)
  | _, _, [] => some []
  | 0, _, _ :: _ => none
  | fuel + 1, offset, byte :: bytes => do
      let rest := byte :: bytes
      let ins ← z.decode rest
      let pieces ← splitFrom fuel (offset + ins.length) (rest.drop ins.length)
      some (⟨offset, ins, rest.take ins.length⟩ :: pieces)

/-- The whole instructions that `codeBytes` consists of. -/
def splitCode (codeBytes : List Byte) : Option (List Piece) :=
  splitFrom z codeBytes.length 0 codeBytes

end Ztour
