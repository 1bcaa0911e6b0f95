import Ztour.Base
import Ztour.Foundation.Jump

/-!
# The encoder

`Encoder` appends to a byte buffer.  The two jumps it emits are the ones that
`jumpTarget` reads back.
-/

namespace Ztour

open Ztour.Foundation

structure Encoder where
  bytes : List Byte := []
  deriving DecidableEq, Repr

namespace Encoder

def relJmpSize : Nat := 5

def addByte (e : Encoder) (byte : Byte) : Encoder :=
  { e with bytes := e.bytes ++ [byte] }

def addBytes (e : Encoder) (newBytes : List Byte) : Encoder :=
  newBytes.foldl addByte e

def addRaw (e : Encoder) (size value : Nat) : Encoder :=
  (leBytes size value).foldl addByte e

def addPtr (e : Encoder) (ptr : Ptr) : Encoder := e.addRaw 8 ptr.toNat

def encodePureJmp (e : Encoder) (dest : Ptr) : Encoder :=
  (e.addBytes [0xFF, 0x25, 0x00, 0x00, 0x00, 0x00]).addPtr dest

def tooFarText (source dest : Ptr) : String :=
  "Cannot encode relative 32-bit jmp from " ++ ptrStr source ++ " to " ++
    ptrStr dest ++ " as they are too far apart"

def encodeRelJmp (e : Encoder) (source dest : Ptr) : Res Encoder :=
  let realSource := source + BitVec.ofNat 64 relJmpSize
  let offset64 := dest - realSource
  if offset64.toInt < -(2 ^ 31) ∨ offset64.toInt > 2 ^ 31 - 1 then
    .error (.thrown (tooFarText source dest))
  else
    let offset32 : BitVec 32 := offset64.setWidth 32
    .ok ((e.addByte 0xE9).addRaw 4 offset32.toNat)

def encodeIncDecAtomicCounter (e : Encoder) (inc : Bool) (counterPtr : Ptr) :
    Res Encoder := do
  ztAssert (counterPtr ≠ 0) "counter_ptr != 0"
  let e := e.addByte 0x9C -- pushfq
  let e := e.addByte 0x50 -- push rax
  let e := (e.addBytes [0x48, 0xB8]).addPtr counterPtr -- mov rax, counter_ptr
  let e := e.addBytes [0xF0, 0x48, 0xFF] -- lock (inc/dec) [rax]
  let e := e.addByte (if inc then 0x00 else 0x08)
  let e := e.addByte 0x58 -- pop rax
  .ok (e.addByte 0x9D) -- popfq

theorem foldl_addByte (e : Encoder) (newBytes : List Byte) :
    newBytes.foldl addByte e = ⟨e.bytes ++ newBytes⟩ := by
  induction newBytes generalizing e with
  | nil => simp
  | cons byte newBytes ih => simp [ih, addByte]

theorem encodePureJmp_bytes (e : Encoder) (dest : Ptr) :
    (e.encodePureJmp dest).bytes = e.bytes ++ absJumpBytes dest := by
  simp only [encodePureJmp, addPtr, addRaw, addBytes, foldl_addByte,
    absJumpBytes, List.append_assoc]

theorem encodeRelJmp_eq_ok {e e' : Encoder} {source dest : Ptr} :
    e.encodeRelJmp source dest = .ok e' ↔
      FitsSigned 32 (dest - (source + 5)) ∧
        e' = ⟨e.bytes ++ relJumpBytes source dest⟩ := by
  have hsize : source + BitVec.ofNat 64 relJmpSize = source + 5 := rfl
  simp only [encodeRelJmp, hsize, FitsSigned]
  split
  · rename_i hfar
    refine ⟨by simp, ?_⟩
    rintro ⟨⟨hlow, hhigh⟩, -⟩
    omega
  · rename_i hnear
    have hbytes : (e.addByte 0xE9).addRaw 4
        ((dest - (source + 5)).setWidth 32).toNat =
        ⟨e.bytes ++ relJumpBytes source dest⟩ := by
      rw [addRaw, foldl_addByte, relJumpBytes, addByte, List.append_assoc,
        List.singleton_append]
    rw [hbytes]
    constructor
    · intro h
      refine ⟨⟨by omega, by omega⟩, ?_⟩
      simpa using h.symm
    · rintro ⟨-, rfl⟩
      rfl

end Encoder

end Ztour
