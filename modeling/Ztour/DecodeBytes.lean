import Ztour.TableDecoder

/-!
# Decoding a byte range

`decodeBytes` is to cut a range of bytes into instructions.  Its loop tests an
offset that no iteration advances, so a range that starts with an instruction
is decoded at its first byte forever.
-/

namespace Ztour

open Ztour.Foundation

section DecodeBytes

variable (z : Zydis) (m : Mem) (base : Ptr) (amount : Nat)

/-- The loop of `decode_bytes`, with `fuel` bounding its iterations.  The
source declares `curOffset` before the loop and never assigns it again. -/
def decodeBytesLoop (curOffset : Nat) :
    Nat → List ZydisDecodedInstruction → Res (List ZydisDecodedInstruction)
  | 0, _ => .error .outOfFuel
  | fuel + 1, results =>
      if curOffset < amount then
        let maxLeft := amount - curOffset
        let instructionPtr := base + BitVec.ofNat 64 curOffset
        match decodeAt z m instructionPtr maxLeft with
        | .error e => .error e
        | .ok instruction =>
            decodeBytesLoop curOffset fuel (results ++ [instruction])
      else .ok results

def decodeBytes (fuel : Nat) : Res (List ZydisDecodedInstruction) :=
  decodeBytesLoop z m base amount 0 fuel []

/-! ## What it is for -/

def instructionAt (offset : Nat) : Option ZydisDecodedInstruction :=
  z.decode (m.readable (base + BitVec.ofNat 64 offset) (amount - offset))

def coveredLength (instructions : List ZydisDecodedInstruction) : Nat :=
  (instructions.map (·.length)).sum

def LieEndToEnd (instructions : List ZydisDecodedInstruction) : Prop :=
  ∀ i (h : i < instructions.length),
    instructionAt z m base amount (coveredLength (instructions.take i)) =
      some instructions[i]

/-- The call ends, what it returns covers the range, and it throws exactly if
an instruction on the way does not decode. -/
structure PartitionsRange : Prop where
  terminates : ∃ fuel, decodeBytes z m base amount fuel ≠ .error .outOfFuel
  covers : ∀ fuel instructions,
    decodeBytes z m base amount fuel = .ok instructions →
      LieEndToEnd z m base amount instructions ∧
        coveredLength instructions = amount
  throws_iff : (∃ fuel, Throws (decodeBytes z m base amount fuel)) ↔
    ∃ instructions, LieEndToEnd z m base amount instructions ∧
      coveredLength instructions < amount ∧
      instructionAt z m base amount (coveredLength instructions) = none

end DecodeBytes

variable {z : Zydis} {m : Mem} {base : Ptr} {amount curOffset : Nat}

theorem lieEndToEnd_nil : LieEndToEnd z m base amount [] := by
  intro i h
  exact absurd h (Nat.not_lt_zero i)

theorem decodeBytesLoop_diverges {instruction : ZydisDecodedInstruction}
    (hleft : curOffset < amount)
    (h : instructionAt z m base amount curOffset = some instruction)
    (fuel : Nat) (results : List ZydisDecodedInstruction) :
    decodeBytesLoop z m base amount curOffset fuel results =
      .error .outOfFuel := by
  induction fuel generalizing results with
  | zero => rfl
  | succ fuel ih =>
      unfold decodeBytesLoop
      rw [if_pos hleft]
      dsimp only
      rw [decodeAt_eq_ok.mpr h]
      exact ih _

theorem decodeBytes_of_empty (fuel : Nat) :
    decodeBytes z m base 0 (fuel + 1) = .ok [] := rfl

theorem decodeBytes_of_undecodable {e : Err} (hleft : 0 < amount)
    (h : decodeAt z m base amount = .error e) (fuel : Nat) :
    decodeBytes z m base amount (fuel + 1) = .error e := by
  unfold decodeBytes decodeBytesLoop
  rw [if_pos hleft]
  dsimp only
  rw [BitVec.add_zero, Nat.sub_zero, h]

/-- Zydis says that the bytes are no instruction, without running into a gap. -/
def Undecodable (z : Zydis) (m : Mem) (base : Ptr) (amount : Nat) : Prop :=
  z.decode (m.readable base amount) = none ∧
    ((m.readable base amount).length < amount →
      z.noMoreData (m.readable base amount) = false)

theorem undecodable_iff : Undecodable z m base amount ↔
    decodeAt z m base amount = .error (.thrown (failedDecodeText base)) := by
  unfold Undecodable decodeAt
  dsimp only
  split
  · rename_i hsome
    simp [hsome]
  · rename_i hnone
    rw [hnone]
    split
    · rename_i hgap
      simp [hgap.1, hgap.2]
    · rename_i hthrown
      simpa using hthrown

theorem partitionsRange_empty : PartitionsRange z m base 0 where
  terminates := ⟨1, by rw [decodeBytes_of_empty]; simp⟩
  covers := by
    intro fuel instructions h
    cases fuel with
    | zero => cases h
    | succ fuel =>
        cases h
        exact ⟨lieEndToEnd_nil, rfl⟩
  throws_iff := by
    constructor
    · rintro ⟨fuel, what, hthrown⟩
      cases fuel with
      | zero => cases hthrown
      | succ fuel => cases hthrown
    · rintro ⟨instructions, -, hlt, -⟩
      exact absurd hlt (Nat.not_lt_zero _)

theorem instructionAt_zero :
    instructionAt z m base amount 0 = z.decode (m.readable base amount) := by
  unfold instructionAt
  rw [BitVec.add_zero, Nat.sub_zero]

theorem partitionsRange_undecodable (hleft : 0 < amount)
    (h : Undecodable z m base amount) : PartitionsRange z m base amount where
  terminates := by
    refine ⟨1, ?_⟩
    rw [decodeBytes_of_undecodable hleft (undecodable_iff.mp h)]
    simp
  covers := by
    intro fuel instructions hok
    cases fuel with
    | zero => cases hok
    | succ fuel =>
        rw [decodeBytes_of_undecodable hleft (undecodable_iff.mp h)] at hok
        cases hok
  throws_iff := by
    constructor
    · rintro -
      exact ⟨[], lieEndToEnd_nil, hleft, instructionAt_zero.trans h.1⟩
    · rintro -
      exact ⟨1, _, decodeBytes_of_undecodable hleft (undecodable_iff.mp h) 0⟩

/-- A gap inside the first instruction ends the process instead of the call. -/
theorem undecodable_of_partitionsRange (hleft : 0 < amount)
    (hnone : z.decode (m.readable base amount) = none)
    (h : PartitionsRange z m base amount) : Undecodable z m base amount := by
  obtain ⟨fuel, what, hthrown⟩ := h.throws_iff.mpr
    ⟨[], lieEndToEnd_nil, hleft, instructionAt_zero.trans hnone⟩
  cases fuel with
  | zero => cases hthrown
  | succ fuel =>
      refine ⟨hnone, fun hgap => Bool.eq_false_iff.mpr fun hmore => ?_⟩
      have hfault : decodeAt z m base amount = .error (.fault
          (base + BitVec.ofNat 64 (m.readable base amount).length)) := by
        unfold decodeAt
        dsimp only
        rw [hnone]
        dsimp only
        rw [if_pos ⟨hgap, hmore⟩]
      rw [decodeBytes_of_undecodable hleft hfault] at hthrown
      cases hthrown

/-- Only a range with nothing to decode at its start is treated right. -/
theorem partitionsRange_iff (z : Zydis) (m : Mem) (base : Ptr) (amount : Nat) :
    PartitionsRange z m base amount ↔
      amount = 0 ∨ Undecodable z m base amount := by
  constructor
  · intro hpartitions
    rcases Nat.eq_zero_or_pos amount with hzero | hleft
    · exact .inl hzero
    · right
      apply undecodable_of_partitionsRange hleft _ hpartitions
      rw [← instructionAt_zero]
      by_contra hdecodes
      obtain ⟨instruction, hsome⟩ := Option.ne_none_iff_exists'.mp hdecodes
      obtain ⟨fuel, hends⟩ := hpartitions.terminates
      exact hends (decodeBytesLoop_diverges hleft hsome fuel [])
  · rintro (rfl | hnone)
    · exact partitionsRange_empty
    · rcases Nat.eq_zero_or_pos amount with rfl | hleft
      · exact partitionsRange_empty
      · exact partitionsRange_undecodable hleft hnone

/-- One `nop`, whose decoder is lawful, is decoded over and over. -/
theorem partitionsRange_nop :
    (tableZydis smallTable).Lawful ∧
      ¬ PartitionsRange (tableZydis smallTable) (fun _ => some 0x90) 0x1000 1 := by
  refine ⟨tableZydis_lawful smallTable, ?_⟩
  rw [partitionsRange_iff]
  rintro (hzero | hnone)
  · cases hzero
  · exact absurd hnone.1 (by decide)

end Ztour
