import Ztour.Relocation.Soundness

/-!
# When relocation throws

Relocation should throw exactly when some displacement does not fit its field.
The relative-immediate switch throws on every branch instead, and `EIP`
displacements are not looked at, so the equivalence holds only on the heads
singled out by `ThrowsAsSpecified`.
-/

namespace Ztour

open Ztour.Foundation ZydisDecodedOperand

variable {z : Zydis} {data source dest : Ptr}

/-! ## Relocation returns or throws -/

section Total

variable {field : RawField} {newDisp : BitVec 64} {insBytes : List Byte}
  {ins : ZydisDecodedInstruction}

theorem ensureDisplacementRelocBounds_total {width : Nat} :
    ReturnsOrThrows (ensureDisplacementRelocBounds width newDisp) := by
  unfold ensureDisplacementRelocBounds
  split
  · exact .ok ()
  · exact .thrown _

theorem relocateDisp_total :
    ReturnsOrThrows (relocateDisp field newDisp insBytes) := by
  unfold relocateDisp
  split
  · exact .thrown _
  · exact ensureDisplacementRelocBounds_total.bind fun _ => .ok _

theorem relocateImm8_total :
    ReturnsOrThrows (relocateImm8 field newDisp insBytes) :=
  ensureDisplacementRelocBounds_total.bind fun _ => .thrown _

theorem relocateImm16_total :
    ReturnsOrThrows (relocateImm16 field newDisp insBytes) :=
  ensureDisplacementRelocBounds_total.bind fun _ => relocateImm8_total

theorem relocateImm32_total :
    ReturnsOrThrows (relocateImm32 field newDisp insBytes) :=
  ensureDisplacementRelocBounds_total.bind fun _ => relocateImm16_total

theorem relocateImm_total :
    ReturnsOrThrows (relocateImm field newDisp insBytes) := by
  unfold relocateImm
  split
  · exact relocateImm32_total
  split
  · exact relocateImm16_total
  split
  · exact relocateImm8_total
  · exact .thrown _

theorem relocateOperand_total {op : ZydisDecodedOperand} :
    ReturnsOrThrows (relocateOperand z ins source dest insBytes op) := by
  unfold relocateOperand
  split
  · exact relocateDisp_total
  · split
    · exact .ok _
    · exact relocateImm_total
  · exact .ok _

theorem relocateInstruction_total :
    ReturnsOrThrows (relocateInstruction z ins source dest insBytes) := by
  unfold relocateInstruction
  induction ins.operands generalizing insBytes with
  | nil => exact .ok insBytes
  | cons op ops ih =>
      rw [List.foldlM_cons]
      exact relocateOperand_total.bind fun _ => ih

/-- The bound on the number of passes is never reached, since every
instruction is at least one byte long. -/
theorem relocateLoop_total {fuel offset : Nat} {code : List Byte}
    (hfuel : code.length ≤ fuel) :
    ReturnsOrThrows (relocateLoop z data source dest fuel offset code) := by
  induction fuel generalizing offset code with
  | zero =>
      obtain rfl := List.length_eq_zero_iff.mp (Nat.le_zero.mp hfuel)
      exact .ok []
  | succ fuel ih =>
      cases code with
      | nil => exact .ok []
      | cons byte bytes =>
          refine ReturnsOrThrows.bind ?_ fun ins =>
            relocateInstruction_total.bind fun _ =>
              ReturnsOrThrows.bind (ih ?_) fun _ => .ok _
          · unfold disassembleInstruction
            split
            · exact .ok _
            · exact .thrown _
          · have := ins.length_pos
            rw [List.length_drop]
            omega

theorem relocateCode_total {code : List Byte} :
    ReturnsOrThrows (relocateCode z data code source dest) := by
  cases code with
  | nil => exact .thrown _
  | cons byte bytes =>
      simp only [relocateCode, List.isEmpty_cons, Bool.not_false,
        ztAssert_true, ok_bind]
      split
      · exact .ok _
      · exact relocateLoop_total le_rfl

end Total

/-! ## Displacements that do not fit -/

def Piece.newDisplacement (source dest : Ptr) (p : Piece)
    (op : ZydisDecodedOperand) : BitVec 64 :=
  Ztour.newDisplacement p.ins p.bytes (source + BitVec.ofNat 64 p.offset)
    (dest + BitVec.ofNat 64 p.offset) op

/-- Some operand of the kind `kind` cannot hold its new displacement. -/
def Unfit (source dest : Ptr) (pieces : List Piece)
    (kind : ZydisDecodedOperand → Bool) : Prop :=
  ∃ p ∈ pieces, ∃ op ∈ p.ins.operands, kind op = true ∧
    ¬ FitsSigned (p.ins.ipField op).size (p.newDisplacement source dest op)

def HasBranch (pieces : List Piece) : Prop :=
  ∃ p ∈ pieces, ∃ op ∈ p.ins.operands, op.isBranch = true

def FieldsRewritten (z : Zydis) (source dest : Ptr) (pieces : List Piece)
    (result : List Byte) : Prop :=
  ∃ pieces', splitCode z result = some pieces' ∧
    List.Forall₂ (fun p p' => ∀ op ∈ p.ins.operands, op.isIpRelative = true →
      (p.ins.ipField op).signed p'.bytes = p.newDisplacement source dest op)
      pieces pieces'

/-- Throwing is equivalent to a displacement that does not fit, and heads with
branches whose displacements all fit are relocated. -/
def CompleteRelocation (z : Zydis) (data : Ptr) (code : List Byte)
    (source dest : Ptr) (pieces : List Piece) : Prop :=
  (Throws (relocateCode z data code source dest) ↔
      Unfit source dest pieces isIpRelative) ∧
    (HasBranch pieces → ¬ Unfit source dest pieces isIpRelative →
      ∃ result, relocateCode z data code source dest = .ok result ∧
        FieldsRewritten z source dest pieces result)

/-- With a branch in the head some displacement does not fit; without one, an
`EIP` displacement that does not fit comes with a `RIP` one. -/
def ThrowsAsSpecified (source dest : Ptr) (code : List Byte)
    (pieces : List Piece) : Prop :=
  code ≠ [] ∧
    (HasBranch pieces → Unfit source dest pieces isIpRelative) ∧
    (¬ HasBranch pieces → Unfit source dest pieces isEip →
      Unfit source dest pieces isRip)

theorem unfit_rip_iff (hz : z.Lawful) {pieces : List Piece}
    (hdec : ∀ p ∈ pieces, p.Decoded z) :
    Unfit source dest pieces isRip ↔
      ∃ p ∈ pieces, ∃ op ∈ p.ins.operands, op.isRip = true ∧
        ¬ FitsSigned 32 (ripDisplacement p.ins p.bytes
          (source + BitVec.ofNat 64 p.offset)
          (dest + BitVec.ofNat 64 p.offset)) := by
  have hop : ∀ p ∈ pieces, ∀ op ∈ p.ins.operands, op.isRip = true →
      (p.ins.ipField op).size = 32 := by
    intro p hp op hop hrip
    obtain ⟨buffer, hbuf, -⟩ := hdec p hp
    have hsize := (rawDisp_fits hz hbuf
      (List.any_eq_true.mpr ⟨op, hop, hrip⟩)).1
    cases op with
    | memory base disp => exact hsize
    | immediate isRelative value => simp [isRip] at hrip
    | other => exact hsize
  constructor
  · rintro ⟨p, hp, op, hmem, hrip, hfit⟩
    refine ⟨p, hp, op, hmem, hrip, ?_⟩
    rwa [hop p hp op hmem hrip, Piece.newDisplacement,
      newDisplacement_of_isRip hrip] at hfit
  · rintro ⟨p, hp, op, hmem, hrip, hfit⟩
    refine ⟨p, hp, op, hmem, hrip, ?_⟩
    rwa [hop p hp op hmem hrip, Piece.newDisplacement,
      newDisplacement_of_isRip hrip]

/-- Relocation throws on every branch and on `RIP` displacements out of range. -/
theorem relocateCode_throws_iff_head (data : Ptr) (hz : z.Lawful)
    (hne : source ≠ dest)
    {code : List Byte} {pieces : List Piece}
    (hsplit : splitCode z code = some pieces) :
    Throws (relocateCode z data code source dest) ↔
      code = [] ∨ HasBranch pieces ∨ Unfit source dest pieces isRip := by
  rw [relocateCode_total.throws_iff, unfit_rip_iff hz (splitCode_decoded hsplit)]
  constructor
  · intro hall
    by_contra hno
    push Not at hno
    obtain ⟨hcode, hbranch, hfit⟩ := hno
    refine hall _ ((relocateCode_eq_ok hz hne).mpr
      ⟨hcode, pieces, hsplit, ?_, rfl⟩)
    intro p hp op hop
    refine ⟨?_, fun hrip => hfit p hp op hop hrip⟩
    by_contra hisBranch
    exact hbranch ⟨p, hp, op, hop, by simpa using hisBranch⟩
  · rintro hbad result hok
    obtain ⟨hcode, pieces', hsplit', hreloc, -⟩ :=
      (relocateCode_eq_ok hz hne).mp hok
    obtain rfl : pieces = pieces' := Option.some.inj (hsplit.symm.trans hsplit')
    rcases hbad with hnil | ⟨p, hp, op, hop, hbranch⟩ | ⟨p, hp, op, hop, hrip, hfit⟩
    · exact hcode hnil
    · simp [(hreloc p hp op hop).1] at hbranch
    · exact hfit ((hreloc p hp op hop).2 hrip)

theorem unfit_isIpRelative (source dest : Ptr) (pieces : List Piece) :
    Unfit source dest pieces isIpRelative ↔
      Unfit source dest pieces isRip ∨ Unfit source dest pieces isEip ∨
        Unfit source dest pieces isBranch := by
  simp only [Unfit, isIpRelative, Bool.or_eq_true]
  constructor
  · rintro ⟨p, hp, op, hop, (hrip | heip) | hbranch, hfit⟩
    · exact .inl ⟨p, hp, op, hop, hrip, hfit⟩
    · exact .inr (.inl ⟨p, hp, op, hop, heip, hfit⟩)
    · exact .inr (.inr ⟨p, hp, op, hop, hbranch, hfit⟩)
  · rintro (⟨p, hp, op, hop, hrip, hfit⟩ | ⟨p, hp, op, hop, heip, hfit⟩ |
      ⟨p, hp, op, hop, hbranch, hfit⟩)
    · exact ⟨p, hp, op, hop, .inl (.inl hrip), hfit⟩
    · exact ⟨p, hp, op, hop, .inl (.inr heip), hfit⟩
    · exact ⟨p, hp, op, hop, .inr hbranch, hfit⟩

theorem hasBranch_of_unfit {pieces : List Piece}
    (h : Unfit source dest pieces isBranch) : HasBranch pieces := by
  obtain ⟨p, hp, op, hop, hbranch, -⟩ := h
  exact ⟨p, hp, op, hop, hbranch⟩

theorem relocateCode_complete_iff (hz : z.Lawful) (hne : source ≠ dest)
    {code : List Byte} {pieces : List Piece}
    (hsplit : splitCode z code = some pieces) :
    CompleteRelocation z data code source dest pieces ↔
      ThrowsAsSpecified source dest code pieces := by
  have hthrows := relocateCode_throws_iff_head data hz hne hsplit
  have hunfit := unfit_isIpRelative source dest pieces
  have hbranch : Unfit source dest pieces isBranch → HasBranch pieces :=
    hasBranch_of_unfit
  have hnil : code = [] → pieces = [] := by
    rintro rfl
    simpa [splitCode, splitFrom, eq_comm] using hsplit
  have hempty : pieces = [] → ¬ Unfit source dest pieces isIpRelative := by
    rintro rfl ⟨p, hp, -⟩
    simp at hp
  constructor
  · rintro ⟨hiff, -⟩
    refine ⟨fun hcode => hempty (hnil hcode) (hiff.mp (hthrows.mpr (.inl hcode))),
      fun hb => hiff.mp (hthrows.mpr (.inr (.inl hb))), fun hb heip => ?_⟩
    have hthrow := hthrows.mp (hiff.mpr (hunfit.mpr (.inr (.inl heip))))
    rcases hthrow with hcode | hhas | hrip
    · exact absurd (hunfit.mpr (.inr (.inl heip))) (hempty (hnil hcode))
    · exact absurd hhas hb
    · exact hrip
  · rintro ⟨hcode, hwith, hwithout⟩
    refine ⟨⟨fun hthrow => ?_, fun hu => ?_⟩, fun hb hfit => absurd (hwith hb) hfit⟩
    · rcases hthrows.mp hthrow with h | hb | hrip
      · exact absurd h hcode
      · exact hwith hb
      · exact hunfit.mpr (.inl hrip)
    · apply hthrows.mpr
      by_cases hb : HasBranch pieces
      · exact .inr (.inl hb)
      · rcases hunfit.mp hu with hrip | heip | hbr
        · exact .inr (.inr hrip)
        · exact .inr (.inr (hwithout hb heip))
        · exact absurd (hbranch hbr) hb

theorem relocateCode_complete_movRip :
    CompleteRelocation (tableZydis smallTable) 0x7000 movRipCode 0x1000 0x2000
      [⟨0, movRipForm.instruction movRipCode, movRipCode⟩] := by
  refine (relocateCode_complete_iff (tableZydis_lawful _) (by decide)
    (by decide)).mpr ⟨by decide, ?_, ?_⟩
  · rintro ⟨p, hp, op, hop, hbranch⟩
    rw [List.mem_singleton] at hp
    subst hp
    simp [InstructionForm.instruction, InstructionForm.operands, movRipForm]
      at hop
    subst hop
    simp [isBranch] at hbranch
  · rintro - ⟨p, hp, op, hop, heip, -⟩
    rw [List.mem_singleton] at hp
    subst hp
    simp [InstructionForm.instruction, InstructionForm.operands, movRipForm]
      at hop
    subst hop
    simp [isEip] at heip

def jmpRel32Code : List Byte := [0xE9, 0x10, 0x00, 0x00, 0x00]

/-- `E9 rel32` moved by 0x1000 bytes: the new displacement fits 32 bits, and
the switch falls through to the narrower bounds. -/
theorem relocateCode_branch_incomplete :
    splitCode (tableZydis smallTable) jmpRel32Code =
        some [⟨0, jmpRel32Form.instruction jmpRel32Code, jmpRel32Code⟩] ∧
      ¬ CompleteRelocation (tableZydis smallTable) 0x7000 jmpRel32Code 0x1000
        0x2000 [⟨0, jmpRel32Form.instruction jmpRel32Code, jmpRel32Code⟩] := by
  refine ⟨by decide, ?_⟩
  rintro ⟨hiff, -⟩
  have hthrow : relocateCode (tableZydis smallTable) 0x7000 jmpRel32Code 0x1000
      0x2000 =
      .error (.thrown
        "Relocation failure, displacement of -4080 cannot fit in type a") := by
    decide
  obtain ⟨p, hp, op, hop, -, hfit⟩ := hiff.mp ⟨_, hthrow⟩
  rw [List.mem_singleton] at hp
  subst hp
  simp only [InstructionForm.instruction, InstructionForm.operands, jmpRel32Form,
    List.mem_singleton] at hop
  subst hop
  revert hfit
  decide

end Ztour
