import Ztour.Relocation.Soundness

/-!
# Relocation composes

Moving code twice is the same as moving it once: the second pass finds the same
instructions and, in the fields that the first one rewrote, the same targets.
Moving it back restores every byte.
-/

namespace Ztour

open Ztour.Foundation ZydisDecodedOperand

variable {z : Zydis} {data source dest last : Ptr}

/-! ## One instruction -/

theorem isRip_shape (op : ZydisDecodedOperand) : op.shape.isRip = op.isRip := by
  cases op with
  | memory base disp => cases base <;> rfl
  | immediate isRelative value => rfl
  | other => rfl

theorem isBranch_shape (op : ZydisDecodedOperand) :
    op.shape.isBranch = op.isBranch := by
  cases op <;> rfl

theorem SameLayout.any_eq {ins ins' : ZydisDecodedInstruction}
    {kind : ZydisDecodedOperand → Bool} (h : SameLayout ins ins')
    (hkind : ∀ op, kind op.shape = kind op) :
    ins'.operands.any kind = ins.operands.any kind := by
  have hshapes : ins.operands.map shape = ins'.operands.map shape :=
    congrArg ZydisDecodedInstruction.operands h
  have hany : ∀ ops : List ZydisDecodedOperand,
      (ops.map shape).any kind = ops.any kind := by
    intro ops
    rw [List.any_map]
    exact congrArg ops.any (funext hkind)
  rw [← hany, ← hshapes, hany]

def Piece.ripDisplacement (source dest : Ptr) (p : Piece) : BitVec 64 :=
  Ztour.ripDisplacement p.ins p.bytes (source + BitVec.ofNat 64 p.offset)
    (dest + BitVec.ofNat 64 p.offset)

theorem Piece.relocates_iff {p : Piece} :
    p.Relocates source dest ↔
      p.ins.operands.any isBranch = false ∧
        (p.ins.operands.any isRip = true →
          FitsSigned 32 (p.ripDisplacement source dest)) := by
  constructor
  · intro h
    refine ⟨List.any_eq_false.mpr fun op hop => by simp [(h op hop).1], ?_⟩
    intro hrip
    obtain ⟨op, hop, hisRip⟩ := List.any_eq_true.mp hrip
    exact (h op hop).2 hisRip
  · rintro ⟨hbranch, hfit⟩ op hop
    refine ⟨by simpa using List.any_eq_false.mp hbranch op hop, ?_⟩
    intro hisRip
    exact hfit (List.any_eq_true.mpr ⟨op, hop, hisRip⟩)

theorem Piece.image_eq (p : Piece) :
    p.image source dest =
      if p.ins.operands.any isRip then
        putField p.bytes p.ins.rawDisp.offset 32 (p.ripDisplacement source dest)
      else p.bytes := rfl

theorem Piece.field_fits (hz : z.Lawful) {p : Piece} (hdec : p.Decoded z)
    (hrip : p.ins.operands.any isRip = true) :
    p.ins.rawDisp.size = 32 ∧ p.ins.rawDisp.offset + 4 ≤ p.bytes.length := by
  have hlen := Piece.length_bytes hz hdec
  obtain ⟨buffer, hbuf, -⟩ := hdec
  rw [hlen]
  exact rawDisp_fits hz hbuf hrip

/-! ## Staying in place -/

theorem Piece.ripDisplacement_self (p : Piece) :
    p.ripDisplacement source source = p.ins.rawDisp.signed p.bytes := by
  unfold ripDisplacement Ztour.ripDisplacement
  rw [BitVec.add_comm, BitVec.add_sub_cancel]

theorem fitsSigned_signed {field : RawField} (hsize : field.size = 32)
    (bytes : List Byte) : FitsSigned 32 (field.signed bytes) := by
  cases field with
  | mk size offset =>
      cases hsize
      exact fitsSigned_signExtend (by decide) _

theorem setWidth_signed {field : RawField} (hsize : field.size = 32)
    (bytes : List Byte) :
    (field.signed bytes).setWidth 32 =
      leWord 32 ((bytes.drop field.offset).take 4) := by
  rw [RawField.signed, hsize]
  change ((leWord 32 ((bytes.drop field.offset).take 4)).signExtend 64).setWidth 32 =
    leWord 32 ((bytes.drop field.offset).take 4)
  exact setWidth_signExtend (by decide) (by decide) _

theorem putField_signed {field : RawField} {bytes : List Byte}
    (hsize : field.size = 32) (hfits : field.offset + 4 ≤ bytes.length) :
    putField bytes field.offset 32 (field.signed bytes) = bytes := by
  have hlen : ((bytes.drop field.offset).take 4).length = 4 := by
    rw [List.length_take, List.length_drop]
    omega
  have hfield := leBytes_leWord (congrArg (8 * ·) hlen)
  rw [hlen] at hfield
  rw [putField, setWidth_signed hsize]
  exact (congrArg _ hfield).trans (splice_self hfits)

theorem Piece.relocates_self (hz : z.Lawful) {p : Piece} (hdec : p.Decoded z)
    (hbranch : p.ins.operands.any isBranch = false) :
    p.Relocates source source := by
  refine relocates_iff.mpr ⟨hbranch, fun hrip => ?_⟩
  rw [ripDisplacement_self]
  exact fitsSigned_signed (field_fits hz hdec hrip).1 p.bytes

theorem Piece.image_self (hz : z.Lawful) {p : Piece} (hdec : p.Decoded z) :
    p.image source source = p.bytes := by
  rw [image_eq]
  split
  · rename_i hrip
    obtain ⟨hsize, hfits⟩ := field_fits hz hdec hrip
    rw [ripDisplacement_self, putField_signed hsize hfits]
  · rfl

/-! ## Moving on -/

section Onward

variable {p p' : Piece}

theorem Piece.RelocatedTo.any_eq {kind : ZydisDecodedOperand → Bool}
    (h : p.RelocatedTo source dest p') (hkind : ∀ op, kind op.shape = kind op) :
    p'.ins.operands.any kind = p.ins.operands.any kind :=
  h.2.1.any_eq hkind

theorem Piece.RelocatedTo.ripDisplacement_eq (hz : z.Lawful)
    (hdec : p.Decoded z) (hreloc : p.Relocates source dest)
    (h : p.RelocatedTo source dest p')
    (hrip : p.ins.operands.any isRip = true) :
    p'.ripDisplacement dest last = p.ripDisplacement source last := by
  obtain ⟨hoffset, hlayout, hbytes⟩ := h
  obtain ⟨hsize, hfits⟩ := field_fits hz hdec hrip
  have hfit := (relocates_iff.mp hreloc).2 hrip
  have hstored : p'.ins.rawDisp.signed p'.bytes = p.ripDisplacement source dest := by
    rw [hlayout.rawDisp_eq, hbytes, image_eq, if_pos hrip,
      signed_putField hsize hfits hfit]
  have htarget : ∀ x y : BitVec 64, x + (y - x) = y := by
    intro x y
    rw [BitVec.add_comm, BitVec.sub_add_cancel]
  unfold ripDisplacement Ztour.ripDisplacement at *
  rw [hstored, hoffset, hlayout.length_eq, htarget]

theorem Piece.RelocatedTo.relocates_iff (hz : z.Lawful) (hdec : p.Decoded z)
    (hreloc : p.Relocates source dest) (h : p.RelocatedTo source dest p') :
    p'.Relocates dest last ↔ p.Relocates source last := by
  rw [Piece.relocates_iff, Piece.relocates_iff, h.any_eq isBranch_shape,
    h.any_eq isRip_shape]
  refine and_congr_right fun _ => forall_congr' fun hrip => ?_
  rw [h.ripDisplacement_eq hz hdec hreloc hrip]

theorem Piece.RelocatedTo.image_eq (hz : z.Lawful) (hdec : p.Decoded z)
    (hreloc : p.Relocates source dest) (h : p.RelocatedTo source dest p') :
    p'.image dest last = p.image source last := by
  have hbytes := h.2.2
  rw [Piece.image_eq] at hbytes
  rw [Piece.image_eq, Piece.image_eq, h.any_eq isRip_shape]
  by_cases hrip : p.ins.operands.any isRip = true
  · rw [if_pos hrip] at hbytes
    rw [if_pos hrip, if_pos hrip, h.ripDisplacement_eq hz hdec hreloc hrip,
      h.2.1.rawDisp_eq, hbytes, putField_putField (field_fits hz hdec hrip).2]
  · rw [if_neg hrip] at hbytes
    rw [if_neg hrip, if_neg hrip, hbytes]

end Onward

/-! ## Blocks of code -/

theorem splitFrom_flatten {fuel offset : Nat} {code : List Byte}
    {pieces : List Piece} (h : splitFrom z fuel offset code = some pieces) :
    (pieces.map Piece.bytes).flatten = code := by
  induction fuel generalizing offset code pieces with
  | zero =>
      cases code with
      | nil =>
          cases h
          rfl
      | cons byte bytes => cases h
  | succ fuel ih =>
      cases code with
      | nil =>
          cases h
          rfl
      | cons byte bytes =>
          obtain ⟨ins, tail, -, htail, rfl⟩ := splitFrom_cons.mp h
          rw [List.map_cons, List.flatten_cons, ih htail]
          exact List.take_append_drop ins.length (byte :: bytes)

theorem relocateCode_eq_ok_of_no_branch (hz : z.Lawful) {code result : List Byte}
    {pieces : List Piece} (hcode : code ≠ [])
    (hsplit : splitCode z code = some pieces)
    (hbranch : ∀ p ∈ pieces, p.ins.operands.any isBranch = false) :
    relocateCode z data code source dest = .ok result ↔
      (∀ p ∈ pieces, p.Relocates source dest) ∧
        result = (pieces.map (Piece.image source dest)).flatten := by
  have hdec := splitCode_decoded hsplit
  by_cases hbase : source = dest
  · subst hbase
    have himage : pieces.map (Piece.image source source) =
        pieces.map Piece.bytes :=
      List.map_congr_left fun p hp => Piece.image_self hz (hdec p hp)
    have hself : ∀ p ∈ pieces, p.Relocates source source :=
      fun p hp => Piece.relocates_self hz (hdec p hp) (hbranch p hp)
    rw [relocateCode_self, himage, splitFrom_flatten hsplit]
    exact and_congr_left fun _ => iff_of_true hcode hself
  · rw [relocateCode_eq_ok hz hbase, hsplit]
    constructor
    · rintro ⟨-, pieces', hpieces, hreloc, hresult⟩
      cases hpieces
      exact ⟨hreloc, hresult⟩
    · rintro ⟨hreloc, hresult⟩
      exact ⟨hcode, pieces, rfl, hreloc, hresult⟩

private theorem forall₂_relocatedTo (last : Ptr) (hz : z.Lawful)
    {pieces pieces' : List Piece}
    (hdec : ∀ p ∈ pieces, p.Decoded z)
    (hreloc : ∀ p ∈ pieces, p.Relocates source dest)
    (h : List.Forall₂ (Piece.RelocatedTo source dest) pieces pieces') :
    ((∀ p ∈ pieces', p.ins.operands.any isBranch = false) ∧
      ((∀ p ∈ pieces', p.Relocates dest last) ↔
        ∀ p ∈ pieces, p.Relocates source last)) ∧
      pieces'.map (Piece.image dest last) =
        pieces.map (Piece.image source last) := by
  induction h with
  | nil => simp
  | @cons p p' pieces pieces' hhead _ ih =>
      rw [List.forall_mem_cons] at hdec hreloc
      obtain ⟨⟨hbranch, hiff⟩, hmap⟩ := ih hdec.2 hreloc.2
      have hkept := (Piece.relocates_iff.mp hreloc.1).1
      rw [← hhead.any_eq isBranch_shape] at hkept
      simp only [List.forall_mem_cons, List.map_cons]
      rw [hhead.relocates_iff hz hdec.1 hreloc.1, hiff, hmap,
        hhead.image_eq hz hdec.1 hreloc.1]
      exact ⟨⟨⟨hkept, hbranch⟩, .rfl⟩, rfl⟩

theorem relocateCode_nonempty {code result : List Byte}
    (h : relocateCode z data code source dest = .ok result) : code ≠ [] := by
  rintro rfl
  cases h

/-- Moving on from `dest` is moving from `source`, and moving back restores the
code. -/
theorem relocateCode_comp (hz : z.Lawful) {code moved : List Byte}
    (h : relocateCode z data code source dest = .ok moved) (data' : Ptr) :
    (∀ last result, relocateCode z data' moved dest last = .ok result ↔
        relocateCode z data code source last = .ok result) ∧
      relocateCode z data' moved dest source = .ok code := by
  have hcode := relocateCode_nonempty h
  have hback : relocateCode z data code source source = .ok code :=
    relocateCode_self.mpr ⟨hcode, rfl⟩
  suffices honward : ∀ last result,
      relocateCode z data' moved dest last = .ok result ↔
        relocateCode z data code source last = .ok result from
    ⟨honward, (honward source code).mpr hback⟩
  intro last result
  by_cases hbase : source = dest
  · subst hbase
    obtain ⟨-, rfl⟩ := relocateCode_self.mp h
    exact relocateCode_data hz data' data
  · obtain ⟨-, pieces, hsplit, hreloc, rfl⟩ := (relocateCode_eq_ok hz hbase).mp h
    have hdec := splitCode_decoded hsplit
    obtain ⟨pieces', hsplit', hrel, hlen⟩ := splitFrom_image source dest hz hsplit
    obtain ⟨⟨hbranch', hiff⟩, hmap⟩ :=
      forall₂_relocatedTo last hz hdec hreloc hrel
    have hmoved : splitCode z (pieces.map (Piece.image source dest)).flatten =
        some pieces' := by
      rw [splitCode, hlen]
      exact hsplit'
    have hbranch : ∀ p ∈ pieces, p.ins.operands.any isBranch = false :=
      fun p hp => (Piece.relocates_iff.mp (hreloc p hp)).1
    have hne : (pieces.map (Piece.image source dest)).flatten ≠ [] := by
      rw [← List.length_pos_iff, hlen]
      exact List.length_pos_iff.mpr hcode
    rw [relocateCode_eq_ok_of_no_branch hz hne hmoved hbranch',
      relocateCode_eq_ok_of_no_branch hz hcode hsplit hbranch, hiff, hmap]

def movedRipCode : List Byte := [0x48, 0x8B, 0x05, 0x10, 0xF0, 0xFF, 0xFF]

theorem relocateCode_comp_movRip :
    (∀ last result,
      relocateCode (tableZydis smallTable) 0x7010 movedRipCode 0x2000 last =
          .ok result ↔
        relocateCode (tableZydis smallTable) 0x7000 movRipCode 0x1000 last =
          .ok result) ∧
      relocateCode (tableZydis smallTable) 0x7010 movedRipCode 0x2000 0x1000 =
        .ok movRipCode :=
  relocateCode_comp (tableZydis_lawful _) (by decide) 0x7010

end Ztour
