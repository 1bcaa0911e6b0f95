import Ztour.Relocation.Instruction

/-!
# Relocation of a block of instructions

The instruction loop succeeds exactly when the block splits into whole
instructions that are all relocatable, and then its result is the concatenation
of the relocated instructions.
-/

namespace Ztour

open Ztour.Foundation ZydisDecodedOperand

variable {z : Zydis} {data source dest : Ptr}

def Piece.Relocates (source dest : Ptr) (p : Piece) : Prop :=
  ∀ op ∈ p.ins.operands,
    Relocatable p.ins p.bytes (source + BitVec.ofNat 64 p.offset)
      (dest + BitVec.ofNat 64 p.offset) op

def Piece.image (source dest : Ptr) (p : Piece) : List Byte :=
  relocatedBytes p.ins p.bytes (source + BitVec.ofNat 64 p.offset)
    (dest + BitVec.ofNat 64 p.offset)

/-- The instruction and the bytes of a piece belong to one decoding. -/
def Piece.Decoded (z : Zydis) (p : Piece) : Prop :=
  ∃ buffer, z.decode buffer = some p.ins ∧ p.bytes = buffer.take p.ins.length

theorem splitFrom_cons {fuel offset : Nat} {byte : Byte} {bytes : List Byte}
    {pieces : List Piece} :
    splitFrom z (fuel + 1) offset (byte :: bytes) = some pieces ↔
      ∃ ins tail, z.decode (byte :: bytes) = some ins ∧
        splitFrom z fuel (offset + ins.length)
          ((byte :: bytes).drop ins.length) = some tail ∧
        pieces = ⟨offset, ins, (byte :: bytes).take ins.length⟩ :: tail := by
  simp only [splitFrom, Option.bind_eq_bind, Option.bind_eq_some_iff,
    Option.some.injEq]
  constructor
  · rintro ⟨ins, hdec, tail, htail, rfl⟩
    exact ⟨ins, tail, hdec, htail, rfl⟩
  · rintro ⟨ins, tail, hdec, htail, rfl⟩
    exact ⟨ins, hdec, tail, htail, rfl⟩

theorem splitFrom_decoded {fuel offset : Nat} {code : List Byte}
    {pieces : List Piece} (h : splitFrom z fuel offset code = some pieces) :
    ∀ p ∈ pieces, p.Decoded z := by
  induction fuel generalizing offset code pieces with
  | zero =>
      cases code with
      | nil => simp [splitFrom] at h; simp [h]
      | cons byte bytes => simp [splitFrom] at h
  | succ fuel ih =>
      cases code with
      | nil => simp [splitFrom] at h; simp [h]
      | cons byte bytes =>
          obtain ⟨ins, tail, hdec, htail, rfl⟩ := splitFrom_cons.mp h
          intro p hp
          rcases List.mem_cons.mp hp with rfl | hp
          · exact ⟨_, hdec, rfl⟩
          · exact ih htail p hp

theorem splitCode_decoded {code : List Byte} {pieces : List Piece}
    (h : splitCode z code = some pieces) : ∀ p ∈ pieces, p.Decoded z :=
  splitFrom_decoded h

theorem relocateLoop_eq_ok (data : Ptr) (hz : z.Lawful) {fuel offset : Nat}
    {code result : List Byte} :
    relocateLoop z data source dest fuel offset code = .ok result ↔
      ∃ pieces, splitFrom z fuel offset code = some pieces ∧
        (∀ p ∈ pieces, p.Relocates source dest) ∧
        result = (pieces.map (Piece.image source dest)).flatten := by
  induction fuel generalizing offset code result with
  | zero =>
      cases code with
      | nil => simp [relocateLoop, splitFrom, eq_comm]
      | cons byte bytes => simp [relocateLoop, splitFrom]
  | succ fuel ih =>
      cases code with
      | nil => simp [relocateLoop, splitFrom, eq_comm]
      | cons byte bytes =>
          simp only [relocateLoop, bind_eq_ok, disassembleInstruction_eq_ok,
            splitFrom_cons]
          constructor
          · rintro ⟨ins, hdec, insBytes, hins, results, hloop, hres⟩
            obtain ⟨tail, htail, hreloc, rfl⟩ := ih.mp hloop
            obtain ⟨hgood, rfl⟩ := (relocateInstruction_eq_ok hz hdec).mp hins
            refine ⟨_, ⟨ins, tail, hdec, htail, rfl⟩, ?_, ?_⟩
            · intro p hp
              rcases List.mem_cons.mp hp with rfl | hp
              · exact hgood
              · exact hreloc p hp
            · simpa [Piece.image] using (Except.ok.inj hres).symm
          · rintro ⟨pieces, ⟨ins, tail, hdec, htail, rfl⟩, hreloc, rfl⟩
            refine ⟨ins, hdec, _, (relocateInstruction_eq_ok hz hdec).mpr
              ⟨hreloc _ List.mem_cons_self, rfl⟩, _, ih.mpr ⟨tail, htail,
              fun p hp => hreloc p (List.mem_cons_of_mem _ hp), rfl⟩, ?_⟩
            simp [Piece.image]

theorem relocateCode_self {code result : List Byte} :
    relocateCode z data code source source = .ok result ↔
      code ≠ [] ∧ result = code := by
  cases code with
  | nil => simp [relocateCode, ztAssert]
  | cons byte bytes => simp [relocateCode, ztAssert, eq_comm]

theorem relocateCode_eq_ok (hz : z.Lawful) (hne : source ≠ dest)
    {code result : List Byte} :
    relocateCode z data code source dest = .ok result ↔
      code ≠ [] ∧ ∃ pieces, splitCode z code = some pieces ∧
        (∀ p ∈ pieces, p.Relocates source dest) ∧
        result = (pieces.map (Piece.image source dest)).flatten := by
  rw [splitCode, ← relocateLoop_eq_ok data hz]
  cases code with
  | nil => simp [relocateCode, ztAssert]
  | cons byte bytes =>
      simp only [relocateCode, List.isEmpty_cons, Bool.not_false,
        ztAssert_true, ok_bind, if_neg hne]
      simp

theorem relocateCode_data (hz : z.Lawful) {code result : List Byte}
    (data data' : Ptr) :
    relocateCode z data code source dest = .ok result ↔
      relocateCode z data' code source dest = .ok result := by
  by_cases hbase : source = dest
  · rw [hbase, relocateCode_self, relocateCode_self]
  · rw [relocateCode_eq_ok hz hbase, relocateCode_eq_ok hz hbase]

/-! ## The relocated block decodes at the same boundaries -/

/-- `p'` is `p` after relocation: same place, same layout, rewritten bytes. -/
def Piece.RelocatedTo (source dest : Ptr) (p p' : Piece) : Prop :=
  p'.offset = p.offset ∧ SameLayout p.ins p'.ins ∧
    p'.bytes = p.image source dest

theorem SameLayout.length_eq {ins ins' : ZydisDecodedInstruction}
    (h : SameLayout ins ins') : ins'.length = ins.length :=
  (congrArg ZydisDecodedInstruction.length h).symm

theorem SameLayout.rawDisp_eq {ins ins' : ZydisDecodedInstruction}
    (h : SameLayout ins ins') : ins'.rawDisp = ins.rawDisp :=
  (congrArg ZydisDecodedInstruction.rawDisp h).symm

theorem SameLayout.rawImm_eq {ins ins' : ZydisDecodedInstruction}
    (h : SameLayout ins ins') : ins'.rawImm = ins.rawImm :=
  (congrArg ZydisDecodedInstruction.rawImm h).symm

theorem SameLayout.ipTarget_eq {ins ins' : ZydisDecodedInstruction}
    (h : SameLayout ins ins') (bytes : List Byte) (address : Ptr)
    (op : ZydisDecodedOperand) :
    ipTarget ins' bytes address op = ipTarget ins bytes address op := by
  have hfield : ins'.ipField op = ins.ipField op := by
    cases op <;>
      simp [ZydisDecodedInstruction.ipField, ZydisDecodedInstruction.imm,
        h.rawDisp_eq, h.rawImm_eq]
  simp only [ipTarget, hfield, h.length_eq]

theorem Piece.length_bytes (hz : z.Lawful) {p : Piece} (h : p.Decoded z) :
    p.bytes.length = p.ins.length := by
  obtain ⟨buffer, hdec, hbytes⟩ := h
  rw [hbytes, List.length_take, Nat.min_eq_left (hz.length_le hdec)]

theorem Piece.length_image (source dest : Ptr) (hz : z.Lawful) {p : Piece}
    (h : p.Decoded z) :
    (p.image source dest).length = p.ins.length := by
  have hlen := Piece.length_bytes hz h
  obtain ⟨buffer, hdec, -⟩ := h
  rw [Piece.image, relocatedBytes]
  split
  · rename_i hrip
    have hfits := (rawDisp_fits hz hdec hrip).2
    rw [length_putField (by omega), hlen]
  · exact hlen

theorem Piece.image_outside (hz : z.Lawful) {p : Piece} (h : p.Decoded z)
    {i : Nat} (hi : p.ins.OutsideIpFields i) :
    (p.image source dest)[i]? = p.bytes[i]? := by
  have hlen := Piece.length_bytes hz h
  obtain ⟨buffer, hdec, -⟩ := h
  rw [Piece.image, relocatedBytes]
  split
  · rename_i hrip
    obtain ⟨hsize, hfits⟩ := rawDisp_fits hz hdec hrip
    obtain ⟨op, hop, hisRip⟩ := List.any_eq_true.mp hrip
    have hout := hi op hop (by simp [isIpRelative, hisRip])
    have hfield : p.ins.ipField op = p.ins.rawDisp := by
      cases op <;> simp_all [isRip, ZydisDecodedInstruction.ipField]
    rw [hfield, hsize] at hout
    apply splice_getElem?_of_outside
    · simpa using (by omega : p.ins.rawDisp.offset + 4 ≤ p.bytes.length)
    · simpa using hout
  · rfl

theorem Piece.decode_image (source dest : Ptr) (hz : z.Lawful) {p : Piece}
    (h : p.Decoded z) (rest : List Byte) :
    ∃ ins', z.decode (p.image source dest ++ rest) = some ins' ∧
      SameLayout p.ins ins' := by
  have himage := Piece.length_image source dest hz h
  have hkept : ∀ i, p.ins.OutsideIpFields i →
      (p.image source dest)[i]? = p.bytes[i]? :=
    fun i hi => Piece.image_outside hz h hi
  obtain ⟨buffer, hdec, hbytes⟩ := h
  refine hz.decode_stable hdec (by rw [List.length_append]; omega) ?_
  intro i hi hout
  rw [List.getElem?_append_left (by omega), hkept i hout, hbytes,
    List.getElem?_take_of_lt hi]

theorem splitFrom_append {fuel offset : Nat} {head rest : List Byte}
    {ins : ZydisDecodedInstruction} {tail : List Piece}
    (hdec : z.decode (head ++ rest) = some ins)
    (hlen : head.length = ins.length)
    (htail : splitFrom z fuel (offset + ins.length) rest = some tail) :
    splitFrom z (fuel + 1) offset (head ++ rest) =
      some (⟨offset, ins, head⟩ :: tail) := by
  have hpos := ins.length_pos
  cases head with
  | nil =>
      rw [List.length_nil] at hlen
      omega
  | cons byte bytes =>
      have hdrop : ((byte :: bytes) ++ rest).drop ins.length = rest := by
        rw [← hlen, List.drop_left]
      have htake : ((byte :: bytes) ++ rest).take ins.length =
          byte :: bytes := by
        rw [← hlen, List.take_left]
      rw [List.cons_append] at hdec hdrop htake ⊢
      refine splitFrom_cons.mpr ⟨ins, tail, hdec, ?_, ?_⟩
      · rw [hdrop]
        exact htail
      · rw [htake]

theorem splitFrom_image (source dest : Ptr) (hz : z.Lawful) {fuel offset : Nat}
    {code : List Byte} {pieces : List Piece}
    (h : splitFrom z fuel offset code = some pieces) :
    ∃ pieces', splitFrom z fuel offset
        (pieces.map (Piece.image source dest)).flatten = some pieces' ∧
      List.Forall₂ (Piece.RelocatedTo source dest) pieces pieces' ∧
      (pieces.map (Piece.image source dest)).flatten.length = code.length := by
  induction fuel generalizing offset code pieces with
  | zero =>
      cases code with
      | nil =>
          obtain rfl : pieces = [] := by simpa [splitFrom, eq_comm] using h
          exact ⟨[], by simp [splitFrom], .nil, rfl⟩
      | cons byte bytes => simp [splitFrom] at h
  | succ fuel ih =>
      cases code with
      | nil =>
          obtain rfl : pieces = [] := by simpa [splitFrom, eq_comm] using h
          exact ⟨[], by simp [splitFrom], .nil, rfl⟩
      | cons byte bytes =>
          have hall := splitFrom_decoded h
          obtain ⟨ins, tail, hdec, htail, rfl⟩ := splitFrom_cons.mp h
          obtain ⟨tail', htail', hrel, hlen⟩ := ih htail
          have hhead := hall _ List.mem_cons_self
          have hins := hz.length_le hdec
          have himage := Piece.length_image source dest hz hhead
          obtain ⟨ins', hdec', hlayout⟩ :=
            Piece.decode_image source dest hz hhead
              (tail.map (Piece.image source dest)).flatten
          have hins' : ins'.length = ins.length := hlayout.length_eq
          have hsplit' := splitFrom_append hdec' (himage.trans hins'.symm)
            (hins'.symm ▸ htail')
          refine ⟨_, hsplit', .cons ⟨rfl, hlayout, rfl⟩ hrel, ?_⟩
          rw [List.map_cons, List.flatten_cons, List.length_append, hlen,
            himage, List.length_drop]
          exact Nat.add_sub_cancel' hins

end Ztour
