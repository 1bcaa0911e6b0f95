import Ztour.PatternScan.PatternString

/-!
# Printed bytes

`ZT_BYTES_TO_STR` prints two upper-case digits for each byte, with a blank
between them.  Its loop compares an `int` with a `size_t`.  Behind byte
`2 ^ 31 - 1` the `int` overflows, which the language leaves undefined and the
compiled code wraps: as a `size_t` the index is then beyond every vector, and the
loop ends.
-/

namespace Ztour

open Ztour.Foundation
open Allocation (Platform)

def putByte (stream : OutputStream) (i : BitVec 32) (byte : Byte) :
    OutputStream :=
  let stream := if i.toInt > 0 then stream.putChar ' ' else stream
  ((((stream.setw 2).setfill '0').hex).upper).putNat byte.toNat

/-- The loop from index `i` on, which is an `int`, and for the comparison with
the size and the access to the vector a `size_t`. -/
def bytesToStrLoop (bytes : List Byte) :
    Nat → BitVec 32 → OutputStream → Option OutputStream
  | 0, _, _ => none
  | fuel + 1, i, stream =>
      match bytes[(i.signExtend 64).toNat]? with
      | some byte => bytesToStrLoop bytes fuel (i + 1) (putByte stream i byte)
      | none => some stream

/-- `__ztour_bytes_to_str`, with an `int` that wraps. -/
def ztourBytesToStr (bytes : List Byte) : Option String := do
  let stream ← bytesToStrLoop bytes (bytes.length + 1) 0 {}
  some (String.ofList stream.text)

def PrintsBack (platform : Platform) (bytes : List Byte) : Prop :=
  ∃ text, ztourBytesToStr bytes = some text ∧
    parsePatternStr platform text =
      .ok (bytes.map fun byte => (byte.toNat : Int))

/-! ## The text -/

def byteToken (byte : Byte) : List Char :=
  let digits := (Nat.toDigits 16 byte.toNat).map Char.toUpper
  List.replicate (2 - digits.length) '0' ++ digits

theorem length_byteToken (byte : Byte) : (byteToken byte).length = 2 := by
  have hlen : ((Nat.toDigits 16 byte.toNat).map Char.toUpper).length ≤ 2 := by
    rw [List.length_map, Nat.length_toDigits_le_iff (by decide) (by decide)]
    exact byte.isLt
  simp only [byteToken, List.length_append, List.length_replicate]
  omega

theorem byteToken_isNumeral (byte : Byte) : IsNumeral 16 (byteToken byte) := by
  obtain ⟨hne, hdigits⟩ := isNumeral_toDigits (by decide : 1 < 16)
    (fun d hd => digitValue_upper_digitChar hd) byte.toNat
  refine ⟨?_, ?_⟩
  · simp [byteToken, hne]
  · intro c hc
    rcases List.mem_append.mp hc with hzero | hdigit
    · rw [List.eq_of_mem_replicate hzero]
      rfl
    · exact hdigits c hdigit

theorem byteToken_wellFormed (byte : Byte) :
    WellFormedToken (byteToken byte) :=
  .inr (.inr ⟨(length_byteToken byte).le, byteToken_isNumeral byte⟩)

theorem byteToken_isWord (byte : Byte) : IsWord (byteToken byte) := by
  obtain ⟨hne, hdigits⟩ := byteToken_isNumeral byte
  exact ⟨hne, fun c hc => isSpace_of_isDigit (hdigits c hc)⟩

theorem tokenEntry_byteToken (byte : Byte) :
    tokenEntry (byteToken byte) = byte.toNat := by
  rw [tokenEntry_of_numeral (byteToken_isNumeral byte), byteToken,
    numeralValue_replicate_zero,
    numeralValue_toDigits (by decide) fun d hd => digitValue_upper_digitChar hd]

/-- What the loop has printed when it comes to index `i`: a blank comes before
every byte but the first. -/
def printed (i : Nat) (bytes : List Byte) : List Char :=
  (bytes.zipIdx i).flatMap fun entry =>
    (if entry.2 > 0 then [' '] else []) ++ byteToken entry.1

theorem signExtend_index {i : Nat} (h : i ≤ 2 ^ 31) :
    ((BitVec.ofNat 32 i).signExtend 64).toNat =
      if i < 2 ^ 31 then i else 2 ^ 64 - 2 ^ 31 := by
  split
  · rename_i hlt
    have hmsb : (BitVec.ofNat 32 i).msb = false := by
      rw [BitVec.msb_eq_false_iff_two_mul_lt, BitVec.toNat_ofNat]
      omega
    rw [BitVec.signExtend_eq_setWidth_of_msb_false hmsb, BitVec.toNat_setWidth,
      BitVec.toNat_ofNat]
    omega
  · obtain rfl : i = 2 ^ 31 := by omega
    decide

theorem toInt_index {i : Nat} (h : i < 2 ^ 31) :
    (BitVec.ofNat 32 i).toInt = i := by
  rw [BitVec.toInt_eq_toNat_of_lt (by rw [BitVec.toNat_ofNat]; omega),
    BitVec.toNat_ofNat]
  omega

theorem putByte_text (stream : OutputStream) {i : Nat} (byte : Byte)
    (hi : i < 2 ^ 31) (h : stream.width = 0) :
    (putByte stream (BitVec.ofNat 32 i) byte).text =
        stream.text ++ ((if i > 0 then [' '] else []) ++ byteToken byte) ∧
      (putByte stream (BitVec.ofNat 32 i) byte).width = 0 := by
  have hpos : (BitVec.ofNat 32 i).toInt > 0 ↔ i > 0 := by
    rw [toInt_index hi]
    omega
  unfold putByte
  simp only [hpos]
  split
  · simp [OutputStream.putChar, OutputStream.putNat, OutputStream.insert,
      OutputStream.setw, OutputStream.setfill, OutputStream.hex,
      OutputStream.upper, byteToken, h]
  · simp [OutputStream.putNat, OutputStream.insert, OutputStream.setw,
      OutputStream.setfill, OutputStream.hex, OutputStream.upper, byteToken]

/-- The loop prints the first `2 ^ 31` bytes.  The induction is on the passes
that are left, with the index at most `2 ^ 31`. -/
theorem bytesToStrLoop_eq {bytes : List Byte} (hsize : bytes.length < 2 ^ 63)
    {fuel i : Nat} {stream : OutputStream}
    (hi : i ≤ (bytes.take (2 ^ 31)).length)
    (hfuel : (bytes.take (2 ^ 31)).length < i + fuel)
    (hwidth : stream.width = 0) :
    (bytesToStrLoop bytes fuel (BitVec.ofNat 32 i) stream).map
        OutputStream.text =
      some (stream.text ++ printed i ((bytes.take (2 ^ 31)).drop i)) := by
  have hlen := List.length_take (i := 2 ^ 31) (l := bytes)
  induction fuel generalizing i stream with
  | zero => omega
  | succ fuel ih =>
      unfold bytesToStrLoop
      rw [signExtend_index (by omega)]
      rcases Nat.lt_or_ge i (bytes.take (2 ^ 31)).length with hlt | hge
      · have hbyte : i < bytes.length := by omega
        obtain ⟨htext, hwidth'⟩ :=
          putByte_text stream bytes[i] (i := i) (by omega) hwidth
        have hnext := ih (i := i + 1) (by omega) (by omega) hwidth'
        rw [if_pos (by omega), List.getElem?_eq_getElem hbyte]
        dsimp only
        rw [show BitVec.ofNat 32 i + 1 = BitVec.ofNat 32 (i + 1) from
          (BitVec.ofNat_add ..).symm, hnext, htext, List.drop_eq_getElem_cons hlt,
          List.getElem_take]
        simp [printed, List.zipIdx_cons]
      · -- the index is the size of the vector, or has wrapped
        have hnone : bytes[if i < 2 ^ 31 then i else 2 ^ 64 - 2 ^ 31]? = none := by
          rw [List.getElem?_eq_none_iff]
          split <;> omega
        rw [hnone, List.drop_eq_nil_of_le hge]
        simp [printed]

theorem ztourBytesToStr_eq {bytes : List Byte} (hsize : bytes.length < 2 ^ 63) :
    ztourBytesToStr bytes =
      some (String.ofList (printed 0 (bytes.take (2 ^ 31)))) := by
  have hloop : (bytesToStrLoop bytes (bytes.length + 1) 0 {}).map
      OutputStream.text = some ([] ++ printed 0 ((bytes.take (2 ^ 31)).drop 0)) :=
    bytesToStrLoop_eq hsize (Nat.zero_le _)
      (by rw [List.length_take]; omega) rfl
  obtain ⟨stream, hstream, htext⟩ := Option.map_eq_some_iff.mp hloop
  unfold ztourBytesToStr
  rw [hstream]
  simp [htext]

theorem printed_head {i : Nat} {bytes : List Byte} (hi : 0 < i) :
    ∀ c ∈ (printed i bytes).head?, isSpace c = true := by
  cases bytes with
  | nil => simp [printed]
  | cons byte bytes =>
      rintro c hc
      obtain rfl : ' ' = c := by simpa [printed, List.zipIdx_cons, hi] using hc
      rfl

theorem words_printed {i : Nat} {bytes : List Byte} :
    words (printed i bytes) = bytes.map byteToken := by
  induction bytes generalizing i with
  | nil => rfl
  | cons byte bytes ih =>
      have hcons : printed i (byte :: bytes) = (if i > 0 then [' '] else []) ++
          (byteToken byte ++ printed (i + 1) bytes) := by
        simp [printed, List.zipIdx_cons]
      have hblank : ∀ c ∈ (if i > 0 then [' '] else []), isSpace c = true := by
        split <;> simp [isSpace]
      rw [hcons, words_spaces hblank, words_append (byteToken_isWord byte)
        (printed_head (Nat.succ_pos i)), ih, List.map_cons]

theorem parsePatternStr_printed (platform : Platform) (bytes : List Byte) :
    parsePatternStr platform (String.ofList (printed 0 bytes)) =
      .ok (bytes.map fun byte => (byte.toNat : Int)) := by
  have hwords : words (String.ofList (printed 0 bytes)).toList =
      bytes.map byteToken := by
    rw [String.toList_ofList, words_printed]
  rw [parsePatternStr_of_wellFormed, hwords, List.map_map]
  · simp only [Function.comp_def, tokenEntry_byteToken]
  · rw [hwords]
    intro token htoken
    obtain ⟨byte, -, rfl⟩ := List.mem_map.mp htoken
    exact byteToken_wellFormed byte

/-! ## Printing and parsing -/

theorem printsBack_iff_take (platform : Platform) {bytes : List Byte}
    (hsize : bytes.length < 2 ^ 63) :
    PrintsBack platform bytes ↔ bytes.take (2 ^ 31) = bytes := by
  have htoNat : Function.Injective fun byte : Byte => (byte.toNat : Int) := by
    intro b b' h
    exact BitVec.eq_of_toNat_eq (Int.ofNat.inj h)
  unfold PrintsBack
  rw [ztourBytesToStr_eq hsize]
  constructor
  · rintro ⟨text, htext, hparse⟩
    obtain rfl := Option.some.inj htext
    rw [parsePatternStr_printed, Except.ok.injEq] at hparse
    exact htoNat.list_map hparse
  · intro htake
    refine ⟨_, rfl, ?_⟩
    rw [parsePatternStr_printed, htake]

/-- Printed bytes are read back exactly if there are at most `2 ^ 31` of them. -/
theorem printsBack_iff (platform : Platform) {bytes : List Byte}
    (hsize : bytes.length < 2 ^ 63) :
    PrintsBack platform bytes ↔ bytes.length ≤ 2 ^ 31 := by
  rw [printsBack_iff_take platform hsize, List.take_eq_self_iff]

theorem printsBack_nops :
    PrintsBack .unix [0x0F, 0x1F, 0x00, 0xE9] ∧
      PrintsBack .windows [0x0F, 0x1F, 0x00, 0xE9] :=
  ⟨(printsBack_iff .unix (by decide)).mpr (by decide),
    (printsBack_iff .windows (by decide)).mpr (by decide)⟩

/-- Behind byte `2 ^ 31 - 1` the index wraps, and the last byte is missing. -/
theorem printsBack_overflow :
    ¬ PrintsBack .unix (List.replicate (2 ^ 31 + 1) 0x90) := by
  have hlen := List.length_replicate (n := 2 ^ 31 + 1) (a := (0x90 : Byte))
  rw [printsBack_iff_take .unix (by omega), List.take_eq_self_iff]
  omega

end Ztour
