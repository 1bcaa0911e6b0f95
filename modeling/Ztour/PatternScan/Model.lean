import Ztour.Base

/-!
# Pattern scanning of a region

`signedPatternScanRegion` looks for the first byte of the pattern that is not a
wildcard with `memchr` and compares the rest of the pattern relative to each
place where it is found.  Reads are partial: a comparison that leaves the
mapped memory ends the scan with a fault.
-/

namespace Ztour

open Ztour.Foundation

/-- The entry `-1` is a wildcard, the others are byte values. -/
abbrev SignedBytePattern := List Int

structure MemoryRegion where
  base : Ptr
  size : BitVec 64
  fits : base.toNat + size.toNat ≤ 2 ^ 64

/-- `std::memchr` behaves as if it read the bytes in order and stopped at the
first one that is equal. -/
def memchr (m : Mem) (ptr : Ptr) (byte : Byte) : Nat → Res (Option Ptr)
  | 0 => .ok none
  | count + 1 => do
      let first ← readByte m ptr
      if first = byte then .ok (some ptr) else memchr m (ptr + 1) byte count

/-- The comparison loop, from index `j` after `nextPossibleBase` on. -/
def restMatches (m : Mem) (nextPossibleBase : Ptr) :
    SignedBytePattern → Nat → Res Bool
  | [], _ => .ok true
  | entry :: rest, j =>
      if entry = -1 then restMatches m nextPossibleBase rest (j + 1)
      else do
        let byte ← readByte m (nextPossibleBase + BitVec.ofNat 64 j)
        if entry ≠ byte.toNat then .ok false
        else restMatches m nextPossibleBase rest (j + 1)

section Scan

variable (m : Mem) (pattern : SignedBytePattern) (leadingWildcards : Nat)
  (firstValidByte : Byte)

/-- The scanning loop, with `fuel` bounding its iterations. -/
def scanLoop : Nat → Ptr → Nat → List Ptr → Res (List Ptr)
  | 0, _, _, _ => .error .outOfFuel
  | fuel + 1, curStartPos, remainingSize, results =>
      if remainingSize < pattern.length - leadingWildcards then .ok results
      else do
        match ← memchr m curStartPos firstValidByte remainingSize with
        | none => .ok results
        | some nextPossibleBase => do
            let isMatch ← restMatches m nextPossibleBase
              (pattern.drop (leadingWildcards + 1)) 1
            let results := if isMatch then
                results ++ [nextPossibleBase - BitVec.ofNat 64 leadingWildcards]
              else results
            let nextStartPos := nextPossibleBase + 1
            let stepSize := (nextStartPos - curStartPos).toNat
            ztAssert (stepSize ≤ remainingSize) "step_size <= remaining_size"
            scanLoop fuel nextStartPos (remainingSize - stepSize) results

end Scan

def leadingWildcards (pattern : SignedBytePattern) : Nat :=
  (pattern.takeWhile (· = -1)).length

/-- The conversion of the first entry that is not a wildcard to `uint8_t`. -/
def firstValidByte (pattern : SignedBytePattern) : Byte :=
  BitVec.ofInt 8 (pattern.getD (leadingWildcards pattern) 0)

def signedPatternScanRegion (m : Mem) (region : MemoryRegion)
    (pattern : SignedBytePattern) : Res (List Ptr) :=
  let leading := leadingWildcards pattern
  if pattern.length = 0 ∨ region.size.toNat < pattern.length then .ok []
  else if leading = pattern.length then
    .error (.thrown "Cannot scan with pattern consisting of only wildcards")
  else
    scanLoop m pattern leading (firstValidByte pattern) (region.size.toNat + 1)
      (region.base + BitVec.ofNat 64 leading) (region.size.toNat - leading) []

/-! ## What the scan is for -/

def ValidPattern (pattern : SignedBytePattern) : Prop :=
  (∀ entry ∈ pattern, -1 ≤ entry ∧ entry ≤ 255) ∧ ∃ entry ∈ pattern, entry ≠ -1

instance (pattern : SignedBytePattern) : Decidable (ValidPattern pattern) :=
  inferInstanceAs (Decidable (_ ∧ _))

def MemoryRegion.Mapped (region : MemoryRegion) (m : Mem) : Prop :=
  ∀ x ∈ span region.base region.size.toNat, m x ≠ none

def EntryMatches (m : Mem) (ptr : Ptr) (entry : Int) : Prop :=
  entry = -1 ∨ ∃ byte, m ptr = some byte ∧ entry = byte.toNat

def EntryMismatches (m : Mem) (ptr : Ptr) (entry : Int) : Prop :=
  entry ≠ -1 ∧ ∃ byte, m ptr = some byte ∧ entry ≠ byte.toNat

def EntryUnmapped (m : Mem) (ptr : Ptr) (entry : Int) : Prop :=
  entry ≠ -1 ∧ m ptr = none

def MatchesAt (m : Mem) (pattern : SignedBytePattern) (ptr : Ptr) : Prop :=
  ∀ i (h : i < pattern.length),
    EntryMatches m (ptr + BitVec.ofNat 64 i) pattern[i]

def MemoryRegion.InBounds (region : MemoryRegion) (pattern : SignedBytePattern)
    (ptr : Ptr) : Prop :=
  region.base.toNat ≤ ptr.toNat ∧
    ptr.toNat + pattern.length ≤ region.base.toNat + region.size.toNat

instance (region : MemoryRegion) (pattern : SignedBytePattern) (ptr : Ptr) :
    Decidable (region.InBounds pattern ptr) :=
  inferInstanceAs (Decidable (_ ∧ _))

end Ztour
