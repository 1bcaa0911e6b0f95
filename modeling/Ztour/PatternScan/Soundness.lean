import Ztour.PatternScan.Results

/-!
# Soundness of the pattern scan

A scan stays in its region and reports only places in it where the pattern
matches, exactly when every late hit is refused by an entry that is still
compared inside the region.  The search by `memchr` covers all remaining bytes,
so a late hit in the last bytes is compared with what follows the region.
-/

namespace Ztour

open Ztour.Foundation

variable {m : Mem} {region : MemoryRegion} {pattern : SignedBytePattern}

def MemoryRegion.bytes (region : MemoryRegion) : Set Ptr :=
  span region.base region.size.toNat

instance (region : MemoryRegion) : DecidablePred (· ∈ region.bytes) :=
  fun x => inferInstanceAs (Decidable (x ∈ span region.base region.size.toNat))

/-- On the memory that maps the region only, a read outside it would fault. -/
structure ScanSound (m : Mem) (region : MemoryRegion)
    (pattern : SignedBytePattern) : Prop where
  inside : ∀ address,
    signedPatternScanRegion (m.restrict region.bytes) region pattern ≠
      .error (.fault address)
  depends : ∀ m' : Mem, (∀ x ∈ region.bytes, m' x = m x) →
    signedPatternScanRegion m' region pattern =
      signedPatternScanRegion m region pattern
  sound : ∀ results, signedPatternScanRegion m region pattern = .ok results →
    ∀ ptr ∈ results, region.InBounds pattern ptr ∧ MatchesAt m pattern ptr

/-- An entry after the first concrete one does not match at a late hit, and up
to it only bytes of the region are compared. -/
def RefusedInside (m : Mem) (region : MemoryRegion)
    (pattern : SignedBytePattern) (offset : Nat) : Prop :=
  ∃ i, ∃ hi : i < pattern.length, leadingWildcards pattern < i ∧
    EntryMismatches m
      (region.address (offset + (i - leadingWildcards pattern))) pattern[i] ∧
    ∀ k (hk : k < pattern.length), leadingWildcards pattern < k → k ≤ i →
      pattern[k] ≠ -1 →
      region.address (offset + (k - leadingWildcards pattern)) ∈ region.bytes

/-! ## The comparison, in terms of the pattern's indices -/

theorem entry_offset (o leading d : Nat) :
    o + (leading + 1 + d - leading) = o + (1 + d) := by
  omega

theorem comparedAt_eq_false_iff {o : Nat} :
    comparedAt m region pattern o = .ok false ↔
      ∃ i, ∃ hi : i < pattern.length, leadingWildcards pattern < i ∧
        EntryMismatches m
          (region.address (o + (i - leadingWildcards pattern))) pattern[i] ∧
        ∀ k (hk : k < pattern.length), leadingWildcards pattern < k → k < i →
          ¬ EntryUnmapped m
            (region.address (o + (k - leadingWildcards pattern)))
            pattern[k] := by
  unfold comparedAt
  rw [restMatches_eq_false_iff]
  simp only [List.length_drop, List.getElem_drop, address_add]
  constructor
  · rintro ⟨i, hi, hmismatch, hmapped⟩
    refine ⟨leadingWildcards pattern + 1 + i, by omega, by omega, ?_, ?_⟩
    · rwa [entry_offset]
    · intro k hk hlow hki
      obtain ⟨d, rfl⟩ := Nat.exists_eq_add_of_le (Nat.succ_le_of_lt hlow)
      rw [entry_offset]
      exact hmapped d (by omega) (by omega)
  · rintro ⟨i, hi, hlow, hmismatch, hmapped⟩
    obtain ⟨d, rfl⟩ := Nat.exists_eq_add_of_le (Nat.succ_le_of_lt hlow)
    rw [entry_offset] at hmismatch
    refine ⟨d, by omega, hmismatch, ?_⟩
    intro k hk hkd
    have hbefore := hmapped (leadingWildcards pattern + 1 + k) (by omega)
      (by omega) (by omega)
    rwa [entry_offset] at hbefore

theorem entryMismatches_restrict {ptr : Ptr} {entry : Int} :
    EntryMismatches (m.restrict region.bytes) ptr entry ↔
      EntryMismatches m ptr entry ∧ ptr ∈ region.bytes := by
  by_cases hin : ptr ∈ region.bytes
  · rw [entryMismatches_congr (Memory.restrict_of_mem hin)]
    simp [hin]
  · simp [EntryMismatches, Memory.restrict_of_not_mem hin, hin]

theorem not_entryUnmapped_restrict (hmapped : region.Mapped m) {ptr : Ptr}
    {entry : Int} :
    ¬ EntryUnmapped (m.restrict region.bytes) ptr entry ↔
      (entry ≠ -1 → ptr ∈ region.bytes) := by
  unfold EntryUnmapped
  by_cases hin : ptr ∈ region.bytes
  · have := hmapped ptr hin
    simp [Memory.restrict_of_mem hin, this, hin]
  · simp [Memory.restrict_of_not_mem hin, hin]

theorem comparedAt_restrict_iff (hmapped : region.Mapped m) {o : Nat} :
    comparedAt (m.restrict region.bytes) region pattern o = .ok false ↔
      RefusedInside m region pattern o := by
  rw [comparedAt_eq_false_iff]
  unfold RefusedInside
  simp only [entryMismatches_restrict, not_entryUnmapped_restrict hmapped]
  constructor
  · rintro ⟨i, hi, hlow, ⟨hmismatch, hin⟩, hbefore⟩
    refine ⟨i, hi, hlow, hmismatch, ?_⟩
    intro k hk hkl hki
    rcases Nat.lt_or_eq_of_le hki with hlt | rfl
    · exact hbefore k hk hkl hlt
    · exact fun _ => hin
  · rintro ⟨i, hi, hlow, hmismatch, hbefore⟩
    refine ⟨i, hi, hlow, ⟨hmismatch, ?_⟩, ?_⟩
    · exact hbefore i hi hlow (le_refl i) hmismatch.1
    · exact fun k hk hkl hki => hbefore k hk hkl (le_of_lt hki)

/-! ## The bytes of the region decide -/

section Agree

variable {m' : Mem} (h : ∀ x ∈ region.bytes, m' x = m x)

include h

theorem hasFirstByte_congr {o : Nat} (ho : o < region.size.toNat) :
    HasFirstByte m' region pattern o ↔ HasFirstByte m region pattern o := by
  unfold HasFirstByte
  rw [h _ (address_mem region ho)]

theorem isLateHit_congr {o : Nat} :
    IsLateHit m' region pattern o ↔ IsLateHit m region pattern o := by
  constructor
  · rintro ⟨hfits, hlate, hinside, hfound, hearlier⟩
    refine ⟨hfits, hlate, hinside, (hasFirstByte_congr h hinside).mp hfound, ?_⟩
    intro p hp hpo hfirst
    exact hearlier p hp hpo ((hasFirstByte_congr h (by omega)).mpr hfirst)
  · rintro ⟨hfits, hlate, hinside, hfound, hearlier⟩
    refine ⟨hfits, hlate, hinside, (hasFirstByte_congr h hinside).mpr hfound, ?_⟩
    intro p hp hpo hfirst
    exact hearlier p hp hpo ((hasFirstByte_congr h (by omega)).mp hfirst)

theorem resultsFrom_congr
    (hlt : leadingWildcards pattern < pattern.length)
    (hlen : pattern.length ≤ region.size.toNat) {c : Nat} :
    resultsFrom m' region pattern c = resultsFrom m region pattern c := by
  unfold resultsFrom
  congr 1
  apply List.filter_congr
  intro o ho
  have hbound : o + (pattern.length - leadingWildcards pattern) ≤
      region.size.toNat := by
    rw [List.mem_range'_1] at ho
    unfold lastFit at ho
    omega
  have hfirst : HasFirstByte m' region pattern o ↔
      HasFirstByte m region pattern o := hasFirstByte_congr h (by omega)
  have hcompared : comparedAt m' region pattern o =
      comparedAt m region pattern o := by
    unfold comparedAt
    apply restMatches_congr
    intro i hi
    rw [List.length_drop] at hi
    rw [address_add]
    exact h _ (address_mem region (by omega))
  rw [decide_eq_decide]
  unfold IsHit
  rw [hfirst, hcompared]

theorem Mapped.congr (hmapped : region.Mapped m) : region.Mapped m' := by
  intro x hx
  rw [h x hx]
  exact hmapped x hx

end Agree

theorem restrict_agrees (m : Mem) (region : MemoryRegion) :
    ∀ x ∈ region.bytes, m.restrict region.bytes x = m x :=
  fun _ hx => Memory.restrict_of_mem hx

theorem scan_eq_of_refused (h : ValidPattern pattern) (hmapped : region.Mapped m)
    (hlen : pattern.length ≤ region.size.toNat)
    (hrefused : ∀ o, IsLateHit m region pattern o →
      comparedAt m region pattern o = .ok false) :
    signedPatternScanRegion m region pattern =
      .ok (resultsFrom m region pattern (leadingWildcards pattern)) := by
  obtain ⟨late, hlate⟩ := exists_late m region pattern
  rw [signedPatternScanRegion_eq h hmapped hlen _ hlate]
  cases late with
  | none => rfl
  | some o =>
      unfold finish
      simp only
      rw [hrefused o ((hlate o).mp rfl)]
      rfl

theorem comparedAt_mono {m' : Mem}
    (hle : ∀ x byte, m x = some byte → m' x = some byte) {o : Nat}
    (h : comparedAt m region pattern o = .ok false) :
    comparedAt m' region pattern o = .ok false := by
  rw [comparedAt_eq_false_iff] at h ⊢
  obtain ⟨i, hi, hlow, ⟨hne, byte, hbyte, hdiff⟩, hbefore⟩ := h
  refine ⟨i, hi, hlow, ⟨hne, byte, hle _ _ hbyte, hdiff⟩, ?_⟩
  rintro k hk hkl hki ⟨hconcrete, hnone⟩
  refine hbefore k hk hkl hki ⟨hconcrete, ?_⟩
  cases hget : m (region.address (k - leadingWildcards pattern + o)) with
  | none => rwa [Nat.add_comm] at hget
  | some b =>
      rw [Nat.add_comm] at hget
      simp [hle _ _ hget] at hnone

theorem IsLateHit.not_inBounds (h : ValidPattern pattern) {o : Nat}
    (ho : IsLateHit m region pattern o) :
    ¬ region.InBounds pattern (resultAt region pattern o) := by
  have hlt := leadingWildcards_lt h
  have hlen := ho.fits
  have hlate := ho.late
  have hinside := ho.inside
  rw [inBounds_iff h hlen]
  rintro ⟨p, hlow, hhigh, heq⟩
  unfold lastFit at hlate hhigh
  rw [resultAt_eq (by omega), resultAt_eq hlow] at heq
  have htoNat := congrArg BitVec.toNat heq
  rw [address_toNat (by omega), address_toNat (by omega)] at htoNat
  omega

theorem ScanSound.refusedInside (hmapped : region.Mapped m)
    (h : ValidPattern pattern) (hsound : ScanSound m region pattern) {o : Nat}
    (ho : IsLateHit m region pattern o) : RefusedInside m region pattern o := by
  rw [← comparedAt_restrict_iff hmapped]
  have hagree := restrict_agrees m region
  have hlate : ∀ p, some o = some p ↔
      IsLateHit (m.restrict region.bytes) region pattern p := by
    intro p
    rw [isLateHit_congr hagree, Option.some.injEq]
    exact ⟨fun heq => heq ▸ ho, fun hp => ho.unique hp⟩
  have hscan := signedPatternScanRegion_eq h (Mapped.congr hagree hmapped)
    ho.fits (some o) hlate
  have hcases := restMatches_compared (m.restrict region.bytes)
    (region.address o) (pattern.drop (leadingWildcards pattern + 1)) 1
  unfold finish at hscan
  simp only at hscan
  unfold comparedAt at hscan ⊢
  generalize restMatches (m.restrict region.bytes) (region.address o)
    (pattern.drop (leadingWildcards pattern + 1)) 1 = res at hcases hscan ⊢
  cases hcases with
  | isMatch =>
      rw [hsound.depends _ hagree] at hscan
      have hmem := hsound.sound _ hscan (resultAt region pattern o) (by simp)
      exact absurd hmem.1 (ho.not_inBounds h)
  | mismatch => rfl
  | unmapped i => exact absurd hscan (hsound.inside _)

/-- Refused inside the region, late hits do not count in any memory with the
same bytes there. -/
theorem scan_eq_of_refusedInside (hmapped : region.Mapped m)
    (h : ValidPattern pattern) (hlen : pattern.length ≤ region.size.toNat)
    (hrefused : ∀ o, IsLateHit m region pattern o →
      RefusedInside m region pattern o)
    (m' : Mem) (hagree : ∀ x ∈ region.bytes, m' x = m x) :
    signedPatternScanRegion m' region pattern =
      .ok (resultsFrom m region pattern (leadingWildcards pattern)) := by
  rw [scan_eq_of_refused h (Mapped.congr hagree hmapped) hlen,
    resultsFrom_congr hagree (leadingWildcards_lt h) hlen]
  intro o ho
  have hin := (comparedAt_restrict_iff hmapped).mpr
    (hrefused o ((isLateHit_congr hagree).mp ho))
  refine comparedAt_mono ?_ hin
  intro x byte hx
  by_cases hmem : x ∈ region.bytes
  · rw [hagree x hmem]
    exact Memory.restrict_le hx
  · simp [Memory.restrict_of_not_mem hmem] at hx

/-- The scan of a mapped region is sound exactly if every late hit is refused
inside the region. -/
theorem signedPatternScanRegion_sound_iff (hmapped : region.Mapped m)
    (h : ValidPattern pattern) :
    ScanSound m region pattern ↔
      ∀ o, IsLateHit m region pattern o → RefusedInside m region pattern o := by
  rcases Nat.lt_or_ge region.size.toNat pattern.length with hshort | hlen
  · constructor
    · intro _ o ho
      exact absurd ho.fits (by omega)
    · intro _
      refine ⟨?_, ?_, ?_⟩ <;> simp [signedPatternScanRegion_of_short hshort]
  · constructor
    · intro hsound o ho
      exact hsound.refusedInside hmapped h ho
    · intro hrefused
      have hscan := scan_eq_of_refusedInside hmapped h hlen hrefused
      refine ⟨?_, ?_, ?_⟩
      · intro address
        rw [hscan _ (restrict_agrees m region)]
        simp
      · intro m' hagree
        rw [hscan m' hagree, hscan m fun _ _ => rfl]
      · intro results hresults ptr hptr
        rw [hscan m fun _ _ => rfl, Except.ok.injEq] at hresults
        rw [← hresults] at hptr
        exact (mem_resultsFrom h hlen).mp hptr

def scanMemory (bytes : List Byte) : Mem :=
  Memory.write (fun _ => none) 0x1000 bytes

def scanRegion (size : Fin 16) : MemoryRegion where
  base := 0x1000
  size := BitVec.ofNat 64 size
  fits := by
    rw [BitVec.toNat_ofNat, Nat.mod_eq_of_lt (by omega)]
    simp only [BitVec.reduceToNat]
    omega

theorem scanRegion_mapped {bytes : List Byte} {size : Fin 16}
    (h : size.val ≤ bytes.length) (hlen : bytes.length ≤ 2 ^ 64) :
    (scanRegion size).Mapped (scanMemory bytes) := by
  intro x hx
  obtain ⟨i, hi, -, rfl⟩ := eq_offset_of_mem_span hx
  have hsize : (scanRegion size).size.toNat = size.val := by
    simp only [scanRegion, BitVec.toNat_ofNat]
    omega
  have hi' : i < bytes.length := by omega
  have hget := Memory.write_offset (m := fun _ => none) (a := (0x1000 : Ptr))
    hlen hi'
  unfold scanMemory
  simp only [scanRegion]
  rw [hget]
  simp

theorem signedPatternScanRegion_sound_refused :
    ScanSound (scanMemory [0x41, 0x42, 0x41, 0x00]) (scanRegion 4)
      [0x41, 0x42, 0x43] := by
  refine (signedPatternScanRegion_sound_iff
    (scanRegion_mapped (by decide) (by decide)) (by decide)).mpr ?_
  intro o ho
  have hinside : o < 4 := ho.inside
  have hlate : 1 < o := ho.late
  have hfound := ho.found
  interval_cases o
  · exact ⟨1, by decide, by decide,
      ⟨by decide, 0x00, by decide, by decide⟩, by decide⟩
  · exact absurd hfound (by decide)

/-- The byte after the region completes the pattern: an address is reported at
which the pattern does not fit, and without that byte the scan faults. -/
theorem signedPatternScanRegion_unsound :
    (scanRegion 2).Mapped (scanMemory [0x00, 0x41, 0x42]) ∧
      ValidPattern [0x41, 0x42] ∧
      signedPatternScanRegion (scanMemory [0x00, 0x41, 0x42]) (scanRegion 2)
        [0x41, 0x42] = .ok [0x1001] ∧
      ¬ (scanRegion 2).InBounds [0x41, 0x42] 0x1001 ∧
      signedPatternScanRegion (scanMemory [0x00, 0x41]) (scanRegion 2)
        [0x41, 0x42] = .error (.fault 0x1002) ∧
      ¬ ScanSound (scanMemory [0x00, 0x41, 0x42]) (scanRegion 2)
        [0x41, 0x42] := by
  have hscan : signedPatternScanRegion (scanMemory [0x00, 0x41, 0x42])
      (scanRegion 2) [0x41, 0x42] = .ok [0x1001] := by decide
  have hout : ¬ (scanRegion 2).InBounds [0x41, 0x42] 0x1001 := by decide
  refine ⟨scanRegion_mapped (by decide) (by decide), by decide, hscan, hout,
    by decide, ?_⟩
  intro hsound
  exact hout (hsound.sound _ hscan _ (by simp)).1

end Ztour
