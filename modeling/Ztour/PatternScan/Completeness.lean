import Ztour.PatternScan.Soundness

/-!
# Completeness of the pattern scan

The loop ends within its bound and never fails its assertion.  When it returns,
it has reported every match once and in order; it returns exactly when no late
hit makes the comparison read an unmapped byte.
-/

namespace Ztour

open Ztour.Foundation

variable {m : Mem} {region : MemoryRegion} {pattern : SignedBytePattern}

def ScanComplete (m : Mem) (region : MemoryRegion)
    (pattern : SignedBytePattern) : Prop :=
  ∃ results, signedPatternScanRegion m region pattern = .ok results ∧
    results.Pairwise (fun a b => a.toNat < b.toNat) ∧
    ∀ ptr, region.InBounds pattern ptr → MatchesAt m pattern ptr →
      results.count ptr = 1

def ComparedMapped (m : Mem) (region : MemoryRegion)
    (pattern : SignedBytePattern) (offset : Nat) : Prop :=
  ∀ i (hi : i < pattern.length), leadingWildcards pattern < i →
    EntryUnmapped m
      (region.address (offset + (i - leadingWildcards pattern))) pattern[i] →
    ∃ k, ∃ hk : k < pattern.length, leadingWildcards pattern < k ∧ k < i ∧
      EntryMismatches m
        (region.address (offset + (k - leadingWildcards pattern))) pattern[k]

theorem comparedAt_isOk_iff {o : Nat} :
    (∃ isMatch, comparedAt m region pattern o = .ok isMatch) ↔
      ComparedMapped m region pattern o := by
  unfold comparedAt ComparedMapped
  rw [restMatches_isOk_iff]
  simp only [List.length_drop, List.getElem_drop, address_add]
  constructor
  · intro h i hi hlow hunmapped
    obtain ⟨d, rfl⟩ := Nat.exists_eq_add_of_le (Nat.succ_le_of_lt hlow)
    rw [entry_offset] at hunmapped
    obtain ⟨k, hk, hki, hmismatch⟩ := h d (by omega) hunmapped
    refine ⟨leadingWildcards pattern + 1 + k, by omega, by omega, by omega, ?_⟩
    rwa [entry_offset]
  · intro h i hi hunmapped
    have hi' := h (leadingWildcards pattern + 1 + i) (by omega) (by omega)
    rw [entry_offset] at hi'
    obtain ⟨k, hk, hlow, hki, hmismatch⟩ := hi' hunmapped
    obtain ⟨d, rfl⟩ := Nat.exists_eq_add_of_le (Nat.succ_le_of_lt hlow)
    rw [entry_offset] at hmismatch
    exact ⟨d, by omega, by omega, hmismatch⟩

theorem comparedAt_error {o : Nat} {e : Err}
    (h : comparedAt m region pattern o = .error e) :
    ∃ address, e = .fault address := by
  unfold comparedAt at h
  have hcases := restMatches_compared m (region.address o)
    (pattern.drop (leadingWildcards pattern + 1)) 1
  rw [h] at hcases
  cases hcases with
  | unmapped i => exact ⟨_, rfl⟩

theorem finish_error {late : Option Nat} {results : List Ptr} {e : Err}
    (h : finish m region pattern late results = .error e) :
    ∃ address, e = .fault address := by
  cases late with
  | none => simp [finish] at h
  | some o =>
      unfold finish at h
      simp only at h
      cases hcompared : comparedAt m region pattern o with
      | ok isMatch => simp [hcompared] at h
      | error e' =>
          rw [hcompared, error_bind, Except.error.injEq] at h
          exact h ▸ comparedAt_error hcompared

theorem signedPatternScanRegion_error (h : ValidPattern pattern)
    (hmapped : region.Mapped m) {e : Err}
    (herror : signedPatternScanRegion m region pattern = .error e) :
    ∃ address, e = .fault address := by
  rcases Nat.lt_or_ge region.size.toNat pattern.length with hshort | hlen
  · rw [signedPatternScanRegion_of_short hshort] at herror
    simp at herror
  · obtain ⟨late, hlate⟩ := exists_late m region pattern
    rw [signedPatternScanRegion_eq h hmapped hlen _ hlate] at herror
    exact finish_error herror

theorem finish_increasing (h : ValidPattern pattern)
    (hlen : pattern.length ≤ region.size.toNat) {o : Nat}
    (ho : IsLateHit m region pattern o) :
    (resultsFrom m region pattern (leadingWildcards pattern) ++
      [resultAt region pattern o]).Pairwise (fun a b => a.toNat < b.toNat) := by
  rw [List.pairwise_append]
  refine ⟨resultsFrom_increasing h hlen, List.pairwise_singleton _ _, ?_⟩
  intro a ha b hb
  rw [List.mem_singleton] at hb
  subst hb
  have hlt := leadingWildcards_lt h
  have hlate := ho.late
  have hinside := ho.inside
  have hbounds := ((mem_resultsFrom h hlen).mp ha).1
  rw [inBounds_iff h hlen] at hbounds
  obtain ⟨p, hlow, hhigh, rfl⟩ := hbounds
  unfold lastFit at hhigh hlate
  rw [resultAt_eq hlow, resultAt_eq (by omega), address_toNat (by omega),
    address_toNat (by omega)]
  omega

theorem count_eq_one_of_increasing {results : List Ptr} {ptr : Ptr}
    (hsorted : results.Pairwise (fun a b => a.toNat < b.toNat))
    (hmem : ptr ∈ results) : results.count ptr = 1 := by
  have hnodup : results.Nodup := by
    refine hsorted.imp ?_
    intro a b hab heq
    rw [heq] at hab
    exact lt_irrefl _ hab
  exact List.count_eq_one_of_mem hnodup hmem

theorem scanComplete_of_increasing (h : ValidPattern pattern)
    (hlen : pattern.length ≤ region.size.toNat) (rest : List Ptr)
    (hscan : signedPatternScanRegion m region pattern =
      .ok (resultsFrom m region pattern (leadingWildcards pattern) ++ rest))
    (hsorted : (resultsFrom m region pattern (leadingWildcards pattern) ++
      rest).Pairwise (fun a b => a.toNat < b.toNat)) :
    ScanComplete m region pattern := by
  refine ⟨_, hscan, hsorted, ?_⟩
  intro ptr hin hmatch
  refine count_eq_one_of_increasing hsorted (List.mem_append_left _ ?_)
  exact (mem_resultsFrom h hlen).mpr ⟨hin, hmatch⟩

theorem scanComplete_of_late (h : ValidPattern pattern)
    (hmapped : region.Mapped m) {o : Nat} (ho : IsLateHit m region pattern o)
    (hcompared : ComparedMapped m region pattern o) :
    ScanComplete m region pattern := by
  have hscan := signedPatternScanRegion_eq h hmapped ho.fits (some o) fun p => by
    rw [Option.some.injEq]
    exact ⟨fun heq => heq ▸ ho, fun hp => ho.unique hp⟩
  obtain ⟨isMatch, hcompared⟩ := comparedAt_isOk_iff.mpr hcompared
  unfold finish at hscan
  simp only at hscan
  rw [hcompared, ok_bind] at hscan
  cases isMatch with
  | false =>
      refine scanComplete_of_increasing h ho.fits [] ?_ ?_
      · rw [List.append_nil]
        exact hscan
      · rw [List.append_nil]
        exact resultsFrom_increasing h ho.fits
  | true =>
      exact scanComplete_of_increasing h ho.fits _ hscan
        (finish_increasing h ho.fits ho)

theorem signedPatternScanRegion_complete_iff (hmapped : region.Mapped m)
    (h : ValidPattern pattern) :
    signedPatternScanRegion m region pattern ≠ .error .outOfFuel ∧
      (∀ what, signedPatternScanRegion m region pattern ≠
        .error (.thrown what)) ∧
      (ScanComplete m region pattern ↔
        ∀ o, IsLateHit m region pattern o →
          ComparedMapped m region pattern o) := by
  refine ⟨?_, ?_, ?_⟩
  · intro herror
    obtain ⟨address, heq⟩ := signedPatternScanRegion_error h hmapped herror
    cases heq
  · intro what herror
    obtain ⟨address, heq⟩ := signedPatternScanRegion_error h hmapped herror
    cases heq
  · rcases Nat.lt_or_ge region.size.toNat pattern.length with hshort | hlen
    · constructor
      · intro _ o ho
        exact absurd ho.fits (by omega)
      · intro _
        refine ⟨[], signedPatternScanRegion_of_short hshort, .nil, ?_⟩
        rintro ptr ⟨hlow, hhigh⟩
        omega
    · obtain ⟨late, hlate⟩ := exists_late m region pattern
      have hscan := signedPatternScanRegion_eq h hmapped hlen _ hlate
      constructor
      · rintro ⟨results, hresults, -⟩ o ho
        rw [← comparedAt_isOk_iff]
        rw [hscan, (hlate o).mpr ho] at hresults
        obtain ⟨isMatch, hcompared, -⟩ := bind_eq_ok.mp hresults
        exact ⟨isMatch, hcompared⟩
      · intro hcompared
        cases late with
        | none =>
            refine scanComplete_of_increasing h hlen [] ?_ ?_
            · rw [List.append_nil]
              exact hscan
            · rw [List.append_nil]
              exact resultsFrom_increasing h hlen
        | some o =>
            have ho := (hlate o).mp rfl
            exact scanComplete_of_late h hmapped ho (hcompared o ho)

theorem signedPatternScanRegion_complete_mapped :
    ScanComplete (scanMemory [0x41, 0x41, 0x42, 0x41, 0x00]) (scanRegion 4)
      [0x41, 0x42] := by
  refine (signedPatternScanRegion_complete_iff
    (scanRegion_mapped (by decide) (by decide)) (by decide)).2.2.mpr ?_
  intro o ho i hi hlow hunmapped
  have hinside : o < 4 := ho.inside
  have hlate : 2 < o := ho.late
  obtain rfl : o = 3 := by omega
  have hi2 : i < 2 := hi
  have hlow0 : 0 < i := hlow
  obtain rfl : i = 1 := by omega
  exact absurd hunmapped.2 (by decide)

/-- The match at the region's base is lost: the byte that `memchr` finds in the
last place sends the comparison to the unmapped byte behind the region. -/
theorem signedPatternScanRegion_incomplete :
    (scanRegion 4).Mapped (scanMemory [0x41, 0x42, 0x00, 0x41]) ∧
      ValidPattern [0x41, 0x42] ∧
      signedPatternScanRegion (scanMemory [0x41, 0x42, 0x00, 0x41])
        (scanRegion 4) [0x41, 0x42] = .error (.fault 0x1004) ∧
      ¬ ScanComplete (scanMemory [0x41, 0x42, 0x00, 0x41]) (scanRegion 4)
        [0x41, 0x42] := by
  have hscan : signedPatternScanRegion (scanMemory [0x41, 0x42, 0x00, 0x41])
      (scanRegion 4) [0x41, 0x42] = .error (.fault 0x1004) := by decide
  refine ⟨scanRegion_mapped (by decide) (by decide), by decide, hscan, ?_⟩
  rintro ⟨results, hresults, -⟩
  rw [hscan] at hresults
  cases hresults

end Ztour
