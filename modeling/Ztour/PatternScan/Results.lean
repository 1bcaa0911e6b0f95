import Ztour.PatternScan.Loop

/-!
# The results of a scan

The positions that the loop answers are exactly the places inside the region
where the pattern matches, in increasing order.
-/

namespace Ztour

open Ztour.Foundation

variable {m : Mem} {region : MemoryRegion} {pattern : SignedBytePattern}

/-! ## The first concrete entry -/

@[simp] theorem leadingWildcards_cons_wildcard (rest : SignedBytePattern) :
    leadingWildcards (-1 :: rest) = leadingWildcards rest + 1 := by
  simp [leadingWildcards]

theorem leadingWildcards_cons_of_ne {entry : Int} {rest : SignedBytePattern}
    (h : entry ≠ -1) : leadingWildcards (entry :: rest) = 0 := by
  simp [leadingWildcards, h]

private theorem leadingWildcards_lt_of_exists
    (h : ∃ entry ∈ pattern, entry ≠ -1) :
    leadingWildcards pattern < pattern.length := by
  induction pattern with
  | nil => simp at h
  | cons entry rest ih =>
      by_cases hwild : entry = -1
      · subst hwild
        have hrest : ∃ entry ∈ rest, entry ≠ -1 := by simpa using h
        have := ih hrest
        rw [leadingWildcards_cons_wildcard, List.length_cons]
        omega
      · rw [leadingWildcards_cons_of_ne hwild]
        exact Nat.succ_pos _

theorem leadingWildcards_lt (h : ValidPattern pattern) :
    leadingWildcards pattern < pattern.length :=
  leadingWildcards_lt_of_exists h.2

theorem leading_eq_wildcard {i : Nat} (h : i < leadingWildcards pattern)
    (hi : i < pattern.length) : pattern[i] = -1 := by
  induction pattern generalizing i with
  | nil => simp at hi
  | cons entry rest ih =>
      by_cases hwild : entry = -1
      · subst hwild
        rw [leadingWildcards_cons_wildcard] at h
        cases i with
        | zero => rfl
        | succ i => exact ih (by omega) (by simpa using hi)
      · rw [leadingWildcards_cons_of_ne hwild] at h
        omega

theorem first_ne_wildcard (h : leadingWildcards pattern < pattern.length) :
    pattern[leadingWildcards pattern] ≠ -1 := by
  induction pattern with
  | nil => simp at h
  | cons entry rest ih =>
      by_cases hwild : entry = -1
      · subst hwild
        rw [leadingWildcards_cons_wildcard, List.length_cons] at h
        simp only [leadingWildcards_cons_wildcard, List.getElem_cons_succ]
        exact ih (by omega)
      · simpa only [leadingWildcards_cons_of_ne hwild, List.getElem_cons_zero]
          using hwild

theorem firstValidByte_toNat (h : ValidPattern pattern) :
    pattern.get ⟨leadingWildcards pattern, leadingWildcards_lt h⟩ =
      (firstValidByte pattern).toNat := by
  have hlt := leadingWildcards_lt h
  obtain ⟨hlow, hhigh⟩ := h.1 _ (List.getElem_mem hlt)
  have hne := first_ne_wildcard hlt
  unfold firstValidByte
  rw [List.get_eq_getElem, List.getD_eq_getElem?_getD,
    List.getElem?_eq_getElem hlt, Option.getD_some, BitVec.toNat_ofInt]
  dsimp only
  omega

theorem hasFirstByte_iff (h : ValidPattern pattern) {o : Nat} :
    HasFirstByte m region pattern o ↔
      EntryMatches m (region.address o)
        (pattern.get ⟨leadingWildcards pattern, leadingWildcards_lt h⟩) := by
  have hne := first_ne_wildcard (leadingWildcards_lt h)
  have hbyte := firstValidByte_toNat h
  unfold HasFirstByte EntryMatches
  constructor
  · intro hfirst
    exact .inr ⟨_, hfirst, hbyte⟩
  · rintro (hwild | ⟨byte, hget, heq⟩)
    · exact absurd hwild hne
    · rw [hget, Option.some.injEq]
      apply BitVec.eq_of_toNat_eq
      omega

/-! ## Positions and addresses -/

theorem resultAt_eq {o : Nat} (h : leadingWildcards pattern ≤ o) :
    resultAt region pattern o =
      region.address (o - leadingWildcards pattern) := by
  unfold resultAt
  rw [BitVec.sub_eq_iff_eq_add, address_add, Nat.sub_add_cancel h]

theorem address_toNat {o : Nat} (h : o < region.size.toNat) :
    (region.address o).toNat = region.base.toNat + o := by
  have := region.fits
  unfold MemoryRegion.address
  rw [BitVec.toNat_add, BitVec.toNat_ofNat, Nat.add_mod_mod,
    Nat.mod_eq_of_lt (by omega)]

theorem isHit_iff (h : ValidPattern pattern) {o : Nat}
    (ho : leadingWildcards pattern ≤ o) :
    IsHit m region pattern o ↔
      MatchesAt m pattern (resultAt region pattern o) := by
  have hlt := leadingWildcards_lt h
  unfold IsHit comparedAt MatchesAt
  rw [hasFirstByte_iff h, restMatches_eq_true_iff, resultAt_eq ho]
  constructor
  · rintro ⟨hfirst, hrest⟩ i hi
    rw [address_add]
    rcases Nat.lt_trichotomy i (leadingWildcards pattern) with hlow | rfl | hhigh
    · exact .inl (leading_eq_wildcard hlow hi)
    · rwa [Nat.sub_add_cancel ho]
    · have hk := hrest (i - (leadingWildcards pattern + 1))
        (by rw [List.length_drop]; omega) (by rw [List.length_drop]; omega)
      rw [address_add, List.getElem_drop] at hk
      have hoffset : o + (1 + (i - (leadingWildcards pattern + 1))) =
          o - leadingWildcards pattern + i := by omega
      have hindex : leadingWildcards pattern + 1 +
          (i - (leadingWildcards pattern + 1)) = i := by omega
      simpa only [hoffset, hindex] using hk
  · intro hall
    constructor
    · have hfirst := hall _ hlt
      rwa [address_add, Nat.sub_add_cancel ho] at hfirst
    · intro k hk _
      rw [List.length_drop] at hk
      have hrest := hall (leadingWildcards pattern + 1 + k) (by omega)
      rw [address_add] at hrest
      rw [address_add, List.getElem_drop]
      have hoffset : o - leadingWildcards pattern +
          (leadingWildcards pattern + 1 + k) = o + (1 + k) := by omega
      rwa [hoffset] at hrest

theorem inBounds_iff (h : ValidPattern pattern)
    (hlen : pattern.length ≤ region.size.toNat) {ptr : Ptr} :
    region.InBounds pattern ptr ↔
      ∃ o, leadingWildcards pattern ≤ o ∧ o ≤ lastFit region pattern ∧
        ptr = resultAt region pattern o := by
  have hlt := leadingWildcards_lt h
  have hfits := region.fits
  unfold MemoryRegion.InBounds lastFit
  constructor
  · rintro ⟨hbase, hend⟩
    refine ⟨ptr.toNat - region.base.toNat + leadingWildcards pattern,
      by omega, by omega, ?_⟩
    rw [resultAt_eq (by omega)]
    apply BitVec.eq_of_toNat_eq
    rw [address_toNat (by omega)]
    omega
  · rintro ⟨o, hlow, hhigh, rfl⟩
    rw [resultAt_eq hlow, address_toNat (by omega)]
    omega

theorem mem_resultsFrom (h : ValidPattern pattern)
    (hlen : pattern.length ≤ region.size.toNat) {ptr : Ptr} :
    ptr ∈ resultsFrom m region pattern (leadingWildcards pattern) ↔
      region.InBounds pattern ptr ∧ MatchesAt m pattern ptr := by
  rw [inBounds_iff h hlen]
  unfold resultsFrom
  simp only [List.mem_map, List.mem_filter, List.mem_range'_1,
    decide_eq_true_eq]
  constructor
  · rintro ⟨o, ⟨hrange, hhit⟩, rfl⟩
    exact ⟨⟨o, hrange.1, by omega, rfl⟩, (isHit_iff h hrange.1).mp hhit⟩
  · rintro ⟨⟨o, hlow, hhigh, rfl⟩, hmatch⟩
    exact ⟨o, ⟨⟨hlow, by omega⟩, (isHit_iff h hlow).mpr hmatch⟩, rfl⟩

theorem resultsFrom_increasing (h : ValidPattern pattern)
    (hlen : pattern.length ≤ region.size.toNat) :
    (resultsFrom m region pattern (leadingWildcards pattern)).Pairwise
      (fun a b => a.toNat < b.toNat) := by
  have hlt := leadingWildcards_lt h
  unfold resultsFrom
  rw [List.pairwise_map]
  have hrange : (List.range' (leadingWildcards pattern)
      (lastFit region pattern + 1 - leadingWildcards pattern)).Pairwise
        (· < ·) :=
    List.pairwise_lt_range'
  refine (hrange.filter (IsHit m region pattern ·)).imp_of_mem ?_
  intro a b ha hb hab
  simp only [List.mem_filter, List.mem_range'_1] at ha hb
  have hlast : lastFit region pattern < region.size.toNat := by
    unfold lastFit
    omega
  rw [resultAt_eq ha.1.1, resultAt_eq hb.1.1, address_toNat (by omega),
    address_toNat (by omega)]
  omega

/-! ## The whole scan -/

theorem signedPatternScanRegion_of_short
    (hlen : region.size.toNat < pattern.length) :
    signedPatternScanRegion m region pattern = .ok [] := by
  unfold signedPatternScanRegion
  exact if_pos (.inr hlen)

theorem signedPatternScanRegion_eq (h : ValidPattern pattern)
    (hmapped : region.Mapped m) (hlen : pattern.length ≤ region.size.toNat)
    (late : Option Nat)
    (hlate : ∀ o, late = some o ↔ IsLateHit m region pattern o) :
    signedPatternScanRegion m region pattern =
      finish m region pattern late
        (resultsFrom m region pattern (leadingWildcards pattern)) := by
  have hlt := leadingWildcards_lt h
  unfold signedPatternScanRegion
  simp only
  rw [if_neg (by omega), if_neg (by omega)]
  refine scanLoop_eq_finish hlate hmapped hlt hlen (by omega) (by omega) ?_
  unfold lastFit
  exact .inl (by omega)

end Ztour
