import Mathlib.Data.Set.Card
import Ztour.PatternScan.ModuleScan

/-!
# The only match of a module

`patternScanModule` insists on one result.  Where the scan of no region is
ended by a match across the region's end, the results are the matches inside
the regions, and each is counted once.
-/

namespace Ztour

open Ztour.Foundation

def multipleResultsText (count : Nat) (patternStr : String) : String :=
  "Found multiple results (" ++ toString count ++ ") for pattern \"" ++
    patternStr ++ "\""

def failedToFindText (patternStr : String) : String :=
  "Failed to find pattern \"" ++ patternStr ++ "\""

def patternScanModule (platform : Allocation.Platform) (source : ModuleSource)
    (m : Mem) (moduleName patternStr : String) (offset : BitVec 32) :
    Res Ptr := do
  let results ←
    patternScanModuleMulti platform source m moduleName patternStr offset
  if 1 < results.length then
    .error (.thrown (multipleResultsText results.length patternStr))
  else
    match results with
    | [] => .error (.thrown (failedToFindText patternStr))
    | result :: _ => .ok result

theorem patternScanModule_eq_ok_iff {platform : Allocation.Platform}
    {source : ModuleSource} {m : Mem} {moduleName patternStr : String}
    {offset : BitVec 32} {found : Ptr} :
    patternScanModule platform source m moduleName patternStr offset =
        .ok found ↔
      patternScanModuleMulti platform source m moduleName patternStr offset =
        .ok [found] := by
  unfold patternScanModule
  cases patternScanModuleMulti platform source m moduleName patternStr offset with
  | error e => simp
  | ok results =>
      rw [ok_bind, Except.ok.injEq]
      match results with
      | [] => simp
      | [result] => simp
      | first :: second :: rest => simp

section Matches

variable (m : Mem) (region : MemoryRegion) (pattern : SignedBytePattern)

/-- The occurrence of the first byte that ends the scan behind the last fit is
not the start of a match. -/
def QuietEnd : Prop :=
  ∀ o, IsLateHit m region pattern o → comparedAt m region pattern o = .ok false

def matchPlaces : List Ptr :=
  if region.size.toNat < pattern.length then []
  else resultsFrom m region pattern (leadingWildcards pattern)

def matchesInside (regions : List MemoryRegion) : Set Ptr :=
  {ptr | ∃ region ∈ regions,
    region.InBounds pattern ptr ∧ MatchesAt m pattern ptr}

end Matches

variable {m : Mem} {region : MemoryRegion} {pattern : SignedBytePattern}

theorem mem_matchPlaces (h : ValidPattern pattern) {ptr : Ptr} :
    ptr ∈ matchPlaces m region pattern ↔
      region.InBounds pattern ptr ∧ MatchesAt m pattern ptr := by
  unfold matchPlaces
  split
  · rename_i hshort
    refine iff_of_false List.not_mem_nil fun hmatch => ?_
    obtain ⟨hlow, hhigh⟩ := hmatch.1
    omega
  · rename_i hlen
    exact mem_resultsFrom h (not_lt.mp hlen)

theorem matchPlaces_sorted (h : ValidPattern pattern) :
    (matchPlaces m region pattern).Pairwise (·.toNat < ·.toNat) := by
  unfold matchPlaces
  split
  · exact List.Pairwise.nil
  · rename_i hlen
    exact resultsFrom_increasing h (not_lt.mp hlen)

theorem signedPatternScanRegion_quiet (h : ValidPattern pattern)
    (hmapped : region.Mapped m) (hquiet : QuietEnd m region pattern) :
    signedPatternScanRegion m region pattern =
      .ok (matchPlaces m region pattern) := by
  unfold matchPlaces
  split
  · rename_i hshort
    exact signedPatternScanRegion_of_short hshort
  · rename_i hlen
    exact scan_eq_of_refused h hmapped (not_lt.mp hlen) hquiet

theorem patternScanRegions_quiet (h : ValidPattern pattern)
    {regions : List MemoryRegion} (hmapped : ∀ r ∈ regions, r.Mapped m)
    (hquiet : ∀ r ∈ regions, QuietEnd m r pattern) (offset : BitVec 32)
    (results : List Ptr) :
    patternScanRegions m pattern offset regions results =
      .ok (results ++ (regions.flatMap (matchPlaces m · pattern)).map
        (· + offset.signExtend 64)) := by
  induction regions generalizing results with
  | nil => simp [patternScanRegions]
  | cons region regions ih =>
      obtain ⟨hregion, hregions⟩ := List.forall_mem_cons.mp hmapped
      obtain ⟨hend, hends⟩ := List.forall_mem_cons.mp hquiet
      unfold patternScanRegions
      rw [signedPatternScanRegion_quiet h hregion hend, ok_bind,
        ih hregions hends]
      simp

theorem mem_bytes_of_inBounds (h : ValidPattern pattern) {ptr : Ptr}
    (hin : region.InBounds pattern ptr) : ptr ∈ region.bytes := by
  have hlen : 0 < pattern.length := (leadingWildcards_lt h).pos
  obtain ⟨hlow, hhigh⟩ := hin
  have hfits := region.fits
  unfold MemoryRegion.bytes
  rw [mem_span, BitVec.toNat_sub]
  have hptr := ptr.isLt
  omega

theorem matchPlaces_nodup (h : ValidPattern pattern)
    {regions : List MemoryRegion}
    (hapart : regions.Pairwise fun r r' => Disjoint r.bytes r'.bytes) :
    (regions.flatMap (matchPlaces m · pattern)).Nodup := by
  rw [List.nodup_flatMap]
  refine ⟨fun r _ => ?_, hapart.imp fun hdisjoint ptr hptr hptr' => ?_⟩
  · refine (matchPlaces_sorted h).imp fun hlt heq => ?_
    rw [heq] at hlt
    exact lt_irrefl _ hlt
  · have hmem := mem_bytes_of_inBounds h ((mem_matchPlaces h).mp hptr).1
    have hmem' := mem_bytes_of_inBounds h ((mem_matchPlaces h).mp hptr').1
    exact Set.disjoint_left.mp hdisjoint hmem hmem'

theorem coe_matchPlaces (h : ValidPattern pattern)
    (regions : List MemoryRegion) :
    (↑(regions.flatMap (matchPlaces m · pattern)).toFinset : Set Ptr) =
      matchesInside m pattern regions := by
  ext ptr
  simp only [List.coe_toFinset, List.mem_flatMap, mem_matchPlaces h,
    Set.mem_ofPred_eq, matchesInside]

theorem coe_toFinset_eq_singleton {places : List Ptr} (h : places.Nodup)
    {ptr : Ptr} : (↑places.toFinset : Set Ptr) = {ptr} ↔ places = [ptr] := by
  rw [Finset.coe_eq_singleton]
  constructor
  · intro hplaces
    rw [← List.perm_singleton]
    exact List.perm_of_nodup_nodup_toFinset_eq h (List.nodup_singleton ptr)
      (by simpa using hplaces)
  · rintro rfl
    simp

/-- The one match inside the regions is answered, and no match or several of
them are an error that says how many. -/
theorem patternScanModule_spec {platform : Allocation.Platform}
    {source : ModuleSource} {moduleName patternStr : String}
    {regions : List MemoryRegion}
    (hregions : getModuleBinRegions source moduleName = .ok regions)
    (hparse : parsePatternStr platform patternStr = .ok pattern)
    (hentry : ∃ entry ∈ pattern, entry ≠ -1)
    (hmapped : ∀ r ∈ regions, r.Mapped m)
    (hapart : regions.Pairwise fun r r' => Disjoint r.bytes r'.bytes)
    (hquiet : ∀ r ∈ regions, QuietEnd m r pattern) (offset : BitVec 32) :
    (∀ found, patternScanModule platform source m moduleName patternStr offset =
        .ok found ↔
      matchesInside m pattern regions = {found - offset.signExtend 64}) ∧
    (matchesInside m pattern regions = ∅ →
      patternScanModule platform source m moduleName patternStr offset =
        .error (.thrown (failedToFindText patternStr))) ∧
    (1 < (matchesInside m pattern regions).ncard →
      patternScanModule platform source m moduleName patternStr offset =
        .error (.thrown (multipleResultsText
          (matchesInside m pattern regions).ncard patternStr))) := by
  have hvalid : ValidPattern pattern := ⟨parsePatternStr_entries hparse, hentry⟩
  have hmulti : patternScanModuleMulti platform source m moduleName patternStr
      offset = .ok ((regions.flatMap (matchPlaces m · pattern)).map
        (· + offset.signExtend 64)) := by
    unfold patternScanModuleMulti
    rw [hregions, ok_bind, hparse, ok_bind,
      patternScanRegions_quiet hvalid hmapped hquiet, List.nil_append]
  have hnodup := matchPlaces_nodup (m := m) hvalid hapart
  rw [← coe_matchPlaces hvalid, Set.ncard_coe_finset,
    List.toFinset_card_of_nodup hnodup]
  refine ⟨fun found => ?_, fun hnone => ?_, fun hseveral => ?_⟩
  · rw [patternScanModule_eq_ok_iff, hmulti, Except.ok.injEq,
      List.map_eq_singleton_iff, coe_toFinset_eq_singleton hnodup]
    constructor
    · rintro ⟨ptr, hplaces, rfl⟩
      rw [hplaces, BitVec.add_sub_cancel]
    · intro hplaces
      exact ⟨_, hplaces, BitVec.sub_add_cancel _ _⟩
  · rw [Finset.coe_eq_empty, List.toFinset_eq_empty_iff] at hnone
    unfold patternScanModule
    rw [hmulti, hnone]
    rfl
  · unfold patternScanModule
    rw [hmulti, ok_bind, List.length_map, if_pos hseveral]

def singleMemory : Mem := scanMemory [0x41, 0x42, 0x00, 0x41, 0x00]

theorem quietEnd_single :
    ∀ r ∈ [scanRegion 2, secondRegion],
      QuietEnd singleMemory r [0x41, 0x42] := by
  intro r hr o ho
  rcases List.mem_pair.mp hr with rfl | rfl
  · have hinside : o < 2 := ho.inside
    have hlate : 0 < o := ho.late
    obtain rfl : o = 1 := by omega
    exact absurd ho.found (by decide)
  · have hinside : o < 2 := ho.inside
    have hlate : 0 < o := ho.late
    obtain rfl : o = 1 := by omega
    decide +kernel

theorem patternScanModule_single :
    patternScanModule .unix splitSource singleMemory "game" "41 42" 0 =
      .ok 0x1000 := by
  have hvalid : ValidPattern [0x41, 0x42] := by decide
  have himage : (scanRegion 4).Mapped singleMemory :=
    scanRegion_mapped (by decide) (by decide)
  have hmapped : ∀ r ∈ [scanRegion 2, secondRegion], r.Mapped singleMemory :=
    fun r hr => mapped_within (scanRegion_tiledBy.within r hr) himage
  have hapart : [scanRegion 2, secondRegion].Pairwise
      fun r r' => Disjoint r.bytes r'.bytes := by
    rw [List.pairwise_pair, Set.disjoint_left]
    intro x hx hx'
    obtain ⟨i, hi, -, rfl⟩ := eq_offset_of_mem_span hx
    have hinside : i < 2 := hi
    interval_cases i
    · exact absurd hx' (by decide)
    · exact absurd hx' (by decide)
  refine ((patternScanModule_spec getModuleBinRegions_splitSource
    parsePatternStr_4142 ⟨0x41, by simp, by simp⟩ hmapped hapart quietEnd_single
    0).1 0x1000).mpr ?_
  have hplaces : [scanRegion 2, secondRegion].flatMap
      (matchPlaces singleMemory · [0x41, 0x42]) = [0x1000] := by
    decide +kernel
  rw [← coe_matchPlaces hvalid, hplaces]
  simp

end Ztour
