import Ztour.PatternScan.SingleMatch

/-!
# Wildcards around a pattern

Wildcards in front of a pattern and behind it only ask for room in the region.
With the offset moved by the wildcards in front, the padded pattern finds the
same places.
-/

namespace Ztour

open Ztour.Foundation

def padded (before : Nat) (pattern : SignedBytePattern) (behind : Nat) :
    SignedBytePattern :=
  List.replicate before (-1) ++ pattern ++ List.replicate behind (-1)

def padText (front patternStr back : String) : String :=
  front ++ " " ++ patternStr ++ " " ++ back

def IsWildcard (token : List Char) : Prop := token = ['?'] ∨ token = ['?', '?']

instance (token : List Char) : Decidable (IsWildcard token) :=
  inferInstanceAs (Decidable (_ ∨ _))

/-- The region goes on in front of a place and behind the pattern there. -/
def MemoryRegion.HasRoom (region : MemoryRegion) (before : Nat)
    (pattern : SignedBytePattern) (behind : Nat) (ptr : Ptr) : Prop :=
  region.base.toNat + before ≤ ptr.toNat ∧
    ptr.toNat + pattern.length + behind ≤
      region.base.toNat + region.size.toNat

instance (region : MemoryRegion) (before : Nat) (pattern : SignedBytePattern)
    (behind : Nat) (ptr : Ptr) :
    Decidable (region.HasRoom before pattern behind ptr) :=
  inferInstanceAs (Decidable (_ ∧ _))

def MatchesHaveRoom (m : Mem) (region : MemoryRegion) (before : Nat)
    (pattern : SignedBytePattern) (behind : Nat) : Prop :=
  ∀ ptr, region.InBounds pattern ptr → MatchesAt m pattern ptr →
    region.HasRoom before pattern behind ptr

/-! ## The parsed pattern -/

theorem words_padText (front patternStr back : String) :
    words (padText front patternStr back).toList =
      words front.toList ++ words patternStr.toList ++ words back.toList := by
  have hblank : isSpace ' ' = true := by decide
  have htext : (padText front patternStr back).toList =
      (front.toList ++ ' ' :: patternStr.toList) ++ ' ' :: back.toList := by
    simp [padText]
  rw [htext, words_append_space hblank, words_append_space hblank]

theorem mapM_wildcards (platform : Allocation.Platform)
    {tokens : List (List Char)} (h : ∀ token ∈ tokens, IsWildcard token) :
    tokens.mapM (parseToken platform) =
      .ok (List.replicate tokens.length (-1)) := by
  rw [← List.map_const']
  exact mapM_eq_ok_map fun token htoken => if_pos (h token htoken)

theorem parsePatternStr_padText {platform : Allocation.Platform}
    {front patternStr back : String} {pattern : SignedBytePattern}
    (hparse : parsePatternStr platform patternStr = .ok pattern)
    (hfront : ∀ token ∈ words front.toList, IsWildcard token)
    (hback : ∀ token ∈ words back.toList, IsWildcard token) :
    parsePatternStr platform (padText front patternStr back) =
      .ok (padded (words front.toList).length pattern
        (words back.toList).length) := by
  rw [parsePatternStr_eq] at hparse ⊢
  rw [words_padText, List.mapM_append, List.mapM_append,
    mapM_wildcards platform hfront, mapM_wildcards platform hback, hparse]
  rfl

section Padded

variable {m : Mem} {region : MemoryRegion} {pattern : SignedBytePattern}
  {before behind : Nat}

@[simp] theorem padded_length :
    (padded before pattern behind).length =
      before + pattern.length + behind := by
  simp [padded, Nat.add_assoc]

theorem padded_valid (h : ValidPattern pattern) :
    ValidPattern (padded before pattern behind) := by
  obtain ⟨hbounds, entry, hentry, hne⟩ := h
  refine ⟨?_, entry, by simp [padded, hentry], hne⟩
  intro e he
  simp only [padded, List.mem_append, List.mem_replicate] at he
  rcases he with (⟨-, rfl⟩ | hmem) | ⟨-, rfl⟩
  · decide
  · exact hbounds e hmem
  · decide

theorem leadingWildcards_padded (h : ValidPattern pattern) :
    leadingWildcards (padded before pattern behind) =
      before + leadingWildcards pattern := by
  have hlt := leadingWildcards_lt h
  unfold leadingWildcards at hlt ⊢
  unfold padded
  rw [List.append_assoc, List.takeWhile_append_of_pos (by simp),
    List.takeWhile_append, if_neg hlt.ne, List.length_append,
    List.length_replicate]

theorem firstValidByte_padded (h : ValidPattern pattern) :
    firstValidByte (padded before pattern behind) = firstValidByte pattern := by
  have hlt := leadingWildcards_lt h
  unfold firstValidByte
  rw [leadingWildcards_padded h]
  unfold padded
  rw [List.append_assoc, List.getD_eq_getElem?_getD,
    List.getElem?_append_right (by simp), List.length_replicate,
    Nat.add_sub_cancel_left, List.getElem?_append_left hlt,
    List.getD_eq_getElem?_getD]

theorem restMatches_wildcards (m : Mem) (ptr : Ptr) (rest : SignedBytePattern)
    (j k : Nat) :
    restMatches m ptr (rest ++ List.replicate k (-1)) j =
      restMatches m ptr rest j := by
  induction rest generalizing j with
  | nil =>
      induction k generalizing j with
      | zero => rfl
      | succ k ih =>
          rw [List.replicate_succ, List.nil_append]
          exact ih (j + 1)
  | cons entry rest ih =>
      rw [List.cons_append]
      unfold restMatches
      rw [ih]

theorem comparedAt_padded (h : ValidPattern pattern) (o : Nat) :
    comparedAt m region (padded before pattern behind) o =
      comparedAt m region pattern o := by
  have hlt := leadingWildcards_lt h
  have hdrop : (padded before pattern behind).drop
      (before + leadingWildcards pattern + 1) =
      pattern.drop (leadingWildcards pattern + 1) ++
        List.replicate behind (-1) := by
    unfold padded
    rw [List.append_assoc, List.drop_append,
      List.drop_of_length_le (by rw [List.length_replicate]; omega),
      List.nil_append, List.length_replicate,
      show before + leadingWildcards pattern + 1 - before =
        leadingWildcards pattern + 1 by omega,
      List.drop_append_of_le_length hlt]
  unfold comparedAt
  rw [leadingWildcards_padded h, hdrop, restMatches_wildcards]

theorem matchesAt_append {xs ys : SignedBytePattern} {ptr : Ptr} :
    MatchesAt m (xs ++ ys) ptr ↔
      MatchesAt m xs ptr ∧ MatchesAt m ys (ptr + BitVec.ofNat 64 xs.length) := by
  unfold MatchesAt
  constructor
  · intro h
    refine ⟨fun i hi => ?_, fun i hi => ?_⟩
    · have hmatch := h i (by rw [List.length_append]; omega)
      rwa [List.getElem_append_left hi] at hmatch
    · have hmatch := h (xs.length + i) (by rw [List.length_append]; omega)
      rw [List.getElem_append_right (by omega)] at hmatch
      rw [BitVec.add_assoc, ← BitVec.ofNat_add]
      simpa using hmatch
  · rintro ⟨hxs, hys⟩ i hi
    rcases Nat.lt_or_ge i xs.length with hlt | hge
    · rw [List.getElem_append_left hlt]
      exact hxs i hlt
    · rw [List.length_append] at hi
      have hmatch := hys (i - xs.length) (by omega)
      rw [BitVec.add_assoc, ← BitVec.ofNat_add,
        Nat.add_sub_cancel' hge] at hmatch
      rw [List.getElem_append_right hge]
      exact hmatch

theorem matchesAt_wildcards (m : Mem) (k : Nat) (ptr : Ptr) :
    MatchesAt m (List.replicate k (-1)) ptr := by
  intro i hi
  exact .inl (List.getElem_replicate hi)

theorem matchesAt_padded {ptr : Ptr} :
    MatchesAt m (padded before pattern behind) ptr ↔
      MatchesAt m pattern (ptr + BitVec.ofNat 64 before) := by
  unfold padded
  rw [matchesAt_append, matchesAt_append, List.length_replicate]
  constructor
  · rintro ⟨⟨-, hmatch⟩, -⟩
    exact hmatch
  · intro hmatch
    exact ⟨⟨matchesAt_wildcards m _ _, hmatch⟩, matchesAt_wildcards m _ _⟩

/-! ## The scan -/

theorem lastFit_padded (h : ValidPattern pattern)
    (hlen : (padded before pattern behind).length ≤ region.size.toNat) :
    lastFit region (padded before pattern behind) + behind =
      lastFit region pattern := by
  have hlt := leadingWildcards_lt h
  rw [padded_length] at hlen
  unfold lastFit
  rw [padded_length, leadingWildcards_padded h]
  omega

theorem hasFirstByte_padded (h : ValidPattern pattern) (o : Nat) :
    HasFirstByte m region (padded before pattern behind) o ↔
      HasFirstByte m region pattern o := by
  unfold HasFirstByte
  rw [firstValidByte_padded h]

theorem quietEnd_padded (h : ValidPattern pattern) (hmapped : region.Mapped m)
    (hquiet : QuietEnd m region pattern)
    (hroom : MatchesHaveRoom m region before pattern behind) :
    QuietEnd m region (padded before pattern behind) := by
  intro o ho
  have hlast := lastFit_padded h ho.fits
  have hlate := ho.late
  have hfits := ho.fits
  have hlt := leadingWildcards_lt h
  rw [padded_length] at hfits
  have hlen : pattern.length ≤ region.size.toNat := by omega
  have hfound := (hasFirstByte_padded h o).mp ho.found
  have hpattern : lastFit region pattern = region.size.toNat -
      (pattern.length - leadingWildcards pattern) := rfl
  rw [comparedAt_padded h]
  rcases Nat.lt_or_ge (lastFit region pattern) o with hbehind | hearly
  · -- the pattern itself does not fit at this place
    refine hquiet o ⟨hlen, hbehind, ho.inside, hfound, fun q hq hqo hfirst => ?_⟩
    exact ho.earlier q (by omega) hqo ((hasFirstByte_padded h q).mpr hfirst)
  · obtain ⟨accepted, haccepted⟩ := comparedAt_isOk hmapped hlen hearly
    cases accepted with
    | false => exact haccepted
    | true =>
        have hleading : leadingWildcards pattern ≤ o := by omega
        have hmatch := (isHit_iff h hleading).mp ⟨hfound, haccepted⟩
        have hin := (inBounds_iff h hlen).mpr ⟨o, hleading, hearly, rfl⟩
        have hbehind := (hroom _ hin hmatch).2
        rw [resultAt_eq hleading, address_toNat (by
          have := ho.inside
          omega)] at hbehind
        omega

theorem inBounds_padded (hpos : 0 < pattern.length)
    (hlen : before < 2 ^ 64) {ptr : Ptr} :
    region.InBounds (padded before pattern behind)
        (ptr - BitVec.ofNat 64 before) ↔
      region.HasRoom before pattern behind ptr := by
  have hfits := region.fits
  have hptr := ptr.isLt
  unfold MemoryRegion.InBounds MemoryRegion.HasRoom
  rw [padded_length, BitVec.toNat_sub, BitVec.toNat_ofNat,
    Nat.mod_eq_of_lt hlen]
  omega

theorem matchPlaces_padded (h : ValidPattern pattern)
    (hroom : MatchesHaveRoom m region before pattern behind) :
    matchPlaces m region (padded before pattern behind) =
      (matchPlaces m region pattern).map (· - BitVec.ofNat 64 before) := by
  have hpos : 0 < pattern.length := (leadingWildcards_lt h).pos
  have hplace : ∀ ptr ∈ matchPlaces m region pattern,
      region.HasRoom before pattern behind ptr := by
    intro ptr hptr
    obtain ⟨hin, hmatch⟩ := (mem_matchPlaces h).mp hptr
    exact hroom ptr hin hmatch
  have hsorted : ((matchPlaces m region pattern).map
      (· - BitVec.ofNat 64 before)).Pairwise (·.toNat < ·.toNat) := by
    rw [List.pairwise_map]
    refine (matchPlaces_sorted h).imp_of_mem fun {a b} ha hb hab => ?_
    have haroom := (hplace a ha).1
    have hbroom := (hplace b hb).1
    have halt := a.isLt
    have hblt := b.isLt
    rw [BitVec.toNat_sub, BitVec.toNat_sub, BitVec.toNat_ofNat,
      Nat.mod_eq_of_lt (by omega : before < 2 ^ 64)]
    omega
  refine (matchPlaces_sorted (padded_valid h)).eq_of_mem_iff hsorted fun ptr => ?_
  rw [mem_matchPlaces (padded_valid h), matchesAt_padded, List.mem_map]
  constructor
  · rintro ⟨hin, hmatch⟩
    have hlen : before < 2 ^ 64 := by
      have hhigh := hin.2
      have hfits := region.fits
      rw [padded_length] at hhigh
      omega
    refine ⟨ptr + BitVec.ofNat 64 before, ?_, BitVec.add_sub_cancel _ _⟩
    rw [← BitVec.add_sub_cancel ptr (BitVec.ofNat 64 before),
      inBounds_padded hpos hlen] at hin
    obtain ⟨hlow, hhigh⟩ := hin
    exact (mem_matchPlaces h).mpr ⟨⟨by omega, by omega⟩, hmatch⟩
  · rintro ⟨place, hmem, rfl⟩
    have hplaceRoom := hplace place hmem
    have hlen : before < 2 ^ 64 := by
      have hlow := hplaceRoom.1
      have hlt := place.isLt
      omega
    rw [BitVec.sub_add_cancel]
    exact ⟨(inBounds_padded hpos hlen).mpr hplaceRoom,
      ((mem_matchPlaces h).mp hmem).2⟩

theorem patternScanRegions_padded (h : ValidPattern pattern)
    {regions : List MemoryRegion} (hmapped : ∀ r ∈ regions, r.Mapped m)
    (hquiet : ∀ r ∈ regions, QuietEnd m r pattern)
    (hroom : ∀ r ∈ regions, MatchesHaveRoom m r before pattern behind)
    {offset shifted : BitVec 32}
    (hshift : shifted.signExtend 64 =
      offset.signExtend 64 + BitVec.ofNat 64 before) (results : List Ptr) :
    patternScanRegions m (padded before pattern behind) shifted regions results =
      patternScanRegions m pattern offset regions results := by
  have hquiet' : ∀ r ∈ regions, QuietEnd m r (padded before pattern behind) :=
    fun r hr => quietEnd_padded h (hmapped r hr) (hquiet r hr) (hroom r hr)
  rw [patternScanRegions_quiet h hmapped hquiet,
    patternScanRegions_quiet (padded_valid h) hmapped hquiet',
    List.map_flatMap, List.map_flatMap]
  congr 2
  refine List.flatMap_congr fun r hr => ?_
  rw [matchPlaces_padded h (hroom r hr), List.map_map]
  refine List.map_congr_left fun ptr _ => ?_
  rw [Function.comp_apply, hshift, BitVec.add_comm (offset.signExtend 64),
    ← BitVec.add_assoc, BitVec.sub_add_cancel]

end Padded

/-- Wildcards around a pattern, with the offset moved by those in front, leave
the result of the scan of a module as it is. -/
theorem patternScanModule_padText {platform : Allocation.Platform}
    {source : ModuleSource} {m : Mem} {moduleName front patternStr back : String}
    {regions : List MemoryRegion} {pattern : SignedBytePattern}
    (hregions : getModuleBinRegions source moduleName = .ok regions)
    (hparse : parsePatternStr platform patternStr = .ok pattern)
    (hentry : ∃ entry ∈ pattern, entry ≠ -1)
    (hmapped : ∀ r ∈ regions, r.Mapped m)
    (hquiet : ∀ r ∈ regions, QuietEnd m r pattern)
    (hfront : ∀ token ∈ words front.toList, IsWildcard token)
    (hback : ∀ token ∈ words back.toList, IsWildcard token)
    (hroom : ∀ r ∈ regions, MatchesHaveRoom m r (words front.toList).length
      pattern (words back.toList).length)
    {offset shifted : BitVec 32}
    (hshift : shifted.signExtend 64 =
      offset.signExtend 64 + BitVec.ofNat 64 (words front.toList).length) :
    patternScanModuleMulti platform source m moduleName
        (padText front patternStr back) shifted =
      patternScanModuleMulti platform source m moduleName patternStr offset ∧
    ∀ found, patternScanModule platform source m moduleName
        (padText front patternStr back) shifted = .ok found ↔
      patternScanModule platform source m moduleName patternStr offset =
        .ok found := by
  have hvalid : ValidPattern pattern := ⟨parsePatternStr_entries hparse, hentry⟩
  have hmulti : patternScanModuleMulti platform source m moduleName
      (padText front patternStr back) shifted =
      patternScanModuleMulti platform source m moduleName patternStr offset := by
    unfold patternScanModuleMulti
    rw [hregions, ok_bind, ok_bind, hparse,
      parsePatternStr_padText hparse hfront hback, ok_bind, ok_bind]
    exact patternScanRegions_padded hvalid hmapped hquiet hroom hshift []
  refine ⟨hmulti, fun found => ?_⟩
  rw [patternScanModule_eq_ok_iff, patternScanModule_eq_ok_iff, hmulti]

def roomyMemory : Mem := scanMemory [0x00, 0x41, 0x42, 0x00]

theorem patternScanModule_padText_roomy :
    patternScanModule .unix wholeSource roomyMemory "game"
      (padText "??" "41 42" "??") 1 = .ok 0x1001 := by
  have hvalid : ValidPattern [0x41, 0x42] := by decide
  have hmapped : ∀ r ∈ [scanRegion 4], r.Mapped roomyMemory :=
    List.forall_mem_singleton.mpr (scanRegion_mapped (by decide) (by decide))
  have hquiet : ∀ r ∈ [scanRegion 4], QuietEnd roomyMemory r [0x41, 0x42] := by
    refine List.forall_mem_singleton.mpr fun o ho => ?_
    have hinside : o < 4 := ho.inside
    have hlate : 2 < o := ho.late
    obtain rfl : o = 3 := by omega
    exact absurd ho.found (by decide)
  have hwords : (words "??".toList).length = 1 := by decide +kernel
  have hroom : ∀ r ∈ [scanRegion 4], MatchesHaveRoom roomyMemory r
      (words "??".toList).length [0x41, 0x42] (words "??".toList).length := by
    rw [hwords]
    refine List.forall_mem_singleton.mpr fun ptr hin hmatch => ?_
    have hplaces : matchPlaces roomyMemory (scanRegion 4) [0x41, 0x42] =
        [0x1001] := by decide +kernel
    have hmem := (mem_matchPlaces hvalid).mpr ⟨hin, hmatch⟩
    rw [hplaces, List.mem_singleton] at hmem
    subst hmem
    decide
  have hfound : patternScanModule .unix wholeSource roomyMemory "game" "41 42" 0 =
      .ok 0x1001 := by decide +kernel
  exact ((patternScanModule_padText getModuleBinRegions_wholeSource
    parsePatternStr_4142 ⟨0x41, by simp, by simp⟩ hmapped hquiet (by decide)
    (by decide) hroom (by decide)).2 0x1001).mpr hfound

end Ztour
