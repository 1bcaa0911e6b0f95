import Ztour.Foundation.Collect
import Ztour.ModuleRegions
import Ztour.PatternScan.PatternString
import Ztour.PatternScan.Completeness

/-!
# Scanning a module

A module is scanned region by region.  Where its image is cut into regions, the
places that the scan of a region examines are some of the places that a scan of
the whole image would examine, and what lies across a cut may be missed.
-/

namespace Ztour

open Ztour.Foundation

def patternScanRegions (m : Mem) (signedPattern : SignedBytePattern)
    (offset : BitVec 32) : List MemoryRegion → List Ptr → Res (List Ptr)
  | [], results => .ok results
  | region :: regions, results => do
      let newResults ← signedPatternScanRegion m region signedPattern
      patternScanRegions m signedPattern offset regions
        (results ++ newResults.map (· + offset.signExtend 64))

def patternScanModuleMulti (platform : Allocation.Platform)
    (source : ModuleSource) (m : Mem) (moduleName patternStr : String)
    (offset : BitVec 32) : Res (List Ptr) := do
  let regions ← getModuleBinRegions source moduleName
  let signedPattern ← parsePatternStr platform patternStr
  patternScanRegions m signedPattern offset regions []

/-! ## The places that a scan examines -/

section Places

variable (m : Mem) (region : MemoryRegion) (pattern : SignedBytePattern)

/-- The scan compares the pattern at an occurrence of its first byte, unless
an earlier one behind the last fit has ended the scan. -/
def Examined (offset : Nat) : Prop :=
  pattern.length ≤ region.size.toNat ∧ leadingWildcards pattern ≤ offset ∧
    offset < region.size.toNat ∧ HasFirstByte m region pattern offset ∧
    ∀ o, o < offset → lastFit region pattern ≤ o →
      ¬ HasFirstByte m region pattern o

instance : DecidablePred (Examined m region pattern) := fun _ =>
  inferInstanceAs (Decidable (_ ∧ _ ∧ _ ∧ _ ∧ _))

def examinedOffsets : List Nat :=
  (List.range region.size.toNat).filter (Examined m region pattern ·)

def examinedPlaces : List Ptr :=
  (examinedOffsets m region pattern).map region.address

def placeMatches (ptr : Ptr) : Res Bool :=
  restMatches m ptr (pattern.drop (leadingWildcards pattern + 1)) 1

def scanPlaces (places : List Ptr) : Res (List Ptr) :=
  collect (placeMatches m pattern) places >>= fun found =>
    .ok (found.map (· - BitVec.ofNat 64 (leadingWildcards pattern)))

def earlyOffsets : List Nat :=
  (List.range' (leadingWildcards pattern)
    (lastFit region pattern + 1 - leadingWildcards pattern)).filter
    (HasFirstByte m region pattern ·)

end Places

variable {m : Mem} {region image : MemoryRegion} {pattern : SignedBytePattern}

theorem isLateHit_iff (hleading : leadingWildcards pattern < pattern.length)
    {offset : Nat} :
    IsLateHit m region pattern offset ↔
      Examined m region pattern offset ∧ lastFit region pattern < offset := by
  constructor
  · intro h
    have hlate := h.late
    have hfits := h.fits
    unfold lastFit at hlate
    exact ⟨⟨h.fits, by omega, h.inside, h.found,
      fun o ho hlast => h.earlier o hlast ho⟩, h.late⟩
  · rintro ⟨⟨hfits, -, hinside, hfound, hearlier⟩, hlate⟩
    exact ⟨hfits, hlate, hinside, hfound, fun o hlast ho => hearlier o ho hlast⟩

theorem mem_earlyOffsets (hleading : leadingWildcards pattern < pattern.length)
    (hlen : pattern.length ≤ region.size.toNat) {offset : Nat} :
    offset ∈ earlyOffsets m region pattern ↔
      Examined m region pattern offset ∧ offset ≤ lastFit region pattern := by
  unfold earlyOffsets Examined
  rw [List.mem_filter, List.mem_range'_1, decide_eq_true_eq]
  have hlast : lastFit region pattern < region.size.toNat := by
    unfold lastFit
    omega
  constructor
  · rintro ⟨⟨hlow, hhigh⟩, hfound⟩
    refine ⟨⟨hlen, hlow, by omega, hfound, ?_⟩, by omega⟩
    intro o ho hlast
    omega
  · rintro ⟨⟨-, hlow, -, hfound, -⟩, hlate⟩
    exact ⟨⟨hlow, by omega⟩, hfound⟩

theorem sorted_filter_range (q : Nat → Bool) (n : Nat) :
    ((List.range n).filter q).Pairwise (· < ·) :=
  List.pairwise_lt_range.filter q

theorem examinedOffsets_eq (hleading : leadingWildcards pattern < pattern.length)
    (hlen : pattern.length ≤ region.size.toNat) {late : Option Nat}
    (hlate : ∀ o, late = some o ↔ IsLateHit m region pattern o) :
    examinedOffsets m region pattern =
      earlyOffsets m region pattern ++ late.toList := by
  have hrange : (List.range' (leadingWildcards pattern)
      (lastFit region pattern + 1 - leadingWildcards pattern)).Pairwise (· < ·) :=
    List.pairwise_lt_range'
  have hsorted : (earlyOffsets m region pattern ++ late.toList).Pairwise
      (· < ·) := by
    rw [List.pairwise_append]
    refine ⟨hrange.filter _, ?_, ?_⟩
    · cases late <;> simp
    · intro o ho q hq
      have hearly := ((mem_earlyOffsets hleading hlen).mp ho).2
      have hlate' := ((hlate q).mp (Option.mem_toList.mp hq)).late
      omega
  refine (sorted_filter_range _ _).eq_of_mem_iff hsorted fun o => ?_
  rw [List.mem_append, mem_earlyOffsets hleading hlen, Option.mem_toList, hlate,
    isLateHit_iff hleading, ← and_or_left, List.mem_filter, List.mem_range,
    decide_eq_true_eq]
  constructor
  · rintro ⟨-, hexamined⟩
    exact ⟨hexamined, le_or_gt o _⟩
  · rintro ⟨hexamined, -⟩
    exact ⟨hexamined.2.2.1, hexamined⟩

theorem examinedPlaces_eq (hleading : leadingWildcards pattern < pattern.length)
    (hlen : pattern.length ≤ region.size.toNat) {late : Option Nat}
    (hlate : ∀ o, late = some o ↔ IsLateHit m region pattern o) :
    examinedPlaces m region pattern =
      (earlyOffsets m region pattern).map region.address ++
        (late.map region.address).toList := by
  unfold examinedPlaces
  rw [examinedOffsets_eq hleading hlen hlate, List.map_append]
  cases late <;> rfl

theorem examinedPlaces_of_short (hlen : region.size.toNat < pattern.length) :
    examinedPlaces m region pattern = [] := by
  unfold examinedPlaces examinedOffsets
  rw [List.map_eq_nil_iff, List.filter_eq_nil_iff]
  intro o ho
  rw [decide_eq_true_eq]
  exact fun hexamined => absurd hexamined.1 (by omega)

theorem earlyPlaces_isOk (hmapped : region.Mapped m)
    (hleading : leadingWildcards pattern < pattern.length)
    (hlen : pattern.length ≤ region.size.toNat) :
    ∀ ptr ∈ (earlyOffsets m region pattern).map region.address,
      ∃ accepted, placeMatches m pattern ptr = .ok accepted := by
  intro ptr hptr
  obtain ⟨o, ho, rfl⟩ := List.mem_map.mp hptr
  exact comparedAt_isOk hmapped hlen ((mem_earlyOffsets hleading hlen).mp ho).2

theorem collect_early (hmapped : region.Mapped m)
    (hleading : leadingWildcards pattern < pattern.length)
    (hlen : pattern.length ≤ region.size.toNat) :
    collect (placeMatches m pattern)
        ((earlyOffsets m region pattern).map region.address) =
      .ok (((List.range' (leadingWildcards pattern)
        (lastFit region pattern + 1 - leadingWildcards pattern)).filter
          (IsHit m region pattern ·)).map region.address) := by
  have htest : ∀ ptr ∈ (earlyOffsets m region pattern).map region.address,
      placeMatches m pattern ptr =
        .ok (decide (placeMatches m pattern ptr = .ok true)) := by
    intro ptr hptr
    obtain ⟨accepted, haccepted⟩ := earlyPlaces_isOk hmapped hleading hlen ptr hptr
    cases accepted <;> simp [haccepted]
  rw [collect_eq_filter htest]
  unfold earlyOffsets
  rw [List.filter_map, List.filter_filter]
  congr 2
  apply List.filter_congr
  intro o ho
  rw [Function.comp_apply, ← Bool.decide_and, decide_eq_decide, and_comm]
  rfl

theorem signedPatternScanRegion_eq_scanPlaces (h : ValidPattern pattern)
    (hmapped : region.Mapped m) :
    signedPatternScanRegion m region pattern =
      scanPlaces m pattern (examinedPlaces m region pattern) := by
  have hleading := leadingWildcards_lt h
  rcases Nat.lt_or_ge region.size.toNat pattern.length with hshort | hlen
  · rw [signedPatternScanRegion_of_short hshort, examinedPlaces_of_short hshort]
    rfl
  · obtain ⟨late, hlate⟩ := exists_late m region pattern
    have hearly : collect (placeMatches m pattern)
        ((earlyOffsets m region pattern).map region.address) =
        .ok (((List.range' (leadingWildcards pattern)
          (lastFit region pattern + 1 - leadingWildcards pattern)).filter
            (IsHit m region pattern ·)).map region.address) :=
      collect_early hmapped hleading hlen
    rw [signedPatternScanRegion_eq h hmapped hlen late hlate]
    unfold scanPlaces
    rw [examinedPlaces_eq hleading hlen hlate, collect_append, hearly, ok_bind]
    unfold resultsFrom
    cases late with
    | none => simp [finish, collect, resultAt]
    | some o =>
        simp only [finish, Option.map_some, Option.toList_some, collect_singleton]
        change (comparedAt m region pattern o >>= _) =
          (((comparedAt m region pattern o >>= _) >>= _) >>= _)
        cases comparedAt m region pattern o with
        | error e => rfl
        | ok isMatch => cases isMatch <;> simp [resultAt]

theorem scanPlaces_append (m : Mem) (pattern : SignedBytePattern)
    (xs ys : List Ptr) :
    scanPlaces m pattern (xs ++ ys) =
      scanPlaces m pattern xs >>= fun as => scanPlaces m pattern ys >>= fun bs =>
        .ok (as ++ bs) := by
  unfold scanPlaces
  rw [collect_append]
  cases collect (placeMatches m pattern) xs with
  | error e => rfl
  | ok as =>
      cases collect (placeMatches m pattern) ys with
      | error e => rfl
      | ok bs => simp

/-! ## Several regions -/

theorem patternScanRegions_eq (h : ValidPattern pattern) (offset : BitVec 32)
    {regions : List MemoryRegion} (hmapped : ∀ r ∈ regions, r.Mapped m)
    (results : List Ptr) :
    patternScanRegions m pattern offset regions results =
      scanPlaces m pattern (regions.flatMap (examinedPlaces m · pattern)) >>=
        fun found => .ok (results ++ found.map (· + offset.signExtend 64)) := by
  induction regions generalizing results with
  | nil => simp [patternScanRegions, scanPlaces, collect]
  | cons region regions ih =>
      obtain ⟨hregion, hregions⟩ := List.forall_mem_cons.mp hmapped
      unfold patternScanRegions
      rw [signedPatternScanRegion_eq_scanPlaces h hregion, List.flatMap_cons,
        scanPlaces_append]
      cases scanPlaces m pattern (examinedPlaces m region pattern) with
      | error e => rfl
      | ok found =>
          rw [ok_bind, ok_bind, ih hregions]
          cases scanPlaces m pattern
              (regions.flatMap (examinedPlaces m · pattern)) with
          | error e => rfl
          | ok later => simp

/-- The regions lie end to end from `start` up to `stop`. -/
def Tiles : Nat → List MemoryRegion → Nat → Prop
  | start, [], stop => start = stop
  | start, region :: regions, stop =>
      region.base.toNat = start ∧ Tiles (start + region.size.toNat) regions stop

def MemoryRegion.TiledBy (image : MemoryRegion) (regions : List MemoryRegion) :
    Prop :=
  Tiles image.base.toNat regions (image.base.toNat + image.size.toNat)

theorem Tiles.bounds {start stop : Nat} {regions : List MemoryRegion}
    (h : Tiles start regions stop) :
    start ≤ stop ∧ ∀ r ∈ regions,
      start ≤ r.base.toNat ∧ r.base.toNat + r.size.toNat ≤ stop := by
  induction regions generalizing start with
  | nil => exact ⟨h.le, by simp⟩
  | cons region regions ih =>
      obtain ⟨hbase, htail⟩ := h
      obtain ⟨hle, hall⟩ := ih htail
      refine ⟨by omega, List.forall_mem_cons.mpr ⟨by omega, ?_⟩⟩
      intro r hr
      have hr' := hall r hr
      omega

structure MemoryRegion.Within (region image : MemoryRegion) : Prop where
  low : image.base.toNat ≤ region.base.toNat
  high : region.base.toNat + region.size.toNat ≤
    image.base.toNat + image.size.toNat

theorem MemoryRegion.TiledBy.within {regions : List MemoryRegion}
    (h : image.TiledBy regions) : ∀ r ∈ regions, r.Within image := by
  intro r hr
  obtain ⟨hlow, hhigh⟩ := (Tiles.bounds h).2 r hr
  exact ⟨hlow, hhigh⟩

section Within

variable (hwithin : region.Within image)

include hwithin

theorem address_within (o : Nat) :
    region.address o =
      image.address (region.base.toNat - image.base.toNat + o) := by
  have hbase : region.base =
      image.address (region.base.toNat - image.base.toNat) := by
    have hlow := hwithin.low
    have hregion := region.base.isLt
    apply BitVec.eq_of_toNat_eq
    unfold MemoryRegion.address
    rw [BitVec.toNat_add, BitVec.toNat_ofNat]
    omega
  unfold MemoryRegion.address at *
  rw [BitVec.ofNat_add, ← BitVec.add_assoc, ← hbase]

theorem mapped_within (hmapped : image.Mapped m) : region.Mapped m := by
  intro x hx
  obtain ⟨o, ho, -, rfl⟩ := eq_offset_of_mem_span hx
  have hhigh := hwithin.high
  have hlow := hwithin.low
  have haddress := address_within hwithin o
  unfold MemoryRegion.address at haddress
  rw [haddress]
  exact hmapped _ (address_mem image (by omega))

theorem examined_within {o : Nat} (h : Examined m region pattern o) :
    Examined m image pattern (region.base.toNat - image.base.toNat + o) := by
  obtain ⟨hfits, hlow, hinside, hfound, hearlier⟩ := h
  have hwlow := hwithin.low
  have hwhigh := hwithin.high
  have hbyte : ∀ q, HasFirstByte m region pattern q ↔
      HasFirstByte m image pattern (region.base.toNat - image.base.toNat + q) := by
    intro q
    unfold HasFirstByte
    rw [address_within hwithin]
  refine ⟨by omega, by omega, by omega, (hbyte o).mp hfound, ?_⟩
  intro q hq hlast hfirst
  unfold lastFit at hlast hearlier
  have hq' : region.base.toNat - image.base.toNat +
      (q - (region.base.toNat - image.base.toNat)) = q := by omega
  rw [← hq'] at hfirst
  exact hearlier _ (by omega) (by omega) ((hbyte _).mpr hfirst)

theorem examinedPlaces_subset :
    examinedPlaces m region pattern ⊆ examinedPlaces m image pattern := by
  intro ptr hptr
  unfold examinedPlaces examinedOffsets at *
  obtain ⟨o, ho, rfl⟩ := List.mem_map.mp hptr
  have hexamined : Examined m region pattern o :=
    of_decide_eq_true (List.mem_filter.mp ho).2
  have himage := examined_within hwithin hexamined
  rw [address_within hwithin]
  apply List.mem_map_of_mem
  rw [List.mem_filter, List.mem_range, decide_eq_true_eq]
  exact ⟨himage.2.2.1, himage⟩

end Within

/-! ## The order of the places -/

instance : Std.Irrefl (fun a b : Ptr => a.toNat < b.toNat) :=
  ⟨fun a => lt_irrefl a.toNat⟩

instance : Std.Antisymm (fun a b : Ptr => a.toNat < b.toNat) :=
  ⟨fun _ _ hab hba => absurd hab (lt_asymm hba)⟩

theorem examinedPlaces_bounds {ptr : Ptr}
    (h : ptr ∈ examinedPlaces m region pattern) :
    region.base.toNat ≤ ptr.toNat ∧
      ptr.toNat < region.base.toNat + region.size.toNat := by
  obtain ⟨o, ho, rfl⟩ := List.mem_map.mp h
  have hinside := List.mem_range.mp (List.mem_of_mem_filter ho)
  rw [address_toNat hinside]
  omega

theorem examinedPlaces_sorted (m : Mem) (region : MemoryRegion)
    (pattern : SignedBytePattern) :
    (examinedPlaces m region pattern).Pairwise (·.toNat < ·.toNat) := by
  unfold examinedPlaces
  rw [List.pairwise_map]
  refine (sorted_filter_range _ _).imp_of_mem fun {a b} ha hb hab => ?_
  have ha' := List.mem_range.mp (List.mem_of_mem_filter ha)
  have hb' := List.mem_range.mp (List.mem_of_mem_filter hb)
  rw [address_toNat ha', address_toNat hb']
  omega

theorem Tiles.examinedPlaces_sorted {start stop : Nat}
    {regions : List MemoryRegion} (h : Tiles start regions stop) :
    (regions.flatMap (examinedPlaces m · pattern)).Pairwise
      (·.toNat < ·.toNat) := by
  induction regions generalizing start with
  | nil => simp
  | cons region regions ih =>
      obtain ⟨hbase, htail⟩ := h
      rw [List.flatMap_cons, List.pairwise_append]
      refine ⟨Ztour.examinedPlaces_sorted m region pattern, ih htail, ?_⟩
      intro a ha b hb
      obtain ⟨later, hlater, hb⟩ := List.mem_flatMap.mp hb
      have ha' := (examinedPlaces_bounds ha).2
      have hb' := (examinedPlaces_bounds hb).1
      have hstart := (htail.bounds.2 later hlater).1
      omega

theorem MemoryRegion.TiledBy.places_eq_filter {regions : List MemoryRegion}
    (h : image.TiledBy regions) :
    regions.flatMap (examinedPlaces m · pattern) =
      (examinedPlaces m image pattern).filter
        (· ∈ regions.flatMap (examinedPlaces m · pattern)) := by
  refine (Tiles.examinedPlaces_sorted h).eq_of_mem_iff
    ((examinedPlaces_sorted m image pattern).filter _) fun ptr => ?_
  rw [List.mem_filter, decide_eq_true_eq]
  refine ⟨fun hptr => ⟨?_, hptr⟩, And.right⟩
  obtain ⟨region, hregion, hexamined⟩ := List.mem_flatMap.mp hptr
  exact examinedPlaces_subset (h.within region hregion) hexamined

/-! ## What the cuts lose -/

/-- Every place that only the scan of the whole image examines is rejected
there, or a place that both examine ends both scans. -/
def CutsLoseNothing (m : Mem) (image : MemoryRegion)
    (regions : List MemoryRegion) (pattern : SignedBytePattern) : Prop :=
  (∃ region ∈ regions, ∃ ptr ∈ examinedPlaces m region pattern,
      ∃ e, placeMatches m pattern ptr = .error e) ∨
    ∀ ptr ∈ examinedPlaces m image pattern,
      (∀ region ∈ regions, ptr ∉ examinedPlaces m region pattern) →
        placeMatches m pattern ptr = .ok false

/-- A match that a cut loses does not lie inside the region of its place. -/
theorem lost_match_straddles (h : ValidPattern pattern) {ptr : Ptr}
    (hbyte : m ptr = some (firstValidByte pattern))
    (hlost : ptr ∉ examinedPlaces m region pattern) :
    ¬ region.InBounds pattern
      (ptr - BitVec.ofNat 64 (leadingWildcards pattern)) := by
  have hleading := leadingWildcards_lt h
  intro hin
  have hlen : pattern.length ≤ region.size.toNat := by
    obtain ⟨hlow, hhigh⟩ := hin
    omega
  obtain ⟨o, hlow, hhigh, heq⟩ := (inBounds_iff h hlen).mp hin
  have hptr : ptr = region.address o := (BitVec.sub_left_inj _).mp heq
  subst hptr
  have hexamined := ((mem_earlyOffsets hleading hlen).mp (by
    unfold earlyOffsets
    rw [List.mem_filter, List.mem_range'_1, decide_eq_true_eq]
    exact ⟨⟨hlow, by omega⟩, hbyte⟩)).1
  apply hlost
  unfold examinedPlaces examinedOffsets
  apply List.mem_map_of_mem
  rw [List.mem_filter, List.mem_range, decide_eq_true_eq]
  exact ⟨hexamined.2.2.1, hexamined⟩

theorem patternScanRegions_split_iff (h : ValidPattern pattern)
    (offset : BitVec 32) {regions : List MemoryRegion}
    (hmapped : image.Mapped m) (htiles : image.TiledBy regions) :
    patternScanRegions m pattern offset regions [] =
        patternScanRegions m pattern offset [image] [] ↔
      CutsLoseNothing m image regions pattern := by
  have hleading := leadingWildcards_lt h
  have hregions : ∀ r ∈ regions, r.Mapped m := fun r hr =>
    mapped_within (htiles.within r hr) hmapped
  rw [patternScanRegions_eq h offset hregions,
    patternScanRegions_eq h offset (by simpa using hmapped)]
  simp only [List.flatMap_singleton, List.nil_append]
  unfold scanPlaces
  rw [bind_ok_injective (List.map_injective_iff.mpr fun _ _ =>
      (BitVec.add_left_inj _).mp),
    bind_ok_injective (List.map_injective_iff.mpr fun _ _ =>
      (BitVec.sub_left_inj _).mp),
    htiles.places_eq_filter]
  have hkept : ∀ ptr, decide (ptr ∈
      regions.flatMap (examinedPlaces m · pattern)) = true ↔
      ∃ region ∈ regions, ptr ∈ examinedPlaces m region pattern := by
    intro ptr
    rw [decide_eq_true_eq, List.mem_flatMap]
  rcases Nat.lt_or_ge image.size.toNat pattern.length with hshort | hlen
  · rw [examinedPlaces_of_short hshort]
    refine iff_of_true rfl (.inr ?_)
    rw [examinedPlaces_of_short hshort]
    simp
  · obtain ⟨late, hlate⟩ := exists_late m image pattern
    have himage := examinedPlaces_eq hleading hlen hlate
    have hearly := earlyPlaces_isOk hmapped hleading hlen
    rw [himage, collect_filter_eq_iff hearly, ← himage]
    unfold CutsLoseNothing
    simp only [hkept, not_exists, not_and]
    refine or_congr_left' fun _ => ?_
    constructor
    · rintro ⟨ptr, -, ⟨region, hregion, hptr⟩, he⟩
      exact ⟨region, hregion, ptr, hptr, he⟩
    · rintro ⟨region, hregion, ptr, hptr, e, he⟩
      refine ⟨ptr, ?_, ⟨region, hregion, hptr⟩, e, he⟩
      have hmem := examinedPlaces_subset (htiles.within region hregion) hptr
      rw [himage, List.mem_append] at hmem
      rcases hmem with hmem | hmem
      · obtain ⟨accepted, haccepted⟩ := hearly ptr hmem
        rw [haccepted] at he
        cases he
      · exact Option.mem_toList.mp hmem

/-- Scanning a module whose image the system reports in several regions and
scanning it as one region agree exactly if the cuts lose nothing. -/
theorem patternScanModuleMulti_split_iff {platform : Allocation.Platform}
    {split whole : ModuleSource} {moduleName patternStr : String}
    {regions : List MemoryRegion}
    (hsplit : getModuleBinRegions split moduleName = .ok regions)
    (hwhole : getModuleBinRegions whole moduleName = .ok [image])
    (hparse : parsePatternStr platform patternStr = .ok pattern)
    (hentry : ∃ entry ∈ pattern, entry ≠ -1) (hmapped : image.Mapped m)
    (htiles : image.TiledBy regions) (offset : BitVec 32) :
    patternScanModuleMulti platform split m moduleName patternStr offset =
        patternScanModuleMulti platform whole m moduleName patternStr offset ↔
      CutsLoseNothing m image regions pattern := by
  have hvalid : ValidPattern pattern := ⟨parsePatternStr_entries hparse, hentry⟩
  unfold patternScanModuleMulti
  rw [hsplit, hwhole, ok_bind, ok_bind, hparse, ok_bind, ok_bind]
  exact patternScanRegions_split_iff hvalid offset hmapped htiles

instance : DecidableEq MemoryRegion := fun a b =>
  decidable_of_iff (a.base = b.base ∧ a.size = b.size) (by
    cases a
    cases b
    simp)

def splitSource : ModuleSource := .linux (some
  "1000-1002 r-xp 0 8:1 5 /game\n1002-1004 r--p 2 8:1 5 /game\n")

def wholeSource : ModuleSource := .windows fun _ => some (scanRegion 4)

def secondRegion : MemoryRegion := ⟨0x1002, 2, by decide⟩

theorem getModuleBinRegions_splitSource :
    getModuleBinRegions splitSource "game" =
      .ok [scanRegion 2, secondRegion] := by
  decide +kernel

theorem getModuleBinRegions_wholeSource :
    getModuleBinRegions wholeSource "game" = .ok [scanRegion 4] := rfl

theorem scanRegion_tiledBy :
    (scanRegion 4).TiledBy [scanRegion 2, secondRegion] :=
  ⟨rfl, rfl, rfl⟩

theorem parsePatternStr_4142 :
    parsePatternStr .unix "41 42" = .ok [0x41, 0x42] := by
  decide +kernel

def insideMemory : Mem := scanMemory [0x41, 0x42, 0x41, 0x42]

theorem cutsLoseNothing_inside :
    CutsLoseNothing insideMemory (scanRegion 4) [scanRegion 2, secondRegion]
      [0x41, 0x42] := by
  have hplaces : examinedPlaces insideMemory (scanRegion 4) [0x41, 0x42] =
      [0x1000, 0x1002] := by decide +kernel
  have hfirst : 0x1000 ∈ examinedPlaces insideMemory (scanRegion 2)
      [0x41, 0x42] := by decide +kernel
  have hsecond : 0x1002 ∈ examinedPlaces insideMemory secondRegion
      [0x41, 0x42] := by decide +kernel
  refine .inr fun ptr hptr hlost => ?_
  rw [hplaces] at hptr
  rcases List.mem_pair.mp hptr with rfl | rfl
  · exact absurd hfirst (hlost _ (by simp))
  · exact absurd hsecond (hlost _ (by simp))

theorem patternScanModuleMulti_split_inside :
    patternScanModuleMulti .unix splitSource insideMemory "game" "41 42" 0 =
      patternScanModuleMulti .unix wholeSource insideMemory "game" "41 42" 0 :=
  (patternScanModuleMulti_split_iff getModuleBinRegions_splitSource
    getModuleBinRegions_wholeSource parsePatternStr_4142 ⟨0x41, by simp, by simp⟩
    (scanRegion_mapped (by decide) (by decide)) scanRegion_tiledBy 0).mpr
    cutsLoseNothing_inside

/-- The match in the middle lies across the cut, behind a mismatch. -/
theorem patternScanModuleMulti_split_loses :
    (scanRegion 4).Mapped (scanMemory [0x41, 0x41, 0x42, 0x00]) ∧
      (scanRegion 4).TiledBy [scanRegion 2, secondRegion] ∧
      patternScanModuleMulti .unix splitSource
        (scanMemory [0x41, 0x41, 0x42, 0x00]) "game" "41 42" 0 = .ok [] ∧
      patternScanModuleMulti .unix wholeSource
        (scanMemory [0x41, 0x41, 0x42, 0x00]) "game" "41 42" 0 =
        .ok [0x1001] := by
  refine ⟨scanRegion_mapped (by decide) (by decide), ⟨rfl, rfl, rfl⟩, ?_, ?_⟩
  · decide +kernel
  · decide +kernel

end Ztour
