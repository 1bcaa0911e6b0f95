import Ztour.Foundation.Stride
import Ztour.PageSearch

/-!
# How near the code page is

The search asks for pages in the order of their distance.  Its strides grow
with the distance, so farther out it may step over a free page, but not over as
many free pages in a row as a stride is long.
-/

namespace Ztour

open Ztour.Foundation

def distance (a b : Ptr) : Nat := (a.toNat - b.toNat) + (b.toNat - a.toNat)

/-- How many free pages in a row the search cannot step over, if the first one
is `n` pages away.  Up to a hundred pages it is every single one. -/
def gapBefore (n : Nat) : Nat := min (2 ^ Nat.log2 ((n + 99) / 100)) 100

def grants (os : Os) (m : Mem) (target : Ptr) : Bool :=
  os.mmap target && m.isUnmapped target os.pageSize.toNat

/-! ## The strides -/

theorem stepFactor_eq (iter : Nat) :
    stepFactor iter = min (2 ^ min (iter / 100) 16) 100 := by
  unfold stepFactor
  rw [Nat.one_shiftLeft]

theorem stepFactor_pos (iter : Nat) : 0 < stepFactor iter :=
  (stepFactor_bounds iter).1

theorem walked_stepFactor {q : Nat} (hq : q ≤ 7) :
    walked stepFactor (100 * q) = 100 * (2 ^ q - 1) := by
  induction q with
  | zero => rfl
  | succ q ih =>
      have hsmall : 2 ^ q ≤ 2 ^ 6 := Nat.pow_le_pow_right (by decide) (by omega)
      have hconst : ∀ i, 100 * q ≤ i → i < 100 * q + 100 →
          stepFactor i = 2 ^ q := by
        intro i hlow hhigh
        have hdiv : i / 100 = q := by omega
        rw [stepFactor_eq, hdiv, Nat.min_eq_left (by omega : q ≤ 16),
          Nat.min_eq_left (by omega)]
      have hpos := Nat.one_le_two_pow (n := q)
      rw [Nat.mul_succ, walked_add_const hconst, ih (by omega), Nat.pow_succ]
      omega

theorem gapBefore_pos (n : Nat) : 0 < gapBefore n := by
  have hpos := Nat.one_le_two_pow (n := Nat.log2 ((n + 99) / 100))
  unfold gapBefore
  omega

theorem stepFactor_le_gapBefore {n iter : Nat}
    (h : walked stepFactor iter < n) : stepFactor iter ≤ gapBefore n := by
  have hq : walked stepFactor (100 * min (iter / 100) 7) < n :=
    lt_of_le_of_lt (walked_mono (by omega)) h
  rw [walked_stepFactor (by omega)] at hq
  have hpos := Nat.one_le_two_pow (n := min (iter / 100) 7)
  have hlog : min (iter / 100) 7 ≤ Nat.log2 ((n + 99) / 100) :=
    (Nat.le_log2 (by omega)).mpr (by omega)
  have hpow := Nat.pow_le_pow_right (by decide : 0 < 2) hlog
  rw [stepFactor_eq]
  unfold gapBefore
  rcases Nat.lt_or_ge (iter / 100) 7 with hlow | hhigh
  · rw [Nat.min_eq_left (by omega : iter / 100 ≤ 16)]
    rw [Nat.min_eq_left (by omega : iter / 100 ≤ 7)] at hpow
    omega
  · rw [Nat.min_eq_right hhigh] at hpow
    have hseven : (2 : Nat) ^ 7 = 128 := rfl
    omega

/-! ## The schedule is in the order of the distances -/

section Schedule

variable {pageSize base dist target : Ptr}

theorem probeTarget_distance {isAbove : Bool}
    (h : probeTarget base dist isAbove = some target) :
    distance base target = dist.toNat := by
  have hbase := base.isLt
  have hdist := dist.isLt
  unfold probeTarget at h
  unfold distance
  cases isAbove with
  | true =>
      dsimp only at h
      split_ifs at h with hwraps
      cases h
      rw [BitVec.lt_def, BitVec.toNat_add] at hwraps
      rw [BitVec.toNat_add]
      omega
  | false =>
      dsimp only at h
      split_ifs at h with hwraps
      cases h
      rw [gt_iff_lt, BitVec.lt_def, BitVec.toNat_sub] at hwraps
      rw [BitVec.toNat_sub]
      omega

theorem IsPageSize.dist_next (h : IsPageSize pageSize) {iter : Nat}
    (hdist : dist.toNat = pageSize.toNat * walked stepFactor iter)
    (hnear : dist.toNat < maxSearchDist) :
    (dist + stepSize pageSize iter).toNat =
      pageSize.toNat * walked stepFactor (iter + 1) := by
  obtain ⟨hstep, hle⟩ := h.stepSize_toNat iter
  unfold maxSearchDist at hnear
  rw [BitVec.toNat_add, hstep, Nat.mod_eq_of_lt (by omega), hdist, walked_succ,
    Nat.mul_add]

theorem probeSchedule_far (h : IsPageSize pageSize) {fuel iter : Nat}
    (hdist : dist.toNat = pageSize.toNat * walked stepFactor iter) :
    ∀ target ∈ probeSchedule pageSize base fuel dist iter,
      dist.toNat ≤ distance base target := by
  induction fuel generalizing dist iter with
  | zero => simp [probeSchedule]
  | succ fuel ih =>
      intro target htarget
      unfold probeSchedule at htarget
      split_ifs at htarget with hfar
      · cases htarget
      · have hnext := h.dist_next hdist (Nat.lt_of_not_le hfar)
        simp only [List.mem_append, Option.mem_toList] at htarget
        rcases htarget with hbelow | habove | hlater
        · exact (probeTarget_distance hbelow).ge
        · exact (probeTarget_distance habove).ge
        · have hle := ih hnext target hlater
          have hmono : walked stepFactor iter ≤ walked stepFactor (iter + 1) :=
            walked_mono (Nat.le_succ iter)
          have hmul := Nat.mul_le_mul_left pageSize.toNat hmono
          omega

theorem probeSchedule_sorted (h : IsPageSize pageSize) {fuel iter : Nat}
    (hdist : dist.toNat = pageSize.toNat * walked stepFactor iter) :
    (probeSchedule pageSize base fuel dist iter).Pairwise
      (distance base · ≤ distance base ·) := by
  induction fuel generalizing dist iter with
  | zero => simp [probeSchedule]
  | succ fuel ih =>
      unfold probeSchedule
      split_ifs with hfar
      · exact List.Pairwise.nil
      · have hnext := h.dist_next hdist (Nat.lt_of_not_le hfar)
        have hsame : ∀ isAbove, ∀ t ∈ (probeTarget base dist isAbove).toList,
            distance base t = dist.toNat :=
          fun isAbove t ht => probeTarget_distance (Option.mem_toList.mp ht)
        have hone : ∀ isAbove, (probeTarget base dist isAbove).toList.Pairwise
            (distance base · ≤ distance base ·) := by
          intro isAbove
          cases probeTarget base dist isAbove <;> simp
        have hlater : ∀ t ∈ probeSchedule pageSize base fuel
            (dist + stepSize pageSize iter) (iter + 1),
            dist.toNat ≤ distance base t := by
          intro t ht
          have hle := probeSchedule_far h hnext t ht
          have hmono : walked stepFactor iter ≤ walked stepFactor (iter + 1) :=
            walked_mono (Nat.le_succ iter)
          have hmul := Nat.mul_le_mul_left pageSize.toNat hmono
          omega
        refine List.pairwise_append.mpr ⟨hone false,
          List.pairwise_append.mpr ⟨hone true, ih hnext, ?_⟩, ?_⟩
        · intro t ht u hu
          rw [hsame true t ht]
          exact hlater u hu
        · intro t ht u hu
          rw [hsame false t ht]
          rcases List.mem_append.mp hu with hu | hu
          · exact (hsame true u hu).ge
          · exact hlater u hu

theorem mem_probeSchedule (h : IsPageSize pageSize) {fuel iter i : Nat}
    {isAbove : Bool}
    (hdist : dist.toNat = pageSize.toNat * walked stepFactor iter)
    (hle : iter ≤ i) (hfuel : i < iter + fuel)
    (hnear : pageSize.toNat * walked stepFactor i < maxSearchDist)
    (htarget : probeTarget base
      (BitVec.ofNat 64 (pageSize.toNat * walked stepFactor i)) isAbove =
        some target) :
    target ∈ probeSchedule pageSize base fuel dist iter := by
  induction fuel generalizing dist iter with
  | zero => omega
  | succ fuel ih =>
      have hwalked : walked stepFactor iter ≤ walked stepFactor i :=
        walked_mono hle
      have hmono := Nat.mul_le_mul_left pageSize.toNat hwalked
      have hclose : ¬ dist.toNat ≥ maxSearchDist := by omega
      have hnext := h.dist_next hdist (Nat.lt_of_not_le hclose)
      unfold probeSchedule
      rw [if_neg hclose, List.mem_append, List.mem_append]
      rcases Nat.eq_or_lt_of_le hle with rfl | hlt
      · have heq : BitVec.ofNat 64
            (pageSize.toNat * walked stepFactor iter) = dist := by
          rw [← hdist, BitVec.ofNat_toNat, BitVec.setWidth_eq]
        rw [heq] at htarget
        cases isAbove with
        | false => exact .inl (Option.mem_toList.mpr htarget)
        | true => exact .inr (.inl (Option.mem_toList.mpr htarget))
      · exact .inr (.inr (ih hnext hlt (by omega)))

end Schedule

/-! ## The first page that is granted -/

theorem firstGranted_find {os : Os} {m : Mem} (h : IsPageSize os.pageSize)
    (notFound : Err) (targets : List Ptr) :
    firstGranted (fun target m => tryAllocPageAt os m target) notFound targets
        m =
      match targets.find? (grants os m) with
      | none => .error notFound
      | some page => .ok (page, m.map page os.pageSize.toNat 0) := by
  have hsize : pageSize os = .ok os.pageSize.toNat := h.check
  induction targets with
  | nil => rfl
  | cons target targets ih =>
      unfold firstGranted
      rw [List.find?_cons]
      cases hgrants : grants os m target with
      | true =>
          have hpage : target ≠ 0 := by
            rintro rfl
            unfold grants at hgrants
            rw [os.mmap_zero] at hgrants
            cases hgrants
          have htry : tryAllocPageAt os m target =
              .ok (target, m.map target os.pageSize.toNat 0) := by
            unfold tryAllocPageAt
            rw [hsize, ok_bind]
            exact if_pos hgrants
          rw [htry, ok_bind]
          exact if_pos hpage
      | false =>
          have htry : tryAllocPageAt os m target = .ok (0, m) := by
            unfold tryAllocPageAt
            rw [hsize, ok_bind]
            exact if_neg (ne_true_of_eq_false hgrants)
          rw [htry, ok_bind]
          exact ih

theorem allocPageNear_eq_find {os : Os} {nearPtr : Ptr}
    (h : IsPageSize os.pageSize) (hnear : nearPtr ≠ 0) (m : Mem) :
    allocPageNear os m nearPtr =
      match (probeSchedule os.pageSize (nearPtr &&& ~~~(os.pageSize - 1))
          (maxSearchDist + 1) 0 0).find? (grants os m) with
      | none => .error (notAllocated (nearPtr &&& ~~~(os.pageSize - 1)))
      | some page => .ok (page, m.map page os.pageSize.toNat 0) := by
  have hfuel : maxSearchDist < (0 : BitVec 64).toNat + (maxSearchDist + 1) := by
    have hzero : (0 : BitVec 64).toNat = 0 := rfl
    rw [hzero, Nat.zero_add]
    exact Nat.lt_succ_self _
  rw [allocPageNear_eq_with]
  unfold allocPageNearWith
  rw [decide_eq_true hnear, ztAssert_true, ok_bind, h.check, ok_bind,
    allocSearchWith_eq h (dvd_zero _) hfuel (Nat.succ_pos _)]
  exact firstGranted_find h _ _

theorem find?_weight_le {α : Type} {weight : α → Nat} {p : α → Bool}
    {xs : List α} {a b : α} (hsorted : xs.Pairwise (weight · ≤ weight ·))
    (hfound : xs.find? p = some a) (hb : b ∈ xs) (hpb : p b = true) :
    weight a ≤ weight b := by
  obtain ⟨-, before, after, rfl, hbefore⟩ := List.find?_eq_some_iff_append.mp hfound
  rw [List.pairwise_append, List.pairwise_cons] at hsorted
  rcases List.mem_append.mp hb with hmem | hmem
  · have hnot := hbefore b hmem
    rw [hpb] at hnot
    cases hnot
  · rcases List.mem_cons.mp hmem with rfl | hmem
    · exact le_rfl
    · exact hsorted.2.1.1 b hmem

/-- Where enough pages in a row are free, the search ends with a page that is
not farther away than those. -/
theorem allocPageNear_nearest {os : Os} {m : Mem} {nearPtr : Ptr}
    (h : IsPageSize os.pageSize) (hnear : nearPtr ≠ 0) (n : Nat)
    (isAbove : Bool)
    (hreach : os.pageSize.toNat * (n + gapBefore n) ≤ maxSearchDist)
    (hfree : ∀ i < gapBefore n, ∃ target,
      probeTarget (nearPtr &&& ~~~(os.pageSize - 1))
        (BitVec.ofNat 64 (os.pageSize.toNat * (n + i))) isAbove = some target ∧
        grants os m target = true) :
    ∃ page m', allocPageNear os m nearPtr = .ok (page, m') ∧
      FreshPage m os.pageSize.toNat page m' ∧
      distance (nearPtr &&& ~~~(os.pageSize - 1)) page <
        os.pageSize.toNat * (n + gapBefore n) := by
  have hbounds := h.bounds
  have hzero : (0 : Ptr).toNat = os.pageSize.toNat * walked stepFactor 0 := rfl
  obtain ⟨k, hlow, hhigh⟩ := exists_walked_in_gap stepFactor_pos
    (gapBefore_pos n) fun _ => stepFactor_le_gapBefore
  obtain ⟨target, htarget, hgrants⟩ :=
    hfree (walked stepFactor k - n) (by omega)
  rw [Nat.add_sub_cancel' hlow] at htarget
  have hlt : os.pageSize.toNat * walked stepFactor k <
      os.pageSize.toNat * (n + gapBefore n) :=
    Nat.mul_lt_mul_of_pos_left hhigh (by omega)
  have hsteps : k ≤ os.pageSize.toNat * walked stepFactor k :=
    le_trans (le_walked stepFactor_pos k) (Nat.le_mul_of_pos_left _ (by omega))
  have hmem : target ∈ probeSchedule os.pageSize
      (nearPtr &&& ~~~(os.pageSize - 1)) (maxSearchDist + 1) 0 0 :=
    mem_probeSchedule h hzero (Nat.zero_le k) (by omega) (by omega) htarget
  have hsorted : (probeSchedule os.pageSize
      (nearPtr &&& ~~~(os.pageSize - 1)) (maxSearchDist + 1) 0 0).Pairwise
        (distance (nearPtr &&& ~~~(os.pageSize - 1)) · ≤
          distance (nearPtr &&& ~~~(os.pageSize - 1)) ·) :=
    probeSchedule_sorted h hzero
  rw [allocPageNear_eq_find h hnear]
  cases hfound : (probeSchedule os.pageSize (nearPtr &&& ~~~(os.pageSize - 1))
      (maxSearchDist + 1) 0 0).find? (grants os m) with
  | none =>
      have hrefused := List.find?_eq_none.mp hfound target hmem
      exact absurd hgrants hrefused
  | some page =>
      have hpage := List.find?_some hfound
      have hunmapped := (Bool.and_eq_true_iff.mp hpage).2
      refine ⟨page, _, rfl,
        ⟨Memory.unmapped_of_isUnmapped hunmapped, rfl⟩, ?_⟩
      have hle := find?_weight_le hsorted hfound hmem hgrants
      rw [probeTarget_distance htarget, BitVec.toNat_ofNat] at hle
      have hmod := Nat.mod_le (os.pageSize.toNat * walked stepFactor k) (2 ^ 64)
      omega

def sparseOs : Os where
  pageSize := 0x100
  mmap := fun target => target = 0x400900 ∨ target = 0x402000
  mmap_zero := by decide
  freed := fun _ => none
  selfMem := .stores 0x100
  buffer := 0

theorem allocPageNear_nearest_sparse :
    ∃ page m', allocPageNear sparseOs (fun _ => none) 0x401234 =
      .ok (page, m') ∧
      FreshPage (fun _ => none) 0x100 page m' ∧ distance 0x401200 page < 0xA00 :=
  allocPageNear_nearest ⟨8, by decide, by decide, rfl⟩ (by decide) 9 false
    (by decide) (by
      intro i hi
      have hgap : gapBefore 9 = 1 := by decide
      obtain rfl : i = 0 := by omega
      exact ⟨0x400900, by decide, by decide +kernel⟩)

end Ztour
