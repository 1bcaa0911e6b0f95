import Ztour.Foundation.Pages
import Ztour.HookInst.Inner

/-!
# The search for a code page

The search of `alloc_page_near` over any allocator.  Which addresses it asks
for does not depend on the answers: it walks a fixed schedule, and everything
on the schedule is within reach of a relative jump from the target.
-/

namespace Ztour

open Ztour.Foundation

/-! ## The search over any allocator -/

def checkPageSize (pageSize : BitVec 64) : Res Nat :=
  if pageSize &&& (pageSize - 1) ≠ 0 then
    .error (.thrown ("Page size is not a power of 2: " ++
      hexStr pageSize.toNat))
  else if pageSize.toNat < 0x100 then
    .error (.thrown ("Page size is way too small: " ++ hexStr pageSize.toNat))
  else .ok pageSize.toNat

def notAllocated (alignedBase : BitVec 64) : Err :=
  .thrown ("Failed to allocate memory near " ++ toString alignedBase.toNat)

section Search

variable {σ : Type} (tryAlloc : Ptr → σ → Res (Ptr × σ)) (pageSize : BitVec 64)

def probeWith (alignedBase curSearchDist : BitVec 64) (isAbove : Bool) (s : σ) :
    Res (Ptr × σ) :=
  match probeTarget alignedBase curSearchDist isAbove with
  | none => .ok (0, s)
  | some target => tryAlloc target s

/-- `allocSearch`, with `tryAlloc` for `try_alloc_page_at`. -/
def allocSearchWith (alignedBase : BitVec 64) :
    Nat → BitVec 64 → Nat → σ → Res (Ptr × σ)
  | 0, _, _, _ => .error .outOfFuel
  | fuel + 1, curSearchDist, iter, s =>
      if curSearchDist.toNat ≥ maxSearchDist then
        .error (notAllocated alignedBase)
      else do
        let (below, s) ← probeWith tryAlloc alignedBase curSearchDist false s
        if below ≠ 0 then .ok (below, s)
        else do
          let (above, s) ← probeWith tryAlloc alignedBase curSearchDist true s
          if above ≠ 0 then .ok (above, s)
          else do
            let step ← curStepSize pageSize iter
            allocSearchWith alignedBase fuel (curSearchDist + step) (iter + 1) s

def allocPageNearWith (nearPtr : Ptr) (s : σ) : Res (Ptr × σ) := do
  ztAssert (nearPtr ≠ 0) "near_ptr != nullptr"
  let _ ← checkPageSize pageSize
  let alignedBase := nearPtr &&& ~~~(pageSize - 1)
  allocSearchWith tryAlloc pageSize alignedBase (maxSearchDist + 1) 0 0 s

/-- The system grants the page that was asked for, or none; never page 0. -/
def GrantsExactly : Prop :=
  ∀ target s, ∃ page s', tryAlloc target s = .ok (page, s') ∧
    (page = 0 ∨ page = target)

def firstGranted (notFound : Err) : List Ptr → σ → Res (Ptr × σ)
  | [], _ => .error notFound
  | target :: targets, s => do
      let (page, s) ← tryAlloc target s
      if page ≠ 0 then .ok (page, s) else firstGranted notFound targets s

end Search

theorem allocSearch_eq_with {os : Os} {base dist : BitVec 64} {fuel iter : Nat}
    {m : Mem} :
    allocSearch os base fuel dist iter m =
      allocSearchWith (fun target m => tryAllocPageAt os m target) os.pageSize
        base fuel dist iter m := by
  induction fuel generalizing dist iter m with
  | zero => rfl
  | succ fuel ih =>
      unfold allocSearch allocSearchWith
      simp only [ih]
      rfl

theorem allocPageNear_eq_with (os : Os) (m : Mem) (nearPtr : Ptr) :
    allocPageNear os m nearPtr =
      allocPageNearWith (fun target m => tryAllocPageAt os m target) os.pageSize
        nearPtr m := by
  unfold allocPageNear allocPageNearWith
  simp only [allocSearch_eq_with]
  rfl

/-! ## The schedule -/

def IsPageSize (pageSize : BitVec 64) : Prop :=
  ∃ k, 8 ≤ k ∧ k ≤ 30 ∧ pageSize.toNat = 2 ^ k

variable {pageSize : BitVec 64}

theorem checkPageSize_eq_ok {size : Nat} (h : checkPageSize pageSize = .ok size) :
    size = pageSize.toNat ∧ ∃ k, 8 ≤ k ∧ k < 64 ∧ pageSize.toNat = 2 ^ k := by
  unfold checkPageSize at h
  split at h
  · cases h
  · rename_i hmask
    split at h
    · cases h
    · rename_i hlarge
      cases h
      rw [not_not] at hmask
      have hone : (1 : BitVec 64).toNat = 1 := rfl
      have hpred : (pageSize - 1).toNat = pageSize.toNat - 1 := by
        rw [BitVec.toNat_sub_of_le, hone]
        rw [BitVec.le_def, hone]
        omega
      have hand : pageSize.toNat &&& (pageSize.toNat - 1) = 0 := by
        rw [← hpred, ← BitVec.toNat_and, hmask]
        rfl
      obtain ⟨k, hk⟩ :=
        (Nat.and_sub_one_eq_zero_iff_isPowerOfTwo (by omega)).mp hand
      refine ⟨rfl, k, ?_, ?_, hk⟩
      · by_contra hlow
        have hlt := Nat.pow_lt_pow_right (by decide : 1 < 2) (by omega : k < 8)
        omega
      · rw [← Nat.pow_lt_pow_iff_right (by decide : 1 < 2), ← hk]
        exact pageSize.isLt

theorem checkPageSize_total (pageSize : BitVec 64) :
    ReturnsOrThrows (checkPageSize pageSize) := by
  unfold checkPageSize
  split
  · exact .thrown _
  · split
    · exact .thrown _
    · exact .ok _

def stepFactor (iter : Nat) : Nat := min (1 <<< min (iter / 100) 16) 100

def stepSize (pageSize : BitVec 64) (iter : Nat) : BitVec 64 :=
  pageSize * BitVec.ofNat 64 (stepFactor iter)

/-- The addresses to ask for, from a distance on, with `fuel` bounding the
number of distances. -/
def probeSchedule (pageSize alignedBase : BitVec 64) :
    Nat → BitVec 64 → Nat → List Ptr
  | 0, _, _ => []
  | fuel + 1, curSearchDist, iter =>
      if curSearchDist.toNat ≥ maxSearchDist then []
      else
        (probeTarget alignedBase curSearchDist false).toList ++
          ((probeTarget alignedBase curSearchDist true).toList ++
            probeSchedule pageSize alignedBase fuel
              (curSearchDist + stepSize pageSize iter) (iter + 1))

theorem stepFactor_bounds (iter : Nat) :
    1 ≤ stepFactor iter ∧ stepFactor iter ≤ 100 := by
  have hpos : 1 ≤ 1 <<< min (iter / 100) 16 := by
    rw [Nat.one_shiftLeft]
    exact Nat.one_le_two_pow
  unfold stepFactor
  omega

theorem IsPageSize.bounds (h : IsPageSize pageSize) :
    0x100 ≤ pageSize.toNat ∧ pageSize.toNat ≤ 2 ^ 30 := by
  obtain ⟨k, hlow, hhigh, hsize⟩ := h
  rw [hsize]
  exact ⟨Nat.pow_le_pow_right (by decide : 0 < 2) hlow,
    Nat.pow_le_pow_right (by decide : 0 < 2) hhigh⟩

theorem IsPageSize.check (h : IsPageSize pageSize) :
    checkPageSize pageSize = .ok pageSize.toNat := by
  have hbounds := h.bounds
  obtain ⟨k, -, -, hsize⟩ := h
  unfold checkPageSize
  rw [if_neg (not_not.mpr (and_sub_one_self hsize)), if_neg (by omega)]

theorem IsPageSize.stepSize_toNat (h : IsPageSize pageSize) (iter : Nat) :
    (stepSize pageSize iter).toNat = pageSize.toNat * stepFactor iter ∧
      pageSize.toNat * stepFactor iter ≤ 100 * 2 ^ 30 := by
  have hbounds := h.bounds
  have hfactor := stepFactor_bounds iter
  have hle : pageSize.toNat * stepFactor iter ≤ 2 ^ 30 * 100 :=
    Nat.mul_le_mul hbounds.2 hfactor.2
  refine ⟨?_, by omega⟩
  unfold stepSize
  rw [BitVec.toNat_mul, BitVec.toNat_ofNat,
    Nat.mod_eq_of_lt (by omega : stepFactor iter < 2 ^ 64),
    Nat.mod_eq_of_lt (by omega)]

theorem IsPageSize.curStepSize (h : IsPageSize pageSize) (iter : Nat) :
    Ztour.curStepSize pageSize iter = .ok (stepSize pageSize iter) := by
  obtain ⟨hstep, -⟩ := h.stepSize_toNat iter
  have hfactor := stepFactor_bounds iter
  have hmod : stepSize pageSize iter % pageSize = 0 := by
    apply BitVec.eq_of_toNat_eq
    rw [BitVec.toNat_umod, hstep, Nat.mul_mod_right]
    rfl
  have hge : stepSize pageSize iter ≥ pageSize := by
    rw [ge_iff_le, BitVec.le_def, hstep]
    exact Nat.le_mul_of_pos_right _ hfactor.1
  unfold Ztour.curStepSize
  change (do
    ztAssert (stepSize pageSize iter % pageSize = 0 ∧
      stepSize pageSize iter ≥ pageSize) _
    .ok (stepSize pageSize iter)) = _
  rw [decide_eq_true ⟨hmod, hge⟩]
  rfl

/-- An address to ask for: on a page boundary, and so near that no arithmetic
on the way to it wraps. -/
structure Reachable (pageSize alignedBase target : BitVec 64) : Prop where
  aligned : pageSize.toNat ∣ target.toNat
  near_above : target.toNat < alignedBase.toNat + maxSearchDist
  near_below : alignedBase.toNat < target.toNat + maxSearchDist

theorem probeTarget_reachable {alignedBase dist target : BitVec 64}
    {isAbove : Bool} (hbase : pageSize.toNat ∣ alignedBase.toNat)
    (hdist : pageSize.toNat ∣ dist.toNat) (hnear : dist.toNat < maxSearchDist)
    (h : probeTarget alignedBase dist isAbove = some target) :
    Reachable pageSize alignedBase target := by
  have hbaseLt := alignedBase.isLt
  have hdistLt := dist.isLt
  unfold probeTarget at h
  cases isAbove with
  | true =>
      dsimp only at h
      split_ifs at h with hwraps
      cases h
      rw [BitVec.lt_def, BitVec.toNat_add] at hwraps
      have htarget : (alignedBase + dist).toNat =
          alignedBase.toNat + dist.toNat := by
        rw [BitVec.toNat_add]
        omega
      refine ⟨?_, by omega, by omega⟩
      rw [htarget]
      exact Nat.dvd_add hbase hdist
  | false =>
      dsimp only at h
      split_ifs at h with hwraps
      cases h
      rw [gt_iff_lt, BitVec.lt_def, BitVec.toNat_sub] at hwraps
      have htarget : (alignedBase - dist).toNat =
          alignedBase.toNat - dist.toNat := by
        rw [BitVec.toNat_sub]
        omega
      refine ⟨?_, by omega, by omega⟩
      rw [htarget]
      exact Nat.dvd_sub hbase hdist

theorem IsPageSize.dist_step (h : IsPageSize pageSize) {dist : BitVec 64}
    (hdist : pageSize.toNat ∣ dist.toNat) (hnear : dist.toNat < maxSearchDist)
    (iter : Nat) :
    pageSize.toNat ∣ (dist + stepSize pageSize iter).toNat ∧
      dist.toNat < (dist + stepSize pageSize iter).toNat := by
  obtain ⟨hstep, hle⟩ := h.stepSize_toNat iter
  have hbounds := h.bounds
  have hfactor := stepFactor_bounds iter
  have hpos : 0 < pageSize.toNat * stepFactor iter :=
    Nat.mul_pos (by omega) hfactor.1
  have hnext : (dist + stepSize pageSize iter).toNat =
      dist.toNat + pageSize.toNat * stepFactor iter := by
    unfold maxSearchDist at hnear
    rw [BitVec.toNat_add, hstep, Nat.mod_eq_of_lt (by omega)]
  rw [hnext]
  exact ⟨Nat.dvd_add hdist (Nat.dvd_mul_right _ _), by omega⟩

theorem probeSchedule_reachable (h : IsPageSize pageSize)
    {alignedBase dist : BitVec 64} {fuel iter : Nat}
    (hbase : pageSize.toNat ∣ alignedBase.toNat)
    (hdist : pageSize.toNat ∣ dist.toNat) :
    ∀ target ∈ probeSchedule pageSize alignedBase fuel dist iter,
      Reachable pageSize alignedBase target := by
  induction fuel generalizing dist iter with
  | zero => simp [probeSchedule]
  | succ fuel ih =>
      intro target htarget
      unfold probeSchedule at htarget
      split_ifs at htarget with hfar
      · cases htarget
      · have hnear : dist.toNat < maxSearchDist := Nat.lt_of_not_le hfar
        simp only [List.mem_append, Option.mem_toList] at htarget
        rcases htarget with hbelow | habove | hlater
        · exact probeTarget_reachable hbase hdist hnear hbelow
        · exact probeTarget_reachable hbase hdist hnear habove
        · exact ih (h.dist_step hdist hnear iter).1 target hlater

/-! ## The search walks the schedule -/

section Walk

variable {σ : Type} {tryAlloc : Ptr → σ → Res (Ptr × σ)}

theorem firstGranted_append_toList {notFound : Err} {probed : Option Ptr}
    {targets : List Ptr} {s : σ} :
    firstGranted tryAlloc notFound (probed.toList ++ targets) s =
      (match probed with
        | none => .ok (0, s)
        | some target => tryAlloc target s) >>= fun (page, s) =>
        if page ≠ 0 then .ok (page, s)
        else firstGranted tryAlloc notFound targets s := by
  cases probed with
  | none => rfl
  | some target => rfl

/-- The loop ends within its bound, since every step is at least one page. -/
theorem allocSearchWith_eq (h : IsPageSize pageSize)
    {alignedBase dist : BitVec 64} {fuel iter : Nat} {s : σ}
    (hdist : pageSize.toNat ∣ dist.toNat)
    (hfuel : maxSearchDist < dist.toNat + fuel) (hpos : 0 < fuel) :
    allocSearchWith tryAlloc pageSize alignedBase fuel dist iter s =
      firstGranted tryAlloc (notAllocated alignedBase)
        (probeSchedule pageSize alignedBase fuel dist iter) s := by
  induction fuel generalizing dist iter s with
  | zero => omega
  | succ fuel ih =>
      unfold allocSearchWith probeSchedule
      by_cases hfar : dist.toNat ≥ maxSearchDist
      · rw [if_pos hfar, if_pos hfar]
        rfl
      · obtain ⟨hdist', hlt⟩ := h.dist_step hdist (Nat.lt_of_not_le hfar) iter
        rw [if_neg hfar, if_neg hfar, firstGranted_append_toList]
        simp only [firstGranted_append_toList, h.curStepSize, ok_bind]
        have hrest : ∀ s, allocSearchWith tryAlloc pageSize alignedBase fuel
            (dist + stepSize pageSize iter) (iter + 1) s =
          firstGranted tryAlloc (notAllocated alignedBase)
            (probeSchedule pageSize alignedBase fuel
              (dist + stepSize pageSize iter) (iter + 1)) s :=
          fun s => ih hdist' (by omega) (by omega)
        simp only [hrest]
        rfl

theorem firstGranted_cases (halloc : GrantsExactly tryAlloc) (notFound : Err)
    (targets : List Ptr) (s : σ) :
    firstGranted tryAlloc notFound targets s = .error notFound ∨
      ∃ page s', firstGranted tryAlloc notFound targets s = .ok (page, s') ∧
        page ∈ targets := by
  induction targets generalizing s with
  | nil => exact .inl rfl
  | cons target targets ih =>
      obtain ⟨page, s', htry, hpage⟩ := halloc target s
      unfold firstGranted
      rw [htry, ok_bind]
      dsimp only
      by_cases hzero : page = 0
      · rw [if_neg (not_not.mpr hzero)]
        rcases ih s' with herror | ⟨later, s'', hok, hmem⟩
        · exact .inl herror
        · exact .inr ⟨later, s'', hok, List.mem_cons_of_mem _ hmem⟩
      · rw [if_pos hzero, hpage.resolve_left hzero]
        exact .inr ⟨target, s', rfl, List.mem_cons_self⟩

end Walk

/-! ## Over an allocator with a state of its own -/

section Allocator

variable {σ τ : Type} {tryAlloc : Ptr → σ → Res (Ptr × σ)}

theorem probeWith_total (halloc : ∀ target s, ReturnsOrThrows (tryAlloc target s))
    (base dist : BitVec 64) (isAbove : Bool) (s : σ) :
    ReturnsOrThrows (probeWith tryAlloc base dist isAbove s) := by
  unfold probeWith
  split
  · exact .ok _
  · exact halloc _ _

theorem curStepSize_eq_ok {iter : Nat} {step : BitVec 64}
    (h : curStepSize pageSize iter = .ok step) :
    step = stepSize pageSize iter ∧ pageSize.toNat ∣ step.toNat ∧
      pageSize.toNat ≤ step.toNat := by
  obtain ⟨u, hassert, h⟩ := bind_eq_ok.mp h
  cases h
  unfold ztAssert at hassert
  split at hassert
  · rename_i hcond
    rw [decide_eq_true_eq] at hcond
    refine ⟨rfl, Nat.dvd_of_mod_eq_zero ?_, BitVec.le_def.mp hcond.2⟩
    rw [← BitVec.toNat_umod, hcond.1]
    rfl
  · cases hassert

theorem dist_add_step {k iter : Nat} {dist step : BitVec 64}
    (hlow : 8 ≤ k) (hsize : pageSize.toNat = 2 ^ k)
    (hnear : dist.toNat < maxSearchDist)
    (h : curStepSize pageSize iter = .ok step) :
    dist.toNat < (dist + step).toNat := by
  obtain ⟨rfl, hdvd, hle⟩ := curStepSize_eq_ok h
  have hpage : 0 < pageSize.toNat := by
    rw [hsize]
    positivity
  suffices hroom : dist.toNat + (stepSize pageSize iter).toNat < 2 ^ 64 by
    rw [BitVec.toNat_add, Nat.mod_eq_of_lt hroom]
    omega
  unfold maxSearchDist at hnear
  rcases Nat.lt_or_ge 30 k with hbig | hsmall
  · have hend := add_size_le_of_dvd hsize hdvd
    have hpow := Nat.pow_le_pow_right (by decide : 0 < 2) hbig
    omega
  · have hbound :=
      (show IsPageSize pageSize from ⟨k, hlow, hsmall, hsize⟩).stepSize_toNat iter
    omega

theorem allocSearchWith_total
    (halloc : ∀ target s, ReturnsOrThrows (tryAlloc target s)) {k : Nat}
    (hlow : 8 ≤ k) (hsize : pageSize.toNat = 2 ^ k)
    {base dist : BitVec 64} {fuel iter : Nat} {s : σ} (hpos : 0 < fuel)
    (hfuel : maxSearchDist < dist.toNat + fuel) :
    ReturnsOrThrows (allocSearchWith tryAlloc pageSize base fuel dist iter s) := by
  induction fuel generalizing dist iter s with
  | zero => omega
  | succ fuel ih =>
      unfold allocSearchWith
      split
      · exact .thrown _
      · rename_i hnear
        have hlt : dist.toNat < maxSearchDist := Nat.lt_of_not_le hnear
        refine (probeWith_total halloc _ _ _ _).bind fun below => ?_
        dsimp only
        split
        · exact .ok _
        · refine (probeWith_total halloc _ _ _ _).bind fun above => ?_
          split
          · exact .ok _
          · have hstep : ReturnsOrThrows (curStepSize pageSize iter) :=
              (ztAssert_returnsOrThrows _ _).bind fun _ => .ok _
            rcases hstep with ⟨step, hok⟩ | ⟨what, hthrown⟩
            · have hnext := dist_add_step hlow hsize hlt hok
              rw [hok, ok_bind]
              exact ih (by omega) (by omega)
            · rw [hthrown, error_bind]
              exact .thrown _

theorem allocPageNearWith_total
    (halloc : ∀ target s, ReturnsOrThrows (tryAlloc target s)) (nearPtr : Ptr)
    (s : σ) : ReturnsOrThrows (allocPageNearWith tryAlloc pageSize nearPtr s) := by
  unfold allocPageNearWith
  refine (ztAssert_returnsOrThrows _ _).bind fun _ => ?_
  rcases checkPageSize_total pageSize with ⟨size, hok⟩ | ⟨what, hthrown⟩
  · obtain ⟨-, k, hlow, -, hsize⟩ := checkPageSize_eq_ok hok
    have hfuel : maxSearchDist < (0 : BitVec 64).toNat + (maxSearchDist + 1) := by
      have hzero : (0 : BitVec 64).toNat = 0 := rfl
      omega
    rw [hok, ok_bind]
    exact allocSearchWith_total halloc hlow hsize (Nat.succ_pos _) hfuel
  · rw [hthrown, error_bind]
    exact .thrown _

theorem probeWith_granted {P : σ → Prop} {Q : Ptr → σ → Prop}
    (halloc : ∀ target s page s', P s → tryAlloc target s = .ok (page, s') →
      (page = 0 → P s') ∧ (page ≠ 0 → Q page s'))
    {base dist : BitVec 64} {isAbove : Bool} {s s' : σ} {page : Ptr} (hs : P s)
    (h : probeWith tryAlloc base dist isAbove s = .ok (page, s')) :
    (page = 0 → P s') ∧ (page ≠ 0 → Q page s') := by
  unfold probeWith at h
  split at h
  · cases h
    exact ⟨fun _ => hs, fun hne => absurd rfl hne⟩
  · exact halloc _ _ _ _ hs h

/-- What holds of every request that is granted after refused ones holds of the
search. -/
theorem allocSearchWith_granted {P : σ → Prop} {Q : Ptr → σ → Prop}
    (halloc : ∀ target s page s', P s → tryAlloc target s = .ok (page, s') →
      (page = 0 → P s') ∧ (page ≠ 0 → Q page s'))
    {base dist : BitVec 64} {fuel iter : Nat} {s s' : σ} {page : Ptr}
    (hs : P s)
    (h : allocSearchWith tryAlloc pageSize base fuel dist iter s =
      .ok (page, s')) : Q page s' := by
  induction fuel generalizing dist iter s with
  | zero => cases h
  | succ fuel ih =>
      unfold allocSearchWith at h
      split at h
      · cases h
      · obtain ⟨⟨below, s₁⟩, hbelow, h⟩ := bind_eq_ok.mp h
        have hfirst := probeWith_granted halloc hs hbelow
        dsimp only at h
        split at h
        · rename_i hne
          cases h
          exact hfirst.2 hne
        · rename_i hzero
          have hs₁ := hfirst.1 (not_not.mp hzero)
          obtain ⟨⟨above, s₂⟩, habove, h⟩ := bind_eq_ok.mp h
          have hsecond := probeWith_granted halloc hs₁ habove
          dsimp only at h
          split at h
          · rename_i hne
            cases h
            exact hsecond.2 hne
          · rename_i hzero'
            obtain ⟨step, -, h⟩ := bind_eq_ok.mp h
            exact ih (hsecond.1 (not_not.mp hzero')) h

theorem probeWith_map {tryAlloc' : Ptr → τ → Res (Ptr × τ)} {f : σ → τ}
    (halloc : ∀ target s,
      tryAlloc' target (f s) = (tryAlloc target s).map (Prod.map id f))
    (base dist : BitVec 64) (isAbove : Bool) (s : σ) :
    probeWith tryAlloc' base dist isAbove (f s) =
      (probeWith tryAlloc base dist isAbove s).map (Prod.map id f) := by
  unfold probeWith
  split
  · rfl
  · exact halloc _ _

theorem allocSearchWith_map {tryAlloc' : Ptr → τ → Res (Ptr × τ)} {f : σ → τ}
    (halloc : ∀ target s,
      tryAlloc' target (f s) = (tryAlloc target s).map (Prod.map id f))
    {base dist : BitVec 64} {fuel iter : Nat} {s : σ} :
    allocSearchWith tryAlloc' pageSize base fuel dist iter (f s) =
      (allocSearchWith tryAlloc pageSize base fuel dist iter s).map
        (Prod.map id f) := by
  induction fuel generalizing dist iter s with
  | zero => rfl
  | succ fuel ih =>
      unfold allocSearchWith
      split
      · rfl
      · rw [probeWith_map halloc]
        cases probeWith tryAlloc base dist false s with
        | error e => rfl
        | ok below =>
            obtain ⟨page, s₁⟩ := below
            simp only [Except.map, Prod.map, id, ok_bind]
            split
            · rfl
            · rw [probeWith_map halloc]
              cases probeWith tryAlloc base dist true s₁ with
              | error e => rfl
              | ok above =>
                  obtain ⟨page', s₂⟩ := above
                  simp only [Except.map, Prod.map, id, ok_bind]
                  split
                  · rfl
                  · cases curStepSize pageSize iter with
                    | error e => rfl
                    | ok step => exact ih

theorem allocPageNearWith_map {tryAlloc' : Ptr → τ → Res (Ptr × τ)} {f : σ → τ}
    (halloc : ∀ target s,
      tryAlloc' target (f s) = (tryAlloc target s).map (Prod.map id f))
    (nearPtr : Ptr) (s : σ) :
    allocPageNearWith tryAlloc' pageSize nearPtr (f s) =
      (allocPageNearWith tryAlloc pageSize nearPtr s).map (Prod.map id f) := by
  unfold allocPageNearWith
  cases ztAssert (nearPtr ≠ 0) "near_ptr != nullptr" with
  | error e => rfl
  | ok u =>
      cases checkPageSize pageSize with
      | error e => rfl
      | ok size => exact allocSearchWith_map halloc

end Allocator

/-! ## In range of a jump -/

theorem fitsSigned_of_near {source dest : Ptr}
    (hlow : source.toNat + 5 ≤ dest.toNat + 2 ^ 31)
    (hhigh : dest.toNat < source.toNat + 5 + 2 ^ 31) :
    FitsSigned 32 (dest - (source + 5)) := by
  have hsource := source.isLt
  have hdest := dest.isLt
  unfold FitsSigned
  rw [BitVec.toInt_eq_toNat_cond, BitVec.toNat_sub, BitVec.toNat_add]
  have hfive : (5 : Ptr).toNat = 5 := rfl
  rw [hfive]
  split_ifs <;> omega

theorem Reachable.fitsSigned {nearPtr page e : Ptr} (h : IsPageSize pageSize)
    (hreach : Reachable pageSize (nearPtr &&& ~~~(pageSize - 1)) page)
    (he : e ∈ span page pageSize.toNat) :
    FitsSigned 32 (e - (nearPtr + 5)) := by
  have hbounds := h.bounds
  obtain ⟨k, -, -, hsize⟩ := h
  have hbase := and_not_sub_one_toNat (x := nearPtr) hsize
  have hlow := Nat.mod_lt nearPtr.toNat (by omega : 0 < 2 ^ k)
  have hle := Nat.mod_le nearPtr.toNat (2 ^ k)
  have hend := add_size_le_of_dvd hsize hreach.aligned
  have habove := hreach.near_above
  have hbelow := hreach.near_below
  have hoffset : (e - page).toNat < pageSize.toNat := mem_span.mp he
  have hplace : e.toNat = page.toNat + (e - page).toNat := by
    have hsum : (page + (e - page)).toNat = e.toNat := by
      rw [BitVec.add_comm, BitVec.sub_add_cancel]
    rw [← hsum, BitVec.toNat_add, Nat.mod_eq_of_lt (by omega)]
  unfold maxSearchDist at habove hbelow
  exact fitsSigned_of_near (by omega) (by omega)

/-- What the search is for: it ends with a page or with the one exception, it
asks for nothing outside the schedule, and the target can jump to every byte of
the page. -/
structure FindsPageNear {σ : Type} (tryAlloc : Ptr → σ → Res (Ptr × σ))
    (pageSize : BitVec 64) (nearPtr : Ptr) : Prop where
  ends : ∀ s,
    (∃ page s', allocPageNearWith tryAlloc pageSize nearPtr s = .ok (page, s')) ∨
      allocPageNearWith tryAlloc pageSize nearPtr s =
        .error (notAllocated (nearPtr &&& ~~~(pageSize - 1)))
  probes : ∃ targets,
    (∀ s, allocPageNearWith tryAlloc pageSize nearPtr s =
      firstGranted tryAlloc (notAllocated (nearPtr &&& ~~~(pageSize - 1)))
        targets s) ∧
      ∀ target ∈ targets,
        Reachable pageSize (nearPtr &&& ~~~(pageSize - 1)) target
  in_range : ∀ s page s',
    allocPageNearWith tryAlloc pageSize nearPtr s = .ok (page, s') →
      ∀ e ∈ span page pageSize.toNat, ∀ encoder : Encoder,
        ∃ encoder', encoder.encodeRelJmp nearPtr e = .ok encoder'

theorem findsPageNear {σ : Type} {tryAlloc : Ptr → σ → Res (Ptr × σ)}
    (h : IsPageSize pageSize) {nearPtr : Ptr} (hnear : nearPtr ≠ 0)
    (halloc : GrantsExactly tryAlloc) :
    FindsPageNear tryAlloc pageSize nearPtr := by
  have hbase : pageSize.toNat ∣ (nearPtr &&& ~~~(pageSize - 1)).toNat := by
    obtain ⟨k, -, -, hsize⟩ := h
    exact dvd_and_not_sub_one hsize
  have hwalk : ∀ s, allocPageNearWith tryAlloc pageSize nearPtr s =
      firstGranted tryAlloc (notAllocated (nearPtr &&& ~~~(pageSize - 1)))
        (probeSchedule pageSize (nearPtr &&& ~~~(pageSize - 1))
          (maxSearchDist + 1) 0 0) s := by
    intro s
    have hfuel : maxSearchDist < (0 : BitVec 64).toNat + (maxSearchDist + 1) := by
      have hzero : (0 : BitVec 64).toNat = 0 := rfl
      rw [hzero, Nat.zero_add]
      exact Nat.lt_succ_self _
    unfold allocPageNearWith
    rw [decide_eq_true hnear, ztAssert_true, ok_bind, h.check, ok_bind]
    exact allocSearchWith_eq h (dvd_zero _) hfuel (Nat.succ_pos _)
  have hreach : ∀ target ∈ probeSchedule pageSize
      (nearPtr &&& ~~~(pageSize - 1)) (maxSearchDist + 1) 0 0,
      Reachable pageSize (nearPtr &&& ~~~(pageSize - 1)) target :=
    probeSchedule_reachable h hbase (dvd_zero _)
  constructor
  · intro s
    rw [hwalk]
    rcases firstGranted_cases halloc _ _ s with herror | ⟨page, s', hok, -⟩
    · exact .inr herror
    · exact .inl ⟨page, s', hok⟩
  · exact ⟨_, hwalk, hreach⟩
  · intro s page s' hpage e he encoder
    rw [hwalk] at hpage
    rcases firstGranted_cases halloc _ _ s with herror | ⟨page', s'', hok, hmem⟩
    · rw [herror] at hpage
      cases hpage
    · rw [hok] at hpage
      cases hpage
      exact ⟨_, Encoder.encodeRelJmp_eq_ok.mpr
        ⟨(hreach page hmem).fitsSigned h he, rfl⟩⟩

/-! ## The code page of a hook -/

namespace Inner

theorem writeCode_enterDetour {m m' : Mem} {page page' : MemPage}
    {reloc : List Byte} {rest detour callOriginal enterDetour : Ptr}
    (hsize : page.size ≤ 2 ^ 64)
    (h : writeCode m page reloc rest detour =
      .ok (callOriginal, enterDetour, page', m')) :
    enterDetour ∈ page.range := by
  obtain ⟨⟨head, page₁, m₁⟩, hhead, h⟩ := bind_eq_ok.mp h
  obtain ⟨⟨back, page₂, m₂⟩, hback, h⟩ := bind_eq_ok.mp h
  obtain ⟨⟨enter, page₃, m₃⟩, henter, h⟩ := bind_eq_ok.mp h
  cases h
  obtain ⟨-, -, hmemory₁, hsize₁⟩ := MemPage.writeBytes_eq_ok hhead
  obtain ⟨-, -, hmemory₂, hsize₂⟩ := MemPage.writeBytes_eq_ok hback
  obtain ⟨hfits, rfl, -, -⟩ := MemPage.writeBytes_eq_ok henter
  rw [Encoder.encodePureJmp_bytes, List.length_append, length_absJumpBytes] at hfits
  unfold MemPage.nextWritePtr MemPage.range
  rw [hmemory₂, hmemory₁]
  exact offset_mem_span (by omega) hsize

theorem fill_enterDetour {z : Zydis} {os : Os} {m m' : Mem} {page : MemPage}
    {name : String} {target detour out : Ptr} {inner : Inner}
    (hsize : page.size ≤ 2 ^ 64)
    (h : fill z os m page name target detour out = .ok (inner, m')) :
    inner.targetFunc = target ∧ inner.codeEnterDetour ∈ page.range := by
  obtain ⟨n, reloc, page', hsteps⟩ := fill_steps h
  exact ⟨hsteps.target, writeCode_enterDetour hsize hsteps.writes⟩

end Inner

theorem tryAllocPageAt_grantsExactly {os : Os} (h : IsPageSize os.pageSize) :
    GrantsExactly fun target m => tryAllocPageAt os m target := by
  intro target m
  have hcheck : pageSize os = .ok os.pageSize.toNat := h.check
  dsimp only
  unfold tryAllocPageAt
  rw [hcheck, ok_bind]
  split
  · exact ⟨target, _, rfl, .inr rfl⟩
  · exact ⟨0, _, rfl, .inl rfl⟩

theorem encodeRelJmp_of_new {z : Zydis} {os : Os} (h : IsPageSize os.pageSize)
    {p p' : Process} {name : String} {target detour out : Ptr} {inner : Inner}
    (hnew : Inner.new z os p name target detour out = (.ok inner, p'))
    (htarget : inner.targetFunc ≠ 0) :
    ∃ encoder, ({} : Encoder).encodeRelJmp inner.targetFunc
      inner.codeEnterDetour = .ok encoder := by
  unfold Inner.new at hnew
  split at hnew
  · cases hnew
  · rename_i t d hresolve
    split_ifs at hnew with hnull
    · cases hnew
      exact absurd rfl htarget
    · split at hnew
      · cases hnew
      · rename_i page m hpage
        split at hnew
        · cases hnew
        · rename_i filled m' hfill
          cases hnew
          obtain ⟨-, hmax, -, -⟩ := MemPage.new_eq_ok hpage
          obtain ⟨rfl, henter⟩ := Inner.fill_enterDetour hmax hfill
          obtain ⟨size, hsize, hrest⟩ := bind_eq_ok.mp hpage
          obtain ⟨⟨memory, m₁⟩, halloc, hok⟩ := bind_eq_ok.mp hrest
          cases hok
          obtain ⟨rfl, -⟩ := pageSize_eq_ok hsize
          rw [allocPageNear_eq_with] at halloc
          have hfinds := findsPageNear h hnull (tryAllocPageAt_grantsExactly h)
          exact hfinds.in_range _ memory _ halloc _ henter {}

/-- The search keeps its promises for every allocator, and the constructor's
page is always in range of `install`. -/
theorem allocPageNear_in_range {σ : Type}
    {tryAlloc : Ptr → σ → Res (Ptr × σ)} (h : IsPageSize pageSize)
    {nearPtr : Ptr} (hnear : nearPtr ≠ 0) (halloc : GrantsExactly tryAlloc) :
    FindsPageNear tryAlloc pageSize nearPtr ∧
      ∀ (z : Zydis) (os : Os) (p p' : Process) (name : String)
        (target detour out : Ptr) (inner : Inner), os.pageSize = pageSize →
        Inner.new z os p name target detour out = (.ok inner, p') →
        inner.targetFunc ≠ 0 →
        ∃ encoder, ({} : Encoder).encodeRelJmp inner.targetFunc
          inner.codeEnterDetour = .ok encoder := by
  refine ⟨findsPageNear h hnear halloc, ?_⟩
  rintro z os p p' name target detour out inner rfl hnew htarget
  exact encodeRelJmp_of_new h hnew htarget

theorem isPageSize_4096 : IsPageSize 4096 := ⟨12, by decide, by decide, by decide⟩

def alternatingAlloc (target : Ptr) (granted : Bool) : Res (Ptr × Bool) :=
  .ok (if granted then target else 0, !granted)

theorem alternatingAlloc_grantsExactly : GrantsExactly alternatingAlloc := by
  intro target granted
  refine ⟨_, _, rfl, ?_⟩
  cases granted with
  | true => exact .inr rfl
  | false => exact .inl rfl

theorem allocPageNear_in_range_4096 :
    FindsPageNear alternatingAlloc 4096 0x401234 :=
  (allocPageNear_in_range isPageSize_4096 (by decide)
    alternatingAlloc_grantsExactly).1

end Ztour
