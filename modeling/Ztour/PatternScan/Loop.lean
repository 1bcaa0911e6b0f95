import Ztour.PatternScan.Comparison

/-!
# The scanning loop

Positions are offsets from the region's base at which the first concrete entry
is placed.  Up to `lastFit` the whole pattern stays in the region; `memchr`
searches past it, and an occurrence of the byte there is a late hit.  The loop
answers the matches from its cursor on, and after a late hit what the
comparison at that place says.
-/

namespace Ztour

open Ztour.Foundation

def MemoryRegion.address (region : MemoryRegion) (offset : Nat) : Ptr :=
  region.base + BitVec.ofNat 64 offset

section Positions

variable (m : Mem) (region : MemoryRegion) (pattern : SignedBytePattern)

def lastFit : Nat :=
  region.size.toNat - (pattern.length - leadingWildcards pattern)

def HasFirstByte (offset : Nat) : Prop :=
  m (region.address offset) = some (firstValidByte pattern)

def comparedAt (offset : Nat) : Res Bool :=
  restMatches m (region.address offset)
    (pattern.drop (leadingWildcards pattern + 1)) 1

def IsHit (offset : Nat) : Prop :=
  HasFirstByte m region pattern offset ∧
    comparedAt m region pattern offset = .ok true

instance (offset : Nat) : Decidable (HasFirstByte m region pattern offset) :=
  inferInstanceAs (Decidable (_ = _))

instance : DecidablePred (IsHit m region pattern) := fun offset =>
  match hcompared : comparedAt m region pattern offset with
  | .ok true => decidable_of_iff (HasFirstByte m region pattern offset)
      (by simp [IsHit, hcompared])
  | .ok false => .isFalse (by simp [IsHit, hcompared])
  | .error _ => .isFalse (by simp [IsHit, hcompared])

def resultAt (offset : Nat) : Ptr :=
  region.address offset - BitVec.ofNat 64 (leadingWildcards pattern)

def resultsFrom (offset : Nat) : List Ptr :=
  ((List.range' offset (lastFit region pattern + 1 - offset)).filter
    (IsHit m region pattern ·)).map (resultAt region pattern)

/-- The scan comes to an occurrence of the first byte at which the pattern
does not fit any more. -/
structure IsLateHit (offset : Nat) : Prop where
  fits : pattern.length ≤ region.size.toNat
  late : lastFit region pattern < offset
  inside : offset < region.size.toNat
  found : HasFirstByte m region pattern offset
  earlier : ∀ o, lastFit region pattern ≤ o → o < offset →
    ¬ HasFirstByte m region pattern o

def finish (late : Option Nat) (results : List Ptr) : Res (List Ptr) :=
  match late with
  | none => .ok results
  | some offset => do
      let isMatch ← comparedAt m region pattern offset
      .ok (if isMatch then results ++ [resultAt region pattern offset]
        else results)

end Positions

variable {m : Mem} {region : MemoryRegion} {pattern : SignedBytePattern}

theorem IsLateHit.unique {o p : Nat} (ho : IsLateHit m region pattern o)
    (hp : IsLateHit m region pattern p) : o = p := by
  rcases Nat.lt_trichotomy o p with hlt | heq | hgt
  · exact absurd ho.found (hp.earlier o (le_of_lt ho.late) hlt)
  · exact heq
  · exact absurd hp.found (ho.earlier p (le_of_lt hp.late) hgt)

theorem exists_late (m : Mem) (region : MemoryRegion)
    (pattern : SignedBytePattern) :
    ∃ late : Option Nat, ∀ o, late = some o ↔ IsLateHit m region pattern o := by
  by_cases h : ∃ o, IsLateHit m region pattern o
  · obtain ⟨o, ho⟩ := h
    refine ⟨some o, fun p => ?_⟩
    constructor
    · intro heq
      cases heq
      exact ho
    · intro hp
      rw [ho.unique hp]
  · refine ⟨none, fun o => ?_⟩
    simp only [reduceCtorEq, false_iff]
    exact fun ho => h ⟨o, ho⟩

theorem address_add (region : MemoryRegion) (offset count : Nat) :
    region.address offset + BitVec.ofNat 64 count =
      region.address (offset + count) := by
  unfold MemoryRegion.address
  rw [BitVec.add_assoc, ← BitVec.ofNat_add]

theorem address_mem (region : MemoryRegion) {offset : Nat}
    (h : offset < region.size.toNat) :
    region.address offset ∈ span region.base region.size.toNat :=
  offset_mem_span h (le_of_lt region.size.isLt)

/-! ## One iteration -/

theorem resultsFrom_of_none {c : Nat}
    (h : ∀ o, c ≤ o → o ≤ lastFit region pattern →
      ¬ HasFirstByte m region pattern o) :
    resultsFrom m region pattern c = [] := by
  unfold resultsFrom
  rw [List.map_eq_nil_iff, List.filter_eq_nil_iff]
  intro o ho
  rw [List.mem_range'_1] at ho
  rw [decide_eq_true_eq]
  exact fun hhit => h o ho.1 (by omega) hhit.1

theorem resultsFrom_eq_cons {c q : Nat} (hc : c ≤ q)
    (hq : q ≤ lastFit region pattern)
    (hbefore : ∀ o, c ≤ o → o < q → ¬ HasFirstByte m region pattern o) :
    resultsFrom m region pattern c =
      (if IsHit m region pattern q then [resultAt region pattern q] else []) ++
        resultsFrom m region pattern (q + 1) := by
  have hsplit : List.range' c (lastFit region pattern + 1 - c) =
      List.range' c (q - c) ++ q ::
        List.range' (q + 1) (lastFit region pattern + 1 - (q + 1)) := by
    rw [← List.range'_succ,
      show lastFit region pattern + 1 - c =
        (q - c) + (lastFit region pattern + 1 - (q + 1) + 1) by omega,
      ← List.range'_append_1, show c + (q - c) = q by omega]
  have hnone : (List.range' c (q - c)).filter (IsHit m region pattern ·) = [] := by
    rw [List.filter_eq_nil_iff]
    intro o ho
    rw [List.mem_range'_1] at ho
    rw [decide_eq_true_eq]
    exact fun hhit => hbefore o ho.1 (by omega) hhit.1
  unfold resultsFrom
  rw [hsplit, List.filter_append, hnone, List.nil_append, List.filter_cons]
  by_cases hhit : IsHit m region pattern q <;> simp [hhit]

theorem comparedAt_isOk (hmapped : region.Mapped m) {q : Nat}
    (hlen : pattern.length ≤ region.size.toNat)
    (hq : q ≤ lastFit region pattern) :
    ∃ isMatch, comparedAt m region pattern q = .ok isMatch := by
  unfold comparedAt
  rw [restMatches_isOk_iff]
  intro i hi hunmapped
  unfold lastFit at hq
  rw [List.length_drop] at hi
  refine absurd hunmapped.2 ?_
  rw [address_add]
  exact hmapped _ (address_mem region (by omega))

theorem memchr_region (pattern : SignedBytePattern)
    (hmapped : region.Mapped m) {c r : Nat}
    (hr : c + r = region.size.toNat) :
    (∃ q, c ≤ q ∧ q < region.size.toNat ∧
      memchr m (region.address c) (firstValidByte pattern) r =
        .ok (some (region.address q)) ∧
      HasFirstByte m region pattern q ∧
      ∀ o, c ≤ o → o < q → ¬ HasFirstByte m region pattern o) ∨
    (memchr m (region.address c) (firstValidByte pattern) r = .ok none ∧
      ∀ o, c ≤ o → o < region.size.toNat →
        ¬ HasFirstByte m region pattern o) := by
  have hmem : ∀ i < r, m (region.address c + BitVec.ofNat 64 i) ≠ none := by
    intro i hi
    rw [address_add]
    exact hmapped _ (address_mem region (by omega))
  have hat : ∀ o, c ≤ o → region.address o =
      region.address c + BitVec.ofNat 64 (o - c) := by
    intro o ho
    rw [address_add, Nat.add_sub_cancel' ho]
  rcases memchr_cases (firstValidByte pattern) hmem with
    ⟨i, hi, hfound, hbyte, hbefore⟩ | ⟨hfound, hnobyte⟩
  · rw [address_add] at hbyte hfound
    refine .inl ⟨c + i, by omega, by omega, hfound, hbyte, ?_⟩
    intro o hco hoi hfirst
    unfold HasFirstByte at hfirst
    rw [hat o hco] at hfirst
    exact hbefore (o - c) (by omega) hfirst
  · refine .inr ⟨hfound, ?_⟩
    intro o hco hon hfirst
    unfold HasFirstByte at hfirst
    rw [hat o hco] at hfirst
    exact hnobyte (o - c) (by omega) hfirst

theorem scanLoop_stops {fuel r : Nat} {p : Ptr} {results : List Ptr}
    (h : r < pattern.length - leadingWildcards pattern) :
    scanLoop m pattern (leadingWildcards pattern) (firstValidByte pattern)
      (fuel + 1) p r results = .ok results := by
  unfold scanLoop
  rw [if_pos h]

theorem scanLoop_notFound {fuel r : Nat} {p : Ptr} {results : List Ptr}
    (hgo : ¬ r < pattern.length - leadingWildcards pattern)
    (hfound : memchr m p (firstValidByte pattern) r = .ok none) :
    scanLoop m pattern (leadingWildcards pattern) (firstValidByte pattern)
      (fuel + 1) p r results = .ok results := by
  unfold scanLoop
  rw [if_neg hgo, hfound]
  rfl

theorem scanLoop_found {fuel c q r : Nat} {results : List Ptr}
    (hgo : ¬ r < pattern.length - leadingWildcards pattern)
    (hr : c + r = region.size.toNat) (hcq : c ≤ q)
    (hq : q < region.size.toNat)
    (hfound : memchr m (region.address c) (firstValidByte pattern) r =
      .ok (some (region.address q))) :
    scanLoop m pattern (leadingWildcards pattern) (firstValidByte pattern)
        (fuel + 1) (region.address c) r results =
      comparedAt m region pattern q >>= fun isMatch =>
        scanLoop m pattern (leadingWildcards pattern) (firstValidByte pattern)
          fuel (region.address (q + 1)) (region.size.toNat - (q + 1))
          (if isMatch then results ++ [resultAt region pattern q]
            else results) := by
  have hsize := region.size.isLt
  have hnext : region.address q + 1 = region.address (q + 1) :=
    address_add region q 1
  have hstep : (region.address (q + 1) - region.address c).toNat =
      q + 1 - c := by
    rw [show q + 1 = c + (q + 1 - c) by omega, ← address_add,
      offset_toNat (by omega)]
    omega
  have hassert : decide (q + 1 - c ≤ r) = true := decide_eq_true (by omega)
  have hrest : r - (q + 1 - c) = region.size.toNat - (q + 1) := by omega
  rw [scanLoop, if_neg hgo, hfound]
  simp only [ok_bind, hnext, hstep, hassert, ztAssert_true, hrest]
  rfl

theorem eq_none_of_no_late {late : Option Nat}
    (hlate : ∀ o, late = some o ↔ IsLateHit m region pattern o)
    (h : ∀ o, ¬ IsLateHit m region pattern o) : late = none := by
  cases late with
  | none => rfl
  | some q => exact absurd ((hlate q).mp rfl) (h q)

/-! ## The loop -/

theorem scanLoop_eq_finish {fuel c r : Nat} {results : List Ptr}
    {late : Option Nat}
    (hlate : ∀ o, late = some o ↔ IsLateHit m region pattern o)
    (hmapped : region.Mapped m)
    (hleading : leadingWildcards pattern < pattern.length)
    (hlen : pattern.length ≤ region.size.toNat)
    (hr : c + r = region.size.toNat) (hfuel : r < fuel)
    (hcursor : c ≤ lastFit region pattern ∨
      (c = lastFit region pattern + 1 ∧
        HasFirstByte m region pattern (lastFit region pattern))) :
    scanLoop m pattern (leadingWildcards pattern) (firstValidByte pattern) fuel
        (region.address c) r results =
      finish m region pattern late
        (results ++ resultsFrom m region pattern c) := by
  induction fuel generalizing c r results with
  | zero => omega
  | succ fuel ih =>
      have hlast : lastFit region pattern +
          (pattern.length - leadingWildcards pattern) = region.size.toNat := by
        unfold lastFit
        omega
      by_cases hstop : r < pattern.length - leadingWildcards pattern
      · -- the cursor is past the last position that fits, which held the byte
        have hc : c = lastFit region pattern + 1 := by omega
        have hfirst : HasFirstByte m region pattern (lastFit region pattern) := by
          rcases hcursor with hle | ⟨-, hfirst⟩
          · omega
          · exact hfirst
        have hnone : late = none := eq_none_of_no_late hlate fun o ho =>
          ho.earlier _ (le_refl _) ho.late hfirst
        have hempty : resultsFrom m region pattern c = [] :=
          resultsFrom_of_none (fun o _ _ => by omega)
        rw [scanLoop_stops hstop, hnone, hempty, List.append_nil]
        rfl
      · have hc : c ≤ lastFit region pattern := by omega
        rcases memchr_region pattern hmapped hr with
          ⟨q, hcq, hq, hfound, hbyte, hnot⟩ | ⟨hfound, hnot⟩
        · rw [scanLoop_found hstop hr hcq hq hfound]
          by_cases hfit : q ≤ lastFit region pattern
          · obtain ⟨isMatch, hcompared⟩ := comparedAt_isOk hmapped hlen hfit
            have hhit : IsHit m region pattern q ↔ isMatch = true := by
              unfold IsHit
              rw [hcompared]
              simp [hbyte]
            have hnext : q + 1 ≤ lastFit region pattern ∨
                (q + 1 = lastFit region pattern + 1 ∧
                  HasFirstByte m region pattern (lastFit region pattern)) := by
              rcases Nat.lt_or_eq_of_le hfit with hlt | rfl
              · exact .inl hlt
              · exact .inr ⟨rfl, hbyte⟩
            rw [hcompared, ok_bind, ih (by omega) (by omega) hnext,
              resultsFrom_eq_cons hcq hfit hnot]
            cases isMatch <;> simp [hhit]
          · -- the byte comes too late for the pattern: the last iteration
            have hsome : late = some q := (hlate q).mpr
              { fits := hlen
                late := Nat.not_le.mp hfit
                inside := hq
                found := hbyte
                earlier := fun o ho hoq => hnot o (hc.trans ho) hoq }
            have hempty : resultsFrom m region pattern c = [] :=
              resultsFrom_of_none (fun o hco ho => hnot o hco (by omega))
            obtain ⟨fuel, rfl⟩ : ∃ f, fuel = f + 1 := ⟨fuel - 1, by omega⟩
            have hdone : region.size.toNat - (q + 1) <
                pattern.length - leadingWildcards pattern := by omega
            simp only [scanLoop_stops hdone]
            rw [hsome, hempty, List.append_nil]
            rfl
        · have hnone : late = none := eq_none_of_no_late hlate fun o ho =>
            hnot o (hc.trans (le_of_lt ho.late)) ho.inside ho.found
          have hempty : resultsFrom m region pattern c = [] :=
            resultsFrom_of_none (fun o hco ho => hnot o hco (by omega))
          rw [scanLoop_notFound hstop hfound, hnone, hempty, List.append_nil]
          rfl

end Ztour
