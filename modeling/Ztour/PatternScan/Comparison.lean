import Ztour.Foundation.Result
import Ztour.PatternScan.Model

/-!
# The search for a byte and the comparison at one place

`memchr` over mapped bytes finds the first equal byte.  The comparison of the
remaining entries stops at the first entry that does not match: it answers
`false` there, or faults when that entry's byte is not mapped.
-/

namespace Ztour

open Ztour.Foundation

theorem memchr_cases {m : Mem} {ptr : Ptr} (byte : Byte) {count : Nat}
    (hmapped : ∀ i < count, m (ptr + BitVec.ofNat 64 i) ≠ none) :
    (∃ i < count, memchr m ptr byte count = .ok (some (ptr + BitVec.ofNat 64 i)) ∧
        m (ptr + BitVec.ofNat 64 i) = some byte ∧
        ∀ j < i, m (ptr + BitVec.ofNat 64 j) ≠ some byte) ∨
      (memchr m ptr byte count = .ok none ∧
        ∀ j < count, m (ptr + BitVec.ofNat 64 j) ≠ some byte) := by
  induction count generalizing ptr with
  | zero => exact .inr ⟨rfl, by simp⟩
  | succ count ih =>
      obtain ⟨first, hfirst⟩ : ∃ first, m ptr = some first := by
        have h0 := hmapped 0 (by omega)
        rw [BitVec.add_zero] at h0
        exact Option.ne_none_iff_exists'.mp h0
      have hread : memchr m ptr byte (count + 1) =
          if first = byte then .ok (some ptr)
          else memchr m (ptr + 1) byte count := by
        simp only [memchr, readByte_eq_ok.mpr hfirst, ok_bind]
      by_cases heq : first = byte
      · refine .inl ⟨0, by omega, ?_, ?_, by simp⟩
        · simp [hread, heq]
        · simpa [heq] using hfirst
      · have hnot : m (ptr + BitVec.ofNat 64 0) ≠ some byte := by
          simpa [hfirst] using heq
        have htail : ∀ i < count, m (ptr + 1 + BitVec.ofNat 64 i) ≠ none := by
          intro i hi
          rw [Memory.succ_offset]
          exact hmapped (i + 1) (by omega)
        rw [hread, if_neg heq]
        rcases ih htail with ⟨i, hi, hres, hhit, hbefore⟩ | ⟨hres, hnone⟩
        · refine .inl ⟨i + 1, by omega, by rw [hres, Memory.succ_offset], ?_, ?_⟩
          · rwa [Memory.succ_offset] at hhit
          · intro j hj
            cases j with
            | zero => exact hnot
            | succ j =>
                rw [← Memory.succ_offset]
                exact hbefore j (by omega)
        · refine .inr ⟨hres, ?_⟩
          intro j hj
          cases j with
          | zero => exact hnot
          | succ j =>
              rw [← Memory.succ_offset]
              exact hnone j (by omega)

/-! ## Entries -/

theorem entry_cases (m : Mem) (ptr : Ptr) (entry : Int) :
    EntryMatches m ptr entry ∨ EntryMismatches m ptr entry ∨
      EntryUnmapped m ptr entry := by
  unfold EntryMatches EntryMismatches EntryUnmapped
  by_cases hwild : entry = -1
  · exact .inl (.inl hwild)
  · cases hbyte : m ptr with
    | none => exact .inr (.inr ⟨hwild, rfl⟩)
    | some byte =>
        by_cases heq : entry = byte.toNat
        · exact .inl (.inr ⟨byte, rfl, heq⟩)
        · exact .inr (.inl ⟨hwild, byte, rfl, heq⟩)

theorem EntryMatches.not_mismatches {m : Mem} {ptr : Ptr} {entry : Int}
    (h : EntryMatches m ptr entry) : ¬ EntryMismatches m ptr entry := by
  rintro ⟨hne, byte, hbyte, hdiff⟩
  rcases h with hwild | ⟨byte', hbyte', heq⟩
  · exact hne hwild
  · rw [hbyte, Option.some.injEq] at hbyte'
    exact hdiff (hbyte' ▸ heq)

theorem EntryMatches.not_unmapped {m : Mem} {ptr : Ptr} {entry : Int}
    (h : EntryMatches m ptr entry) : ¬ EntryUnmapped m ptr entry := by
  rintro ⟨hne, hnone⟩
  rcases h with hwild | ⟨byte', hbyte', -⟩
  · exact hne hwild
  · simp [hnone] at hbyte'

theorem EntryMismatches.not_unmapped {m : Mem} {ptr : Ptr} {entry : Int}
    (h : EntryMismatches m ptr entry) : ¬ EntryUnmapped m ptr entry := by
  rintro ⟨-, hnone⟩
  obtain ⟨-, byte, hbyte, -⟩ := h
  simp [hnone] at hbyte

theorem entryMismatches_congr {m m' : Mem} {ptr : Ptr} {entry : Int}
    (h : m' ptr = m ptr) :
    EntryMismatches m' ptr entry ↔ EntryMismatches m ptr entry := by
  simp only [EntryMismatches, h]

/-! ## The comparison loop -/

def MatchesBefore (m : Mem) (ptr : Ptr) (rest : SignedBytePattern) (j i : Nat) :
    Prop :=
  ∀ k (h : k < rest.length), k < i →
    EntryMatches m (ptr + BitVec.ofNat 64 (j + k)) rest[k]

theorem matchesBefore_zero (m : Mem) (ptr : Ptr) (rest : SignedBytePattern)
    (j : Nat) : MatchesBefore m ptr rest j 0 := by
  intro k _ hk
  omega

theorem MatchesBefore.cons {m : Mem} {ptr : Ptr} {entry : Int}
    {rest : SignedBytePattern} {j i : Nat}
    (hhead : EntryMatches m (ptr + BitVec.ofNat 64 j) entry)
    (htail : MatchesBefore m ptr rest (j + 1) i) :
    MatchesBefore m ptr (entry :: rest) j (i + 1) := by
  intro k hk hki
  cases k with
  | zero => exact hhead
  | succ k =>
      have hk' := htail k (by simpa using hk) (by omega)
      rw [Nat.add_assoc, Nat.add_comm 1] at hk'
      exact hk'

/-- What the comparison answers, by the first entry that does not match. -/
inductive Compared (m : Mem) (ptr : Ptr) (rest : SignedBytePattern) (j : Nat) :
    Res Bool → Prop
  | isMatch (h : MatchesBefore m ptr rest j rest.length) :
      Compared m ptr rest j (.ok true)
  | mismatch (i : Nat) (hi : i < rest.length)
      (hmismatch : EntryMismatches m (ptr + BitVec.ofNat 64 (j + i)) rest[i])
      (hbefore : MatchesBefore m ptr rest j i) :
      Compared m ptr rest j (.ok false)
  | unmapped (i : Nat) (hi : i < rest.length)
      (hunmapped : EntryUnmapped m (ptr + BitVec.ofNat 64 (j + i)) rest[i])
      (hbefore : MatchesBefore m ptr rest j i) :
      Compared m ptr rest j
        (.error (.fault (ptr + BitVec.ofNat 64 (j + i))))

theorem restMatches_cons_of_matches {m : Mem} {ptr : Ptr} {entry : Int}
    {rest : SignedBytePattern} {j : Nat}
    (h : EntryMatches m (ptr + BitVec.ofNat 64 j) entry) :
    restMatches m ptr (entry :: rest) j = restMatches m ptr rest (j + 1) := by
  rcases h with hwild | ⟨byte, hbyte, heq⟩
  · simp [restMatches, hwild]
  · have hne : entry ≠ -1 := by omega
    simp only [restMatches, if_neg hne, readByte_eq_ok.mpr hbyte, ok_bind]
    rw [if_neg (not_not_intro heq)]

theorem restMatches_cons_of_mismatches {m : Mem} {ptr : Ptr} {entry : Int}
    {rest : SignedBytePattern} {j : Nat}
    (h : EntryMismatches m (ptr + BitVec.ofNat 64 j) entry) :
    restMatches m ptr (entry :: rest) j = .ok false := by
  obtain ⟨hne, byte, hbyte, hdiff⟩ := h
  simp [restMatches, hne, readByte_eq_ok.mpr hbyte, hdiff]

theorem restMatches_cons_of_unmapped {m : Mem} {ptr : Ptr} {entry : Int}
    {rest : SignedBytePattern} {j : Nat}
    (h : EntryUnmapped m (ptr + BitVec.ofNat 64 j) entry) :
    restMatches m ptr (entry :: rest) j =
      .error (.fault (ptr + BitVec.ofNat 64 j)) := by
  obtain ⟨hne, hnone⟩ := h
  simp [restMatches, hne, readByte, hnone]

theorem restMatches_compared (m : Mem) (ptr : Ptr) (rest : SignedBytePattern)
    (j : Nat) : Compared m ptr rest j (restMatches m ptr rest j) := by
  induction rest generalizing j with
  | nil => exact .isMatch (matchesBefore_zero m ptr [] j)
  | cons entry rest ih =>
      have shift : ∀ i, j + 1 + i = j + (i + 1) := by omega
      rcases entry_cases m (ptr + BitVec.ofNat 64 j) entry with
        hmatch | hmismatch | hunmapped
      · rw [restMatches_cons_of_matches hmatch]
        generalize hres : restMatches m ptr rest (j + 1) = res
        have hrest := hres ▸ ih (j + 1)
        cases hrest with
        | isMatch h => exact .isMatch (h.cons hmatch)
        | mismatch i hi hmismatch hbefore =>
            rw [shift] at hmismatch
            exact .mismatch (i + 1) (by simpa using hi) hmismatch
              (hbefore.cons hmatch)
        | unmapped i hi hunmapped hbefore =>
            rw [shift] at hunmapped ⊢
            exact .unmapped (i + 1) (by simpa using hi) hunmapped
              (hbefore.cons hmatch)
      · rw [restMatches_cons_of_mismatches hmismatch]
        exact .mismatch 0 (by simp) hmismatch (matchesBefore_zero _ _ _ _)
      · rw [restMatches_cons_of_unmapped hunmapped]
        exact .unmapped 0 (by simp) hunmapped (matchesBefore_zero _ _ _ _)

theorem restMatches_eq_true_iff {m : Mem} {ptr : Ptr} {rest : SignedBytePattern}
    {j : Nat} :
    restMatches m ptr rest j = .ok true ↔
      MatchesBefore m ptr rest j rest.length := by
  generalize hres : restMatches m ptr rest j = res
  have hcompared := hres ▸ restMatches_compared m ptr rest j
  cases hcompared with
  | isMatch h => exact ⟨fun _ => h, fun _ => rfl⟩
  | mismatch i hi hmismatch hbefore =>
      exact ⟨by simp, fun h => absurd hmismatch (h i hi hi).not_mismatches⟩
  | unmapped i hi hunmapped hbefore =>
      exact ⟨by simp, fun h => absurd hunmapped (h i hi hi).not_unmapped⟩

theorem restMatches_eq_false_iff {m : Mem} {ptr : Ptr} {rest : SignedBytePattern}
    {j : Nat} :
    restMatches m ptr rest j = .ok false ↔
      ∃ i, ∃ hi : i < rest.length,
        EntryMismatches m (ptr + BitVec.ofNat 64 (j + i)) rest[i] ∧
        ∀ k (hk : k < rest.length), k < i →
          ¬ EntryUnmapped m (ptr + BitVec.ofNat 64 (j + k)) rest[k] := by
  generalize hres : restMatches m ptr rest j = res
  have hcompared := hres ▸ restMatches_compared m ptr rest j
  cases hcompared with
  | isMatch h =>
      refine ⟨by simp, ?_⟩
      rintro ⟨i, hi, hmismatch, -⟩
      exact absurd hmismatch (h i hi hi).not_mismatches
  | mismatch i hi hmismatch hbefore =>
      refine ⟨fun _ => ⟨i, hi, hmismatch, ?_⟩, fun _ => rfl⟩
      exact fun k hk hki => (hbefore k hk hki).not_unmapped
  | unmapped i hi hunmapped hbefore =>
      refine ⟨by simp, ?_⟩
      rintro ⟨k, hk, hmismatch, hmapped⟩
      rcases Nat.lt_trichotomy k i with hlt | rfl | hgt
      · exact absurd hmismatch (hbefore k hk hlt).not_mismatches
      · exact absurd hunmapped hmismatch.not_unmapped
      · exact absurd hunmapped (hmapped i hi hgt)

theorem restMatches_isOk_iff {m : Mem} {ptr : Ptr} {rest : SignedBytePattern}
    {j : Nat} :
    (∃ isMatch, restMatches m ptr rest j = .ok isMatch) ↔
      ∀ i (hi : i < rest.length),
        EntryUnmapped m (ptr + BitVec.ofNat 64 (j + i)) rest[i] →
        ∃ k, ∃ hk : k < rest.length, k < i ∧
          EntryMismatches m (ptr + BitVec.ofNat 64 (j + k)) rest[k] := by
  generalize hres : restMatches m ptr rest j = res
  have hcompared := hres ▸ restMatches_compared m ptr rest j
  cases hcompared with
  | isMatch h =>
      refine ⟨fun _ i hi hunmapped => ?_, fun _ => ⟨true, rfl⟩⟩
      exact absurd hunmapped (h i hi hi).not_unmapped
  | mismatch i hi hmismatch hbefore =>
      refine ⟨fun _ k hk hunmapped => ?_, fun _ => ⟨false, rfl⟩⟩
      rcases Nat.lt_trichotomy k i with hlt | rfl | hgt
      · exact absurd hunmapped (hbefore k hk hlt).not_unmapped
      · exact absurd hunmapped hmismatch.not_unmapped
      · exact ⟨i, hi, hgt, hmismatch⟩
  | unmapped i hi hunmapped hbefore =>
      refine ⟨by simp, fun h => ?_⟩
      obtain ⟨k, hk, hki, hmismatch⟩ := h i hi hunmapped
      exact absurd hmismatch (hbefore k hk hki).not_mismatches

theorem restMatches_congr {m m' : Mem} {ptr : Ptr} {rest : SignedBytePattern}
    {j : Nat} (h : ∀ i < rest.length, m' (ptr + BitVec.ofNat 64 (j + i)) =
      m (ptr + BitVec.ofNat 64 (j + i))) :
    restMatches m' ptr rest j = restMatches m ptr rest j := by
  induction rest generalizing j with
  | nil => rfl
  | cons entry rest ih =>
      have hhead := h 0 (by simp)
      have htail : ∀ i < rest.length, m' (ptr + BitVec.ofNat 64 (j + 1 + i)) =
          m (ptr + BitVec.ofNat 64 (j + 1 + i)) := by
        intro i hi
        rw [show j + 1 + i = j + (i + 1) by omega]
        exact h (i + 1) (by simpa using hi)
      rw [Nat.add_zero] at hhead
      simp only [restMatches, readByte, ih htail, hhead]

end Ztour
