import Ztour.Foundation.ByteMemory

/-!
# Pages of a power-of-two size

Clearing the low bits of an address rounds it down to a page.  A page that
starts at a multiple of its size does not wrap around the end of the address
space.
-/

namespace Ztour.Foundation

variable {w k : Nat} {size x : BitVec w}

theorem and_not_add_and (x mask : BitVec w) :
    (x &&& ~~~mask) + (x &&& mask) = x := by
  have hdisjoint : (x &&& ~~~mask) &&& (x &&& mask) = 0#w := by
    ext i hi
    simp only [BitVec.getElem_and, BitVec.getElem_not, BitVec.getElem_zero]
    cases mask[i] <;> simp
  rw [BitVec.add_eq_or_of_and_eq_zero _ _ hdisjoint]
  ext i hi
  simp only [BitVec.getElem_or, BitVec.getElem_and, BitVec.getElem_not]
  cases mask[i] <;> simp

theorem sub_and_not (x mask : BitVec w) : x - (x &&& ~~~mask) = x &&& mask := by
  rw [BitVec.sub_eq_iff_eq_add, BitVec.add_comm]
  exact (and_not_add_and x mask).symm

theorem size_pos (hsize : size.toNat = 2 ^ k) : 0 < size.toNat := by
  rw [hsize]
  positivity

theorem toNat_sub_one (hsize : size.toNat = 2 ^ k) :
    (size - 1).toNat = 2 ^ k - 1 := by
  have hpos : 0 < 2 ^ k := by positivity
  have hlt := size.isLt
  cases w with
  | zero =>
      rw [BitVec.toNat_zero_length] at hsize
      omega
  | succ w =>
      have hone : (1 : BitVec (w + 1)).toNat = 1 := by simp
      rw [BitVec.toNat_sub_of_le, hsize, hone]
      rw [BitVec.le_def, hone, hsize]
      exact hpos

theorem and_sub_one_toNat (hsize : size.toNat = 2 ^ k) :
    (x &&& (size - 1)).toNat = x.toNat % 2 ^ k := by
  rw [BitVec.toNat_and, toNat_sub_one hsize, Nat.and_two_pow_sub_one_eq_mod]

theorem and_sub_one_self (hsize : size.toNat = 2 ^ k) :
    size &&& (size - 1) = 0 := by
  apply BitVec.eq_of_toNat_eq
  rw [and_sub_one_toNat hsize, hsize, Nat.mod_self]
  simp

theorem and_not_sub_one_toNat (hsize : size.toNat = 2 ^ k) :
    (x &&& ~~~(size - 1)).toNat = x.toNat - x.toNat % 2 ^ k := by
  have hsum := and_not_add_and x (size - 1)
  have hlow := and_sub_one_toNat (x := x) hsize
  have hle : x &&& (size - 1) ≤ x := by
    rw [BitVec.le_def, hlow]
    exact Nat.mod_le _ _
  rw [BitVec.eq_sub_iff_add_eq.mpr hsum, BitVec.toNat_sub_of_le hle, hlow]

theorem dvd_and_not_sub_one (hsize : size.toNat = 2 ^ k) :
    size.toNat ∣ (x &&& ~~~(size - 1)).toNat := by
  rw [and_not_sub_one_toNat hsize, hsize]
  exact Nat.dvd_sub_mod x.toNat

theorem width_of_size (hsize : size.toNat = 2 ^ k) : k < w := by
  rw [← Nat.pow_lt_pow_iff_right (by decide : 1 < 2), ← hsize]
  exact size.isLt

theorem size_dvd_space (hsize : size.toNat = 2 ^ k) : size.toNat ∣ 2 ^ w := by
  rw [hsize]
  exact pow_dvd_pow 2 (width_of_size hsize).le

theorem dvd_add_toNat {y : BitVec w} (hsize : size.toNat = 2 ^ k)
    (hx : size.toNat ∣ x.toNat) (hy : size.toNat ∣ y.toNat) :
    size.toNat ∣ (x + y).toNat := by
  rw [BitVec.toNat_add, Nat.dvd_mod_iff (size_dvd_space hsize)]
  exact Nat.dvd_add hx hy

theorem dvd_sub_toNat {y : BitVec w} (hsize : size.toNat = 2 ^ k)
    (hx : size.toNat ∣ x.toNat) (hy : size.toNat ∣ y.toNat) :
    size.toNat ∣ (x - y).toNat := by
  rw [BitVec.toNat_sub, Nat.dvd_mod_iff (size_dvd_space hsize)]
  exact Nat.dvd_add (Nat.dvd_sub (size_dvd_space hsize) hy) hx

theorem dvd_mul_toNat (hsize : size.toNat = 2 ^ k) (y : BitVec w) :
    size.toNat ∣ (size * y).toNat := by
  rw [BitVec.toNat_mul, Nat.dvd_mod_iff (size_dvd_space hsize)]
  exact Nat.dvd_mul_right _ _

theorem add_size_le_of_dvd (hsize : size.toNat = 2 ^ k)
    (h : size.toNat ∣ x.toNat) : x.toNat + size.toNat ≤ 2 ^ w := by
  obtain ⟨pages, hpages⟩ := size_dvd_space hsize
  obtain ⟨index, hindex⟩ := h
  have hlt := x.isLt
  rw [hpages, hindex] at *
  have hstep : index + 1 ≤ pages := Nat.lt_of_mul_lt_mul_left hlt
  calc size.toNat * index + size.toNat
      = size.toNat * (index + 1) := by ring
    _ ≤ size.toNat * pages := Nat.mul_le_mul_left _ hstep

/-! ## The pages of a region -/

/-- All that lies on a page with something of the region. -/
def pagesOf (size : BitVec w) (region : Set (BitVec w)) : Set (BitVec w) :=
  {x | ∃ y ∈ region, x.toNat / size.toNat = y.toNat / size.toNat}

theorem subset_pagesOf (region : Set (BitVec w)) : region ⊆ pagesOf size region :=
  fun x hx => ⟨x, hx, rfl⟩

section Pages

variable {base : BitVec w} {n : Nat}

theorem space_eq (hsize : size.toNat = 2 ^ k) : 2 ^ w = 2 ^ k * 2 ^ (w - k) := by
  rw [← Nat.pow_add, Nat.add_sub_cancel' (width_of_size hsize).le]

/-- Pages are counted from an aligned address as from 0, around the end of the
address space. -/
theorem page_of_base (hsize : size.toNat = 2 ^ k)
    (hbase : size.toNat ∣ base.toNat) :
    x.toNat / size.toNat =
      (base.toNat / size.toNat + (x - base).toNat / size.toNat) %
        2 ^ (w - k) := by
  obtain ⟨index, hindex⟩ := hbase
  have hpos := size_pos hsize
  have hsum : x.toNat = (base.toNat + (x - base).toNat) % 2 ^ w := by
    rw [← BitVec.toNat_add, BitVec.add_comm, BitVec.sub_add_cancel]
  have hspace : 2 ^ w = size.toNat * 2 ^ (w - k) := by
    rw [hsize]
    exact space_eq hsize
  rw [hsum, hspace, Nat.mod_mul_right_div_self, hindex, Nat.mul_add_div hpos,
    Nat.mul_div_cancel_left _ hpos]

theorem page_offset_lt (hsize : size.toNat = 2 ^ k) :
    x.toNat / size.toNat < 2 ^ (w - k) := by
  apply Nat.div_lt_of_lt_mul
  rw [hsize, ← space_eq hsize]
  exact x.isLt

theorem samePage_iff (hsize : size.toNat = 2 ^ k)
    (hbase : size.toNat ∣ base.toNat) {y : BitVec w} :
    x.toNat / size.toNat = y.toNat / size.toNat ↔
      (x - base).toNat / size.toNat = (y - base).toNat / size.toNat := by
  rw [page_of_base (x := x) hsize hbase, page_of_base (x := y) hsize hbase]
  constructor
  · intro h
    exact (Nat.ModEq.add_left_cancel' _ h).eq_of_lt_of_lt (page_offset_lt hsize)
      (page_offset_lt hsize)
  · intro h
    rw [h]

theorem sub_and_not_toNat (hsize : size.toNat = 2 ^ k) :
    (x - (x &&& ~~~(size - 1))).toNat = x.toNat % size.toNat := by
  rw [sub_and_not, and_sub_one_toNat hsize, hsize]

theorem offset_sub_page_toNat (hsize : size.toNat = 2 ^ k) {i : Nat}
    (h : i + x.toNat % size.toNat < 2 ^ w) :
    (x + BitVec.ofNat w i - (x &&& ~~~(size - 1))).toNat =
      i + x.toNat % size.toNat := by
  have hsum : x + BitVec.ofNat w i - (x &&& ~~~(size - 1)) =
      BitVec.ofNat w i + (x - (x &&& ~~~(size - 1))) := by
    rw [BitVec.add_comm x, BitVec.sub_eq_add_neg, BitVec.add_assoc,
      ← BitVec.sub_eq_add_neg]
  rw [hsum, BitVec.toNat_add, sub_and_not_toNat hsize, BitVec.toNat_ofNat,
    Nat.mod_eq_of_lt (by omega : i < 2 ^ w), Nat.mod_eq_of_lt h]

theorem mem_pagesOf_span_iff (hsize : size.toNat = 2 ^ k) {a : BitVec w}
    (hpos : 0 < n) (hend : n + a.toNat % size.toNat ≤ 2 ^ w) :
    x ∈ pagesOf size (span a n) ↔
      (x - (a &&& ~~~(size - 1))).toNat / size.toNat * size.toNat <
        n + a.toNat % size.toNat := by
  have hbase := dvd_and_not_sub_one (x := a) hsize
  have hsizePos := size_pos hsize
  have hlow := Nat.mod_lt a.toNat hsizePos
  have hplace : ∀ i, i + a.toNat % size.toNat < 2 ^ w →
      (a + BitVec.ofNat w i - (a &&& ~~~(size - 1))).toNat =
        i + a.toNat % size.toNat := fun i => offset_sub_page_toNat hsize
  constructor
  · rintro ⟨y, hy, hpage⟩
    obtain ⟨i, hi, -, rfl⟩ := eq_offset_of_mem_span hy
    rw [samePage_iff hsize hbase, hplace i (by omega)] at hpage
    rw [hpage]
    exact lt_of_le_of_lt (Nat.div_mul_le_self _ _) (by omega)
  · intro hx
    -- the first byte of the range on that page
    generalize hpage : (x - (a &&& ~~~(size - 1))).toNat / size.toNat = page at hx
    obtain ⟨i, hi, hsame⟩ : ∃ i < n,
        (i + a.toNat % size.toNat) / size.toNat = page := by
      cases page with
      | zero => exact ⟨0, hpos, by rw [Nat.zero_add, Nat.div_eq_of_lt hlow]⟩
      | succ page =>
          have hle : size.toNat ≤ (page + 1) * size.toNat :=
            Nat.le_mul_of_pos_left _ (Nat.succ_pos _)
          refine ⟨(page + 1) * size.toNat - a.toNat % size.toNat, by omega, ?_⟩
          rw [Nat.sub_add_cancel (by omega), Nat.mul_div_cancel _ hsizePos]
    refine ⟨a + BitVec.ofNat w i, offset_mem_span hi (by omega), ?_⟩
    rw [samePage_iff hsize hbase, hplace i (by omega), hpage, hsame]

theorem pagesOf_span_subset_iff (hsize : size.toNat = 2 ^ k)
    (hbase : size.toNat ∣ base.toNat) (hn : n ≤ 2 ^ w) :
    pagesOf size (span base n) ⊆ span base n ↔ size.toNat ∣ n := by
  have hsizePos := size_pos hsize
  have haligned : base &&& ~~~(size - 1) = base := by
    apply BitVec.eq_of_toNat_eq
    rw [and_not_sub_one_toNat hsize, ← hsize, Nat.mod_eq_zero_of_dvd hbase,
      Nat.sub_zero]
  have hlow : base.toNat % size.toNat = 0 := Nat.mod_eq_zero_of_dvd hbase
  have hmem : ∀ x, 0 < n → (x ∈ pagesOf size (span base n) ↔
      (x - base).toNat / size.toNat * size.toNat < n) := by
    intro x hpos
    rw [mem_pagesOf_span_iff hsize hpos (by omega), haligned, hlow, Nat.add_zero]
  constructor
  · intro hsub
    by_contra hnot
    have hpos : 0 < n := Nat.pos_of_ne_zero fun hzero => hnot (hzero ▸ dvd_zero _)
    have hlt : n < 2 ^ w := by
      refine lt_of_le_of_ne hn fun heq => hnot ?_
      rw [heq]
      exact size_dvd_space hsize
    -- the byte behind the range is on its last page
    have hbehind : base + BitVec.ofNat w n ∈ pagesOf size (span base n) := by
      rw [hmem _ hpos, offset_toNat hlt]
      refine lt_of_le_of_ne (Nat.div_mul_le_self _ _) fun heq => hnot ?_
      exact Dvd.intro_left _ heq
    have hinside := hsub hbehind
    rw [mem_span, offset_toNat hlt] at hinside
    exact absurd hinside (Nat.lt_irrefl _)
  · rintro ⟨pages, rfl⟩ x hx
    have hpos : 0 < size.toNat * pages := by
      obtain ⟨y, hy, -⟩ := hx
      exact lt_of_le_of_lt (Nat.zero_le _) (mem_span.mp hy)
    rw [hmem x hpos, Nat.mul_comm] at hx
    rw [mem_span, Nat.mul_comm, ← Nat.div_lt_iff_lt_mul hsizePos]
    exact Nat.lt_of_mul_lt_mul_left hx

end Pages

end Ztour.Foundation
