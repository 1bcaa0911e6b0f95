import Mathlib.Tactic
import Mathlib.Order.CompletePartialOrder

/-!
# Partial memories over a wrapping address space

A memory maps each `w`-bit address to a cell, or to nothing where no cell is
mapped.  Addresses wrap: the cell at offset `i` of a range is the one at
`a + i` modulo `2 ^ w`, and an address belongs to the range exactly when its
distance from the start is less than the length.
-/

namespace Ztour.Foundation

variable {w : Nat} {β : Type}

abbrev Memory (w : Nat) (β : Type) := BitVec w → Option β

def span (a : BitVec w) (n : Nat) : Set (BitVec w) := {x | (x - a).toNat < n}

instance (a : BitVec w) (n : Nat) (x : BitVec w) : Decidable (x ∈ span a n) :=
  inferInstanceAs (Decidable ((x - a).toNat < n))

theorem mem_span {a x : BitVec w} {n : Nat} :
    x ∈ span a n ↔ (x - a).toNat < n := Iff.rfl

theorem offset_toNat {a : BitVec w} {i : Nat} (h : i < 2 ^ w) :
    (a + BitVec.ofNat w i - a).toNat = i := by
  rw [BitVec.add_comm, BitVec.add_sub_cancel, BitVec.toNat_ofNat,
    Nat.mod_eq_of_lt h]

theorem offset_mem_span {a : BitVec w} {i n : Nat} (hi : i < n)
    (hn : n ≤ 2 ^ w) : a + BitVec.ofNat w i ∈ span a n := by
  rw [mem_span, offset_toNat (by omega)]
  exact hi

theorem eq_offset_of_mem_span {a x : BitVec w} {n : Nat} (h : x ∈ span a n) :
    ∃ i, i < n ∧ i < 2 ^ w ∧ x = a + BitVec.ofNat w i := by
  refine ⟨(x - a).toNat, h, (x - a).isLt, ?_⟩
  rw [BitVec.ofNat_toNat, BitVec.setWidth_eq, BitVec.add_comm,
    BitVec.sub_add_cancel]

theorem span_mono {a : BitVec w} {m n : Nat} (h : m ≤ n) :
    span a m ⊆ span a n :=
  fun _ hx => lt_of_lt_of_le hx h

theorem offset_injective {a : BitVec w} {i j : Nat} (hi : i < 2 ^ w)
    (hj : j < 2 ^ w)
    (h : a + BitVec.ofNat w i = a + BitVec.ofNat w j) : i = j := by
  rw [← offset_toNat (a := a) hi, h, offset_toNat hj]

theorem span_offset_subset {a : BitVec w} {i k n : Nat} (h : i + k ≤ n)
    (hn : n ≤ 2 ^ w) : span (a + BitVec.ofNat w i) k ⊆ span a n := by
  intro x hx
  obtain ⟨j, hj, _, rfl⟩ := eq_offset_of_mem_span hx
  rw [BitVec.add_assoc, ← BitVec.ofNat_add]
  exact offset_mem_span (by omega) hn

theorem disjoint_span_offset {a : BitVec w} {i j k l : Nat}
    (hij : i + k ≤ j) (hl : j + l ≤ 2 ^ w) :
    Disjoint (span (a + BitVec.ofNat w i) k)
      (span (a + BitVec.ofNat w j) l) := by
  rw [Set.disjoint_left]
  intro x hx hy
  obtain ⟨p, hp, _, rfl⟩ := eq_offset_of_mem_span hx
  obtain ⟨q, hq, _, hpq⟩ := eq_offset_of_mem_span hy
  rw [BitVec.add_assoc, BitVec.add_assoc, ← BitVec.ofNat_add,
    ← BitVec.ofNat_add] at hpq
  have := offset_injective (by omega) (by omega) hpq
  omega

namespace Memory

/-! ## Reading -/

def read (m : Memory w β) (a : BitVec w) : Nat → Option (List β)
  | 0 => some []
  | n + 1 => do
      let cell ← m a
      let cells ← read m (a + 1) n
      some (cell :: cells)

/-- The longest mapped run of at most `n` cells from `a` on. -/
def readable (m : Memory w β) (a : BitVec w) : Nat → List β
  | 0 => []
  | n + 1 =>
      match m a with
      | none => []
      | some cell => cell :: readable m (a + 1) n

def Holds (m : Memory w β) (a : BitVec w) (cells : List β) : Prop :=
  ∀ i (h : i < cells.length), m (a + BitVec.ofNat w i) = some cells[i]

theorem holds_nil (m : Memory w β) (a : BitVec w) : m.Holds a [] := by
  intro i h
  simp at h

theorem succ_offset (a : BitVec w) (i : Nat) :
    a + 1 + BitVec.ofNat w i = a + BitVec.ofNat w (i + 1) := by
  rw [BitVec.add_assoc, BitVec.ofNat_add, BitVec.add_comm (BitVec.ofNat w i)]
  rfl

theorem holds_cons {m : Memory w β} {a : BitVec w} {cell : β}
    {cells : List β} :
    m.Holds a (cell :: cells) ↔ m a = some cell ∧ m.Holds (a + 1) cells := by
  constructor
  · intro h
    have hhead : m (a + BitVec.ofNat w 0) = some cell := h 0 (by simp)
    refine ⟨by simpa using hhead, ?_⟩
    intro i hi
    have htail : m (a + BitVec.ofNat w (i + 1)) = some cells[i] :=
      h (i + 1) (by simpa using hi)
    rw [succ_offset]
    exact htail
  · rintro ⟨hcell, hcells⟩ i hi
    cases i with
    | zero => simpa using hcell
    | succ i =>
        rw [← succ_offset]
        exact hcells i (by simpa using hi)

theorem read_eq_some_iff {m : Memory w β} {a : BitVec w} {n : Nat}
    {cells : List β} :
    m.read a n = some cells ↔ cells.length = n ∧ m.Holds a cells := by
  induction n generalizing a cells with
  | zero =>
      constructor
      · intro h
        have : cells = [] := by simpa [read] using h.symm
        exact ⟨by simp [this], this ▸ holds_nil m a⟩
      · rintro ⟨h, -⟩
        simp [read, List.length_eq_zero_iff.mp h]
  | succ n ih =>
      cases cells with
      | nil =>
          simp only [read, Option.bind_eq_bind, Option.bind_eq_some_iff]
          simp
      | cons cell cells =>
          rw [holds_cons]
          simp only [read, Option.bind_eq_bind, Option.bind_eq_some_iff,
            Option.some.injEq, List.cons.injEq, List.length_cons,
            Nat.add_right_cancel_iff]
          constructor
          · rintro ⟨c, hc, cs, hcs, rfl, rfl⟩
            obtain ⟨hlen, hholds⟩ := ih.mp hcs
            exact ⟨hlen, hc, hholds⟩
          · rintro ⟨hlen, hc, hholds⟩
            exact ⟨cell, hc, cells, ih.mpr ⟨hlen, hholds⟩, rfl, rfl⟩

theorem holds_append {m : Memory w β} {a : BitVec w} {xs ys : List β} :
    m.Holds a (xs ++ ys) ↔
      m.Holds a xs ∧ m.Holds (a + BitVec.ofNat w xs.length) ys := by
  induction xs generalizing a with
  | nil => simp [holds_nil]
  | cons x xs ih =>
      rw [List.cons_append, holds_cons, holds_cons, ih, and_assoc,
        List.length_cons, succ_offset]

theorem Holds.congr {m m' : Memory w β} {a : BitVec w} {cells : List β}
    (h : m.Holds a cells) (hlen : cells.length ≤ 2 ^ w)
    (hagree : ∀ x ∈ span a cells.length, m' x = m x) : m'.Holds a cells := by
  intro i hi
  rw [hagree _ (offset_mem_span hi hlen)]
  exact h i hi

theorem Holds.of_mapped {m m' : Memory w β} {a : BitVec w} {cells : List β}
    (h : m.Holds a cells) (hkept : ∀ x, m x ≠ none → m' x = m x) :
    m'.Holds a cells := by
  intro i hi
  rw [hkept _ (by simp [h i hi])]
  exact h i hi

theorem readable_congr {m m' : Memory w β} {a : BitVec w} {n : Nat}
    (h : ∀ i < n, m' (a + BitVec.ofNat w i) = m (a + BitVec.ofNat w i)) :
    m'.readable a n = m.readable a n := by
  induction n generalizing a with
  | zero => rfl
  | succ n ih =>
      have hhead := h 0 (by omega)
      rw [BitVec.add_zero] at hhead
      have htail : m'.readable (a + 1) n = m.readable (a + 1) n := by
        refine ih fun i hi => ?_
        rw [succ_offset]
        exact h (i + 1) (by omega)
      simp only [readable, hhead, htail]

theorem read_congr {m m' : Memory w β} {a : BitVec w} {n : Nat}
    (hn : n ≤ 2 ^ w) (h : ∀ x ∈ span a n, m' x = m x) :
    m'.read a n = m.read a n := by
  have holds : ∀ cells : List β, cells.length = n →
      (m'.Holds a cells ↔ m.Holds a cells) := by
    rintro cells rfl
    exact ⟨fun hheld => hheld.congr hn fun x hx => (h x hx).symm,
      fun hheld => hheld.congr hn h⟩
  ext cells
  rw [read_eq_some_iff, read_eq_some_iff]
  exact and_congr_right fun hlen => holds cells hlen

/-! ## Writing -/

def write (m : Memory w β) (a : BitVec w) (cells : List β) : Memory w β :=
  fun x =>
    match cells[(x - a).toNat]? with
    | some cell => some cell
    | none => m x

theorem write_of_not_mem {m : Memory w β} {a x : BitVec w} {cells : List β}
    (h : x ∉ span a cells.length) : m.write a cells x = m x := by
  rw [mem_span, Nat.not_lt] at h
  simp only [write]
  rw [List.getElem?_eq_none h]

theorem write_offset {m : Memory w β} {a : BitVec w} {cells : List β} {i : Nat}
    (hlen : cells.length ≤ 2 ^ w) (hi : i < cells.length) :
    m.write a cells (a + BitVec.ofNat w i) = some cells[i] := by
  simp only [write]
  rw [offset_toNat (by omega), List.getElem?_eq_getElem hi]

theorem holds_write {m : Memory w β} {a : BitVec w} {cells : List β}
    (hlen : cells.length ≤ 2 ^ w) : (m.write a cells).Holds a cells :=
  fun _ hi => write_offset hlen hi

theorem Holds.write_disjoint {m : Memory w β} {a b : BitVec w}
    {cells other : List β} (h : m.Holds a cells) (hlen : cells.length ≤ 2 ^ w)
    (hdisj : Disjoint (span a cells.length) (span b other.length)) :
    (m.write b other).Holds a cells :=
  h.congr hlen fun _ hx =>
    write_of_not_mem (Set.disjoint_left.mp hdisj hx)

theorem Holds.write_take {m : Memory w β} {a : BitVec w} {xs ys : List β}
    (h : m.Holds a xs) (hlen : xs.length + ys.length ≤ 2 ^ w) (k : Nat) :
    (m.write a ((xs ++ ys).take k)).Holds a xs := by
  intro i hi
  have hle := List.length_take_le' k (xs ++ ys)
  rw [List.length_append] at hle
  by_cases hk : i < ((xs ++ ys).take k).length
  · rw [write_offset (by omega) hk, List.getElem_take,
      List.getElem_append_left hi]
  · rw [write_of_not_mem]
    · exact h i hi
    · rw [mem_span, offset_toNat (by omega)]
      exact hk

theorem write_mapped {m : Memory w β} {a x : BitVec w} {cells : List β}
    (h : m x ≠ none) : m.write a cells x ≠ none := by
  simp only [write]
  split
  · simp
  · exact h

@[simp] theorem write_nil (m : Memory w β) (a : BitVec w) :
    m.write a [] = m := by
  funext x
  simp [write]

theorem write_append {m : Memory w β} {a : BitVec w} {xs ys : List β}
    (h : xs.length + ys.length ≤ 2 ^ w) :
    m.write a (xs ++ ys) =
      (m.write a xs).write (a + BitVec.ofNat w xs.length) ys := by
  funext x
  by_cases hx : x ∈ span a (xs ++ ys).length
  · obtain ⟨i, hi, hlt, rfl⟩ := eq_offset_of_mem_span hx
    rw [List.length_append] at hi
    rw [write_offset (by simpa using h) (by simpa using hi)]
    rcases Nat.lt_or_ge i xs.length with hxs | hys
    · have hout : a + BitVec.ofNat w i ∉
          span (a + BitVec.ofNat w xs.length) ys.length := by
        intro hmem
        obtain ⟨j, hj, _, heq⟩ := eq_offset_of_mem_span hmem
        rw [BitVec.add_assoc, ← BitVec.ofNat_add] at heq
        have := offset_injective hlt (by omega) heq
        omega
      rw [write_of_not_mem hout, write_offset (by omega) hxs,
        List.getElem_append_left hxs]
    · obtain ⟨j, rfl⟩ : ∃ j, i = xs.length + j := ⟨i - xs.length, by omega⟩
      rw [BitVec.ofNat_add, ← BitVec.add_assoc,
        write_offset (by omega) (by omega), List.getElem_append_right (by omega)]
      simp
  · rw [write_of_not_mem hx, write_of_not_mem, write_of_not_mem]
    · exact fun hmem => hx (span_mono (by simp) hmem)
    · intro hmem
      exact hx (span_offset_subset (by simp) (by simpa using h) hmem)

theorem write_congr {m m' : Memory w β} {a x : BitVec w} {cells : List β}
    (h : x ∉ span a cells.length → m x = m' x) :
    m.write a cells x = m'.write a cells x := by
  by_cases hx : x ∈ span a cells.length
  · simp only [write]
    rw [List.getElem?_eq_getElem hx]
  · rw [write_of_not_mem hx, write_of_not_mem hx, h hx]

theorem write_restore {m m' : Memory w β} {a x : BitVec w} {cells : List β}
    (h : m.Holds a cells)
    (hagree : x ∉ span a cells.length → m' x = m x) :
    m'.write a cells x = m x := by
  by_cases hx : x ∈ span a cells.length
  · obtain ⟨i, hi, hlt, rfl⟩ := eq_offset_of_mem_span hx
    simp only [write]
    rw [offset_toNat hlt, List.getElem?_eq_getElem hi]
    exact (h i hi).symm
  · rw [write_of_not_mem hx, hagree hx]

theorem write_comm {m : Memory w β} {a b : BitVec w} {xs ys : List β}
    (h : Disjoint (span a xs.length) (span b ys.length)) :
    (m.write a xs).write b ys = (m.write b ys).write a xs := by
  funext x
  by_cases hx : x ∈ span a xs.length
  · have hy := Set.disjoint_left.mp h hx
    rw [write_of_not_mem hy]
    obtain ⟨i, hi, hlt, rfl⟩ := eq_offset_of_mem_span hx
    simp only [write]
    rw [offset_toNat hlt, List.getElem?_eq_getElem hi]
  · rw [write_of_not_mem (m := m.write b ys) hx]
    by_cases hy : x ∈ span b ys.length
    · obtain ⟨i, hi, hlt, rfl⟩ := eq_offset_of_mem_span hy
      simp only [write]
      rw [offset_toNat hlt, List.getElem?_eq_getElem hi]
    · rw [write_of_not_mem hy, write_of_not_mem hx, write_of_not_mem hy]

/-! ## Mapping and replacing -/

def map (m : Memory w β) (a : BitVec w) (n : Nat) (cell : β) : Memory w β :=
  fun x => if x ∈ span a n then some cell else m x

def replace (m : Memory w β) (a : BitVec w) (n : Nat)
    (cells : BitVec w → Option β) : Memory w β :=
  fun x => if x ∈ span a n then cells x else m x

def Unmapped (m : Memory w β) (a : BitVec w) (n : Nat) : Prop :=
  ∀ x ∈ span a n, m x = none

def isUnmapped (m : Memory w β) (a : BitVec w) : Nat → Bool
  | 0 => true
  | n + 1 => (m a).isNone && isUnmapped m (a + 1) n

theorem isUnmapped_offset {m : Memory w β} {a : BitVec w} {n i : Nat}
    (h : m.isUnmapped a n = true) (hi : i < n) :
    m (a + BitVec.ofNat w i) = none := by
  induction n generalizing a i with
  | zero => omega
  | succ n ih =>
      simp only [isUnmapped, Bool.and_eq_true, Option.isNone_iff_eq_none] at h
      cases i with
      | zero => simpa using h.1
      | succ i =>
          rw [← succ_offset]
          exact ih h.2 (by omega)

theorem unmapped_of_isUnmapped {m : Memory w β} {a : BitVec w} {n : Nat}
    (h : m.isUnmapped a n = true) : m.Unmapped a n := by
  intro x hx
  obtain ⟨i, hi, _, rfl⟩ := eq_offset_of_mem_span hx
  exact isUnmapped_offset h hi

theorem map_of_not_mem {m : Memory w β} {a x : BitVec w} {n : Nat} {cell : β}
    (h : x ∉ span a n) : m.map a n cell x = m x := by
  simp [map, h]

theorem replace_of_not_mem {m : Memory w β} {a x : BitVec w} {n : Nat}
    {cells : BitVec w → Option β} (h : x ∉ span a n) :
    m.replace a n cells x = m x := by
  simp [replace, h]

/-! ## Mapped cells -/

def SameMapped (m m' : Memory w β) : Prop := ∀ x, m' x = none ↔ m x = none

theorem SameMapped.refl (m : Memory w β) : m.SameMapped m := fun _ => .rfl

theorem SameMapped.trans {m₁ m₂ m₃ : Memory w β} (h : m₁.SameMapped m₂)
    (h' : m₂.SameMapped m₃) : m₁.SameMapped m₃ :=
  fun x => (h' x).trans (h x)

theorem SameMapped.readable_length {m m' : Memory w β} (h : m.SameMapped m')
    (a : BitVec w) (n : Nat) :
    (m'.readable a n).length = (m.readable a n).length := by
  induction n generalizing a with
  | zero => rfl
  | succ n ih =>
      have ha := h a
      cases hm : m a with
      | none => simp [readable, hm, ha.mpr hm]
      | some cell =>
          cases hm' : m' a with
          | none => simp [ha.mp hm'] at hm
          | some cell' => simp [readable, hm, hm', ih]

theorem SameMapped.isUnmapped {m m' : Memory w β} (h : m.SameMapped m')
    (a : BitVec w) (n : Nat) : m'.isUnmapped a n = m.isUnmapped a n := by
  induction n generalizing a with
  | zero => rfl
  | succ n ih =>
      have ha : (m' a).isNone = (m a).isNone := by
        rw [Bool.eq_iff_iff, Option.isNone_iff_eq_none,
          Option.isNone_iff_eq_none]
        exact h a
      simp only [Memory.isUnmapped, ha, ih]

theorem length_readable_le (m : Memory w β) (a : BitVec w) (n : Nat) :
    (m.readable a n).length ≤ n := by
  induction n generalizing a with
  | zero => exact Nat.le_refl 0
  | succ n ih =>
      unfold readable
      split
      · exact Nat.zero_le _
      · exact Nat.succ_le_succ (ih (a + 1))

theorem readable_prefix {m m' : Memory w β} {a : BitVec w} {n k : Nat}
    (hk : k ≤ (m.readable a n).length)
    (h : ∀ i < k, m' (a + BitVec.ofNat w i) = m (a + BitVec.ofNat w i)) :
    k ≤ (m'.readable a n).length ∧
      ∀ i < k, (m'.readable a n)[i]? = (m.readable a n)[i]? := by
  induction n generalizing a k with
  | zero => exact ⟨hk, fun _ _ => rfl⟩
  | succ n ih =>
      cases k with
      | zero => exact ⟨Nat.zero_le _, by simp⟩
      | succ k =>
          cases hm : m a with
          | none => simp [readable, hm] at hk
          | some cell =>
              have hm' : m' a = some cell := by
                have hhead := h 0 (by omega)
                rwa [BitVec.add_zero, hm] at hhead
              simp only [readable, hm, List.length_cons,
                Nat.add_le_add_iff_right] at hk
              obtain ⟨hlen, hget⟩ := ih hk fun i hi => by
                rw [succ_offset]
                exact h (i + 1) (by omega)
              simp only [readable, hm, hm', List.length_cons,
                Nat.add_le_add_iff_right]
              refine ⟨hlen, fun i hi => ?_⟩
              cases i with
              | zero => rfl
              | succ i => simpa using hget i (by omega)

theorem readable_of_holds {m : Memory w β} {a : BitVec w} {cells : List β}
    {n : Nat} (h : m.Holds a cells) (hn : cells.length ≤ n) :
    ∃ rest, m.readable a n = cells ++ rest := by
  induction cells generalizing a n with
  | nil => exact ⟨m.readable a n, rfl⟩
  | cons cell cells ih =>
      obtain ⟨hcell, hcells⟩ := holds_cons.mp h
      obtain ⟨n, rfl⟩ : ∃ k, n = k + 1 := by
        rw [List.length_cons] at hn
        exact ⟨n - 1, by omega⟩
      obtain ⟨rest, hrest⟩ := ih hcells (Nat.le_of_succ_le_succ hn)
      refine ⟨rest, ?_⟩
      simp only [readable, hcell, hrest, List.cons_append]

theorem mapped_of_readable {m : Memory w β} {a : BitVec w} {n k : Nat}
    (h : k ≤ (m.readable a n).length) : ∀ x ∈ span a k, m x ≠ none := by
  intro x hx
  obtain ⟨i, hi, -, rfl⟩ := eq_offset_of_mem_span hx
  have hlt := lt_of_lt_of_le hi h
  clear hx h hi
  induction n generalizing a i with
  | zero => exact absurd hlt (Nat.not_lt_zero _)
  | succ n ih =>
      cases hm : m a with
      | none => simp [readable, hm] at hlt
      | some cell =>
          cases i with
          | zero => simp [hm]
          | succ i =>
              rw [← succ_offset]
              exact ih i (by simpa [readable, hm] using hlt)

theorem exists_read_of_mapped {m : Memory w β} {a : BitVec w} {n : Nat}
    (h : ∀ i < n, m (a + BitVec.ofNat w i) ≠ none) :
    ∃ cells, m.read a n = some cells := by
  induction n generalizing a with
  | zero => exact ⟨[], rfl⟩
  | succ n ih =>
      obtain ⟨cells, hcells⟩ := ih fun i hi => by
        rw [succ_offset]
        exact h (i + 1) (by omega)
      have hhead := h 0 (by omega)
      rw [BitVec.add_zero] at hhead
      obtain ⟨cell, hcell⟩ := Option.ne_none_iff_exists'.mp hhead
      obtain ⟨hlen, hholds⟩ := read_eq_some_iff.mp hcells
      exact ⟨cell :: cells, read_eq_some_iff.mpr
        ⟨congrArg Nat.succ hlen, holds_cons.mpr ⟨hcell, hholds⟩⟩⟩

theorem sameMapped_write {m : Memory w β} {a : BitVec w} {cells : List β}
    (h : ∀ x ∈ span a cells.length, m x ≠ none) :
    m.SameMapped (m.write a cells) := by
  intro x
  by_cases hx : x ∈ span a cells.length
  · have hmapped := h x hx
    exact ⟨fun hnone => absurd hnone (write_mapped hmapped),
      fun hnone => absurd hnone hmapped⟩
  · rw [write_of_not_mem hx]

/-! ## Restriction -/

def restrict (m : Memory w β) (region : Set (BitVec w))
    [DecidablePred (· ∈ region)] : Memory w β :=
  fun x => if x ∈ region then m x else none

theorem restrict_of_mem {m : Memory w β} {region : Set (BitVec w)}
    [DecidablePred (· ∈ region)] {x : BitVec w} (h : x ∈ region) :
    m.restrict region x = m x := by
  simp [restrict, h]

theorem restrict_of_not_mem {m : Memory w β} {region : Set (BitVec w)}
    [DecidablePred (· ∈ region)] {x : BitVec w} (h : x ∉ region) :
    m.restrict region x = none := by
  simp [restrict, h]

theorem restrict_le {m : Memory w β} {region : Set (BitVec w)}
    [DecidablePred (· ∈ region)] {x : BitVec w} {cell : β}
    (h : m.restrict region x = some cell) : m x = some cell := by
  by_cases hx : x ∈ region
  · rwa [restrict_of_mem hx] at h
  · simp [restrict_of_not_mem hx] at h

end Memory

end Ztour.Foundation
