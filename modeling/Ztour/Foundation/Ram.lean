import Ztour.Foundation.ByteMemory
import Ztour.Foundation.Bytes
import Mathlib.Data.List.GetD

/-!
# Memories without gaps

Every address of such a memory holds a cell, so that no access fails.  Loads
and stores wrap like the ranges of `span`.
-/

namespace Ztour.Foundation

abbrev Ram (w : Nat) (β : Type) := BitVec w → β

namespace Ram

section Cells

variable {w : Nat} {β : Type}

def load (r : Ram w β) (a : BitVec w) (n : Nat) : List β :=
  (List.range n).map fun i => r (a + BitVec.ofNat w i)

def store (r : Ram w β) (a : BitVec w) (cells : List β) : Ram w β :=
  fun x => cells.getD (x - a).toNat (r x)

variable {r r' : Ram w β} {a b x : BitVec w} {n : Nat} {cells : List β}

@[simp] theorem length_load : (r.load a n).length = n := by
  simp [load]

theorem store_of_not_mem (h : x ∉ span a cells.length) :
    r.store a cells x = r x := by
  rw [mem_span, Nat.not_lt] at h
  exact List.getD_eq_default _ _ h

theorem store_offset {i : Nat} (hlen : cells.length ≤ 2 ^ w)
    (hi : i < cells.length) :
    r.store a cells (a + BitVec.ofNat w i) = cells[i] := by
  unfold store
  rw [offset_toNat (by omega), List.getD_eq_getElem _ _ hi]

theorem load_store_self (r : Ram w β) (a : BitVec w)
    (h : cells.length ≤ 2 ^ w) :
    (r.store a cells).load a cells.length = cells := by
  apply List.ext_getElem length_load
  intro i hi _
  simp only [load, List.getElem_map, List.getElem_range]
  exact store_offset h (by simpa using hi)

theorem load_congr (hn : n ≤ 2 ^ w) (h : ∀ x ∈ span a n, r' x = r x) :
    r'.load a n = r.load a n := by
  apply List.map_congr_left
  intro i hi
  exact h _ (offset_mem_span (List.mem_range.mp hi) hn)

theorem load_store_disjoint (hn : n ≤ 2 ^ w)
    (h : Disjoint (span a n) (span b cells.length)) :
    (r.store b cells).load a n = r.load a n :=
  load_congr hn fun _ hx => store_of_not_mem (Set.disjoint_left.mp h hx)

end Cells

/-! ## Words of eight bytes -/

section Words

variable {r : Ram 64 Byte} {a b : BitVec 64}

def loadWord (r : Ram 64 Byte) (a : BitVec 64) : BitVec 64 :=
  leWord 64 (r.load a 8)

def storeWord (r : Ram 64 Byte) (a value : BitVec 64) : Ram 64 Byte :=
  r.store a (leBytes 8 value.toNat)

theorem storeWord_of_not_mem {x value : BitVec 64} (h : x ∉ span a 8) :
    r.storeWord a value x = r x :=
  store_of_not_mem (by rwa [length_leBytes])

theorem loadWord_storeWord (value : BitVec 64) :
    (r.storeWord a value).loadWord a = value := by
  have hlen : (leBytes 8 value.toNat).length ≤ 2 ^ 64 := by
    rw [length_leBytes]
    decide
  have hload := load_store_self r a hlen
  rw [length_leBytes] at hload
  rw [loadWord, storeWord, hload, leWord_leBytes_toNat _ (by rfl)]

theorem loadWord_storeWord_disjoint (value : BitVec 64)
    (h : Disjoint (span a 8) (span b 8)) :
    (r.storeWord b value).loadWord a = r.loadWord a := by
  unfold loadWord storeWord
  rw [load_store_disjoint (by decide) (by rwa [length_leBytes])]

end Words

end Ram

end Ztour.Foundation
