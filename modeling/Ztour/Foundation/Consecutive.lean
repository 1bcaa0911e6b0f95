import Ztour.Foundation.ByteMemory

/-!
# Consecutive pieces of a memory

Lists of cells that are placed one behind the other.  As long as they fit into
the address space they do not meet, and a memory holds all of them exactly when
appending one leaves the earlier ones alone.
-/

namespace Ztour.Foundation

variable {w : Nat} {β : Type}

structure Placed (w : Nat) (β : Type) where
  start : BitVec w
  cells : List β

namespace Placed

def range (p : Placed w β) : Set (BitVec w) := span p.start p.cells.length

def total (pieces : List (Placed w β)) : Nat :=
  (pieces.map (·.cells.length)).sum

@[simp] theorem total_nil : total ([] : List (Placed w β)) = 0 := rfl

@[simp] theorem total_cons (p : Placed w β) (pieces : List (Placed w β)) :
    total (p :: pieces) = p.cells.length + total pieces := rfl

@[simp] theorem total_append (xs ys : List (Placed w β)) :
    total (xs ++ ys) = total xs + total ys := by
  simp [total]

theorem length_le_total {p : Placed w β} {pieces : List (Placed w β)}
    (hp : p ∈ pieces) : p.cells.length ≤ total pieces :=
  List.single_le_sum (fun _ _ => Nat.zero_le _) _
    (List.mem_map_of_mem (f := fun q : Placed w β => q.cells.length) hp)

end Placed

open Placed (total)

/-- The first piece starts at `a`, and each other one where the one before it
ends. -/
def Consecutive (a : BitVec w) : List (Placed w β) → Prop
  | [] => True
  | p :: rest =>
      p.start = a ∧ Consecutive (a + BitVec.ofNat w p.cells.length) rest

variable {a : BitVec w} {xs ys : List (Placed w β)} {p : Placed w β}

theorem consecutive_append :
    Consecutive a (xs ++ ys) ↔
      Consecutive a xs ∧ Consecutive (a + BitVec.ofNat w (total xs)) ys := by
  induction xs generalizing a with
  | nil => simp [Consecutive]
  | cons x xs ih =>
      rw [List.cons_append, Consecutive, Consecutive, ih, and_assoc,
        Placed.total_cons, BitVec.ofNat_add, BitVec.add_assoc]

theorem Consecutive.subset (h : Consecutive a xs) (hmax : total xs ≤ 2 ^ w) :
    ∀ p ∈ xs, p.range ⊆ span a (total xs) := by
  induction xs generalizing a with
  | nil => simp
  | cons x xs ih =>
      obtain ⟨rfl, hrest⟩ := h
      rw [Placed.total_cons] at hmax ⊢
      intro p hp
      rcases List.mem_cons.mp hp with rfl | hp
      · exact span_mono (Nat.le_add_right _ _)
      · have htail := ih hrest (by omega) p hp
        exact htail.trans (span_offset_subset le_rfl hmax)

theorem Consecutive.disjoint (h : Consecutive a xs) (hmax : total xs ≤ 2 ^ w) :
    xs.Pairwise fun p q => Disjoint p.range q.range := by
  induction xs generalizing a with
  | nil => exact .nil
  | cons x xs ih =>
      obtain ⟨rfl, hrest⟩ := h
      rw [Placed.total_cons] at hmax
      refine .cons ?_ (ih hrest (by omega))
      intro p hp
      have hbehind := hrest.subset (by omega) p hp
      have hapart : Disjoint (span (x.start + BitVec.ofNat w 0) x.cells.length)
          (span (x.start + BitVec.ofNat w x.cells.length) (total xs)) :=
        disjoint_span_offset (by omega) hmax
      rw [BitVec.add_zero] at hapart
      exact hapart.mono_right hbehind

theorem Consecutive.holds_write {m : Memory w β}
    (h : Consecutive a (xs ++ [p])) (hmax : total (xs ++ [p]) ≤ 2 ^ w)
    (hheld : ∀ q ∈ xs, m.Holds q.start q.cells) :
    ∀ q ∈ xs ++ [p], (m.write p.start p.cells).Holds q.start q.cells := by
  have hlen : total xs + p.cells.length ≤ 2 ^ w := by simpa using hmax
  have hapart := (List.pairwise_append.mp (h.disjoint hmax)).2.2
  intro q hq
  rcases List.mem_append.mp hq with hq | hq
  · have hdisjoint := hapart q hq p (by simp)
    have hshort : q.cells.length ≤ 2 ^ w := by
      have hle := Placed.length_le_total hq
      omega
    exact (hheld q hq).write_disjoint hshort hdisjoint
  · rw [List.mem_singleton.mp hq]
    exact Memory.holds_write (by omega)

end Ztour.Foundation
