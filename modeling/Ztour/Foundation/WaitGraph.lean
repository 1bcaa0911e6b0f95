import Mathlib.Data.Set.Basic

/-!
# Wait-for graphs

Who waits for whom.  In a deadlock everybody waits for somebody else in it, or
for itself.
-/

namespace Ztour.Foundation

variable {α : Type} {waits waits' : α → α → Prop} {T : Set α}

/-- Everybody in the set waits for somebody in it. -/
def Deadlocked (waits : α → α → Prop) (T : Set α) : Prop :=
  T.Nonempty ∧ ∀ x ∈ T, ∃ y ∈ T, waits x y

theorem Deadlocked.not_mem {x : α} (h : Deadlocked waits T)
    (hx : ∀ y, ¬ waits x y) : x ∉ T := by
  intro hmem
  obtain ⟨y, -, hxy⟩ := h.2 x hmem
  exact hx y hxy

/-- Waiting for one that waits for nobody is no part of a deadlock. -/
theorem Deadlocked.restrict (h : Deadlocked waits T)
    (hwaits : ∀ x ∈ T, ∀ y, waits x y → (∃ z, waits y z) → waits' x y) :
    Deadlocked waits' T := by
  refine ⟨h.1, fun x hx => ?_⟩
  obtain ⟨y, hy, hxy⟩ := h.2 x hx
  obtain ⟨z, -, hyz⟩ := h.2 y hy
  exact ⟨y, hy, hwaits x hx y hxy ⟨z, hyz⟩⟩

theorem Deadlocked.mono (h : Deadlocked waits T)
    (hmono : ∀ x ∈ T, ∀ y ∈ T, waits x y → waits' x y) :
    Deadlocked waits' T := by
  obtain ⟨hne, hwaits⟩ := h
  refine ⟨hne, fun x hx => ?_⟩
  obtain ⟨y, hy, hxy⟩ := hwaits x hx
  exact ⟨y, hy, hmono x hx y hy hxy⟩

end Ztour.Foundation
