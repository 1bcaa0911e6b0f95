import Mathlib.Tactic

/-!
# Ledgers of resources

A ledger lists which resources a run acquires and releases, each acquired from
a source and released to a sink.  It is paired when every release is of a
resource that is held then and goes to a sink that fits its source.
-/

namespace Ztour.Foundation

inductive Entry (P A D : Type) where
  | acquire (ptr : P) (source : A)
  | release (ptr : P) (sink : D)
  deriving DecidableEq, Repr

section Ledger

variable {P A D : Type} [DecidableEq P]

def Entry.apply (held : List (P × A)) : Entry P A D → List (P × A)
  | .acquire ptr source => (ptr, source) :: held
  | .release ptr _ => held.filter fun resource => resource.1 ≠ ptr

def heldAfter (held : List (P × A)) (ledger : List (Entry P A D)) :
    List (P × A) :=
  ledger.foldl Entry.apply held

def Paired (fits : A → D → Prop) : List (P × A) → List (Entry P A D) → Prop
  | _, [] => True
  | held, .acquire ptr source :: rest =>
      Paired fits ((ptr, source) :: held) rest
  | held, .release ptr sink :: rest =>
      (∃ source, (ptr, source) ∈ held ∧ fits source sink) ∧
        Paired fits (held.filter fun resource => resource.1 ≠ ptr) rest

variable {fits : A → D → Prop} {held : List (P × A)}

theorem heldAfter_append (l₁ l₂ : List (Entry P A D)) :
    heldAfter held (l₁ ++ l₂) = heldAfter (heldAfter held l₁) l₂ :=
  List.foldl_append

theorem paired_append (l₁ l₂ : List (Entry P A D)) :
    Paired fits held (l₁ ++ l₂) ↔
      Paired fits held l₁ ∧ Paired fits (heldAfter held l₁) l₂ := by
  induction l₁ generalizing held with
  | nil => simp [Paired, heldAfter]
  | cons entry rest ih =>
      cases entry with
      | acquire ptr source =>
          simp only [List.cons_append, Paired, ih]
          rfl
      | release ptr sink =>
          simp only [List.cons_append, Paired, ih, and_assoc]
          rfl

omit [DecidableEq P] in
theorem source_unique (h : (held.map Prod.fst).Nodup) {ptr : P} {a b : A}
    (ha : (ptr, a) ∈ held) (hb : (ptr, b) ∈ held) : a = b := by
  have heq := List.inj_on_of_nodup_map h ha hb rfl
  exact congrArg Prod.snd heq

theorem paired_release_iff (h : (held.map Prod.fst).Nodup) {ptr : P}
    {source : A} {sink : D} (hheld : (ptr, source) ∈ held) :
    Paired fits held [.release ptr sink] ↔ fits source sink := by
  simp only [Paired, and_true]
  constructor
  · rintro ⟨other, hother, hfits⟩
    rwa [source_unique h hheld hother]
  · intro hfits
    exact ⟨source, hheld, hfits⟩

end Ledger

end Ztour.Foundation
