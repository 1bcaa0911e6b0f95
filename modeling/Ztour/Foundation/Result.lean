import Mathlib.Tactic

/-!
# Computations that may fail

The bind of two failing computations succeeds exactly when both do.  Folds over
a list follow by induction.
-/

namespace Ztour.Foundation

universe u v

variable {ε : Type u} {α β : Type v}

@[simp] theorem ok_bind (a : α) (f : α → Except ε β) :
    (Except.ok a >>= f) = f a := rfl

@[simp] theorem error_bind (e : ε) (f : α → Except ε β) :
    (Except.error e >>= f) = .error e := rfl

theorem bind_eq_ok {x : Except ε α} {f : α → Except ε β} {b : β} :
    (x >>= f) = .ok b ↔ ∃ a, x = .ok a ∧ f a = .ok b := by
  cases x with
  | error e => simp
  | ok a => simp

theorem eq_mk_of_fst {x : α × β} {a : α} (h : x.1 = a) : x = (a, x.2) := by
  cases x
  cases h
  rfl

/-! ## Which errors may occur -/

def FailsWith (E : ε → Prop) (x : Except ε α) : Prop :=
  ∀ e, x = .error e → E e

section FailsWith

variable {E : ε → Prop}

theorem FailsWith.ok (a : α) : FailsWith E (.ok a) := by
  intro e h
  cases h

theorem FailsWith.error {e : ε} (h : E e) :
    FailsWith E (.error e : Except ε α) := by
  intro e' h'
  cases h'
  exact h

theorem FailsWith.bind {x : Except ε α} {f : α → Except ε β}
    (hx : FailsWith E x) (hf : ∀ a, x = .ok a → FailsWith E (f a)) :
    FailsWith E (x >>= f) := by
  cases x with
  | error e => exact .error (hx e rfl)
  | ok a => exact hf a rfl

theorem FailsWith.foldlM {f : β → α → Except ε β} {xs : List α} {b : β}
    (h : ∀ a b, FailsWith E (f b a)) : FailsWith E (xs.foldlM f b) := by
  induction xs generalizing b with
  | nil => exact .ok b
  | cons x xs ih =>
      rw [List.foldlM_cons]
      exact (h x b).bind fun _ _ => ih

end FailsWith

theorem foldlM_eq_ok {f : β → α → Except ε β} {g : β → α → β}
    {good : α → Prop} {xs : List α}
    (hstep : ∀ a ∈ xs, ∀ b b', f b a = .ok b' ↔ good a ∧ b' = g b a)
    {b b' : β} :
    xs.foldlM f b = .ok b' ↔ (∀ a ∈ xs, good a) ∧ b' = xs.foldl g b := by
  induction xs generalizing b with
  | nil =>
      simp only [List.foldlM_nil, List.foldl_nil, List.not_mem_nil,
        false_imp_iff, implies_true, true_and]
      exact ⟨fun h => (Except.ok.inj h).symm, fun h => h ▸ rfl⟩
  | cons x xs ih =>
      have hhead := hstep x List.mem_cons_self
      have htail := fun a ha => hstep a (List.mem_cons_of_mem x ha)
      rw [List.foldlM_cons, bind_eq_ok, List.foldl_cons, List.forall_mem_cons]
      constructor
      · rintro ⟨c, hc, hrest⟩
        obtain ⟨hgood, rfl⟩ := (hhead _ _).mp hc
        obtain ⟨hall, hres⟩ := (ih htail).mp hrest
        exact ⟨⟨hgood, hall⟩, hres⟩
      · rintro ⟨⟨hgood, hall⟩, hres⟩
        exact ⟨g b x, (hhead _ _).mpr ⟨hgood, rfl⟩,
          (ih htail).mpr ⟨hall, hres⟩⟩

/-! ## Mapping over a list -/

theorem mapM_eq_ok_map {f : α → Except ε β} {g : α → β} {xs : List α}
    (h : ∀ a ∈ xs, f a = .ok (g a)) : xs.mapM f = .ok (xs.map g) := by
  induction xs with
  | nil => rfl
  | cons x xs ih =>
      obtain ⟨hhead, htail⟩ := List.forall_mem_cons.mp h
      rw [List.mapM_cons, hhead, ih htail]
      rfl

theorem exists_mapM_eq_ok {f : α → Except ε β} {xs : List α} :
    (∃ ys, xs.mapM f = .ok ys) ↔ ∀ a ∈ xs, ∃ b, f a = .ok b := by
  induction xs with
  | nil => exact ⟨fun _ => by simp, fun _ => ⟨[], rfl⟩⟩
  | cons x xs ih =>
      rw [List.forall_mem_cons, ← ih]
      simp only [List.mapM_cons, bind_eq_ok]
      constructor
      · rintro ⟨ys, b, hb, bs, hbs, -⟩
        exact ⟨⟨b, hb⟩, bs, hbs⟩
      · rintro ⟨⟨b, hb⟩, bs, hbs⟩
        exact ⟨b :: bs, b, hb, bs, hbs, rfl⟩

theorem exists_of_mem_mapM {f : α → Except ε β} {xs : List α} {ys : List β}
    (h : xs.mapM f = .ok ys) : ∀ b ∈ ys, ∃ a ∈ xs, f a = .ok b := by
  induction xs generalizing ys with
  | nil =>
      cases h
      simp
  | cons x xs ih =>
      rw [List.mapM_cons] at h
      obtain ⟨y, hy, h⟩ := bind_eq_ok.mp h
      obtain ⟨rest, hrest, h⟩ := bind_eq_ok.mp h
      cases h
      intro b hb
      rcases List.mem_cons.mp hb with rfl | hb
      · exact ⟨x, List.mem_cons_self, hy⟩
      · obtain ⟨a, ha, hab⟩ := ih hrest b hb
        exact ⟨a, List.mem_cons_of_mem x ha, hab⟩

end Ztour.Foundation
