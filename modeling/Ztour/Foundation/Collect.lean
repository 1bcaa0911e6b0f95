import Ztour.Foundation.Result

/-!
# Filtering with a test that may fail

`collect` keeps the elements that a test accepts and ends with the first
failure.  If only the last element can fail, leaving out elements changes the
result exactly when one of them is not rejected.
-/

namespace Ztour.Foundation

universe u

variable {ε : Type u} {α : Type} {test : α → Except ε Bool}

def collect (test : α → Except ε Bool) : List α → Except ε (List α)
  | [] => .ok []
  | x :: xs =>
      match test x, collect test xs with
      | .error e, _ => .error e
      | .ok _, .error e => .error e
      | .ok accepted, .ok rest => .ok (if accepted then x :: rest else rest)

theorem collect_append (xs ys : List α) :
    collect test (xs ++ ys) =
      collect test xs >>= fun as => collect test ys >>= fun bs =>
        .ok (as ++ bs) := by
  induction xs with
  | nil => cases h : collect test ys <;> simp [collect, h]
  | cons x xs ih =>
      rw [List.cons_append, collect, collect, ih]
      cases test x with
      | error e => rfl
      | ok accepted =>
          cases collect test xs with
          | error e => rfl
          | ok as =>
              cases collect test ys with
              | error e => rfl
              | ok bs => cases accepted <;> rfl

theorem collect_eq_filter {q : α → Bool} {xs : List α}
    (h : ∀ x ∈ xs, test x = .ok (q x)) :
    collect test xs = .ok (xs.filter q) := by
  induction xs with
  | nil => rfl
  | cons x xs ih =>
      obtain ⟨hx, hxs⟩ := List.forall_mem_cons.mp h
      rw [collect, hx, ih hxs, List.filter_cons]

theorem collect_singleton (x : α) :
    collect test [x] =
      test x >>= fun accepted => .ok (if accepted then [x] else []) := by
  cases h : test x <;> simp [collect, h]

theorem bind_ok_injective {β γ : Type} {x y : Except ε β} {g : β → γ}
    (hg : Function.Injective g) :
    ((x >>= fun a => .ok (g a)) = y >>= fun a => .ok (g a)) ↔ x = y := by
  cases x with
  | error e => cases y <;> simp
  | ok a =>
      cases y with
      | error e => simp
      | ok b => simp [hg.eq_iff]

/-! ## Leaving out elements -/

theorem filter_filter_eq_iff {p q : α → Bool} {xs : List α} :
    (xs.filter p).filter q = xs.filter q ↔
      ∀ x ∈ xs, q x = true → p x = true := by
  constructor
  · intro h x hx hq
    have hmem : x ∈ (xs.filter p).filter q :=
      h ▸ List.mem_filter.mpr ⟨hx, hq⟩
    exact (List.mem_filter.mp (List.mem_filter.mp hmem).1).2
  · intro h
    rw [List.filter_filter]
    apply List.filter_congr
    intro x hx
    cases hq : q x with
    | false => rfl
    | true => simpa using h x hx hq

theorem collect_total {xs : List α}
    (h : ∀ x ∈ xs, ∃ accepted, test x = .ok accepted) :
    collect test xs = .ok (xs.filter fun x => (test x).toOption.getD false) := by
  apply collect_eq_filter
  intro x hx
  obtain ⟨accepted, haccepted⟩ := h x hx
  rw [haccepted]
  rfl

theorem collect_filter_total {xs : List α} {kept : α → Bool}
    (h : ∀ x ∈ xs, ∃ accepted, test x = .ok accepted) :
    collect test (xs.filter kept) = collect test xs ↔
      ∀ x ∈ xs, ¬ kept x = true → test x = .ok false := by
  rw [collect_total h, collect_total fun x hx => h x (List.mem_of_mem_filter hx),
    Except.ok.injEq, filter_filter_eq_iff]
  refine forall₂_congr fun x hx => ?_
  obtain ⟨accepted, haccepted⟩ := h x hx
  cases accepted <;> simp [haccepted, Except.toOption]

theorem collect_append_error {xs : List α} {x : α} {e : ε}
    (h : ∀ y ∈ xs, ∃ accepted, test y = .ok accepted) (herror : test x = .error e) :
    collect test (xs ++ [x]) = .error e := by
  rw [collect_append, collect_total h, collect_singleton, herror]
  rfl

theorem collect_filter_eq_iff {xs : List α} {late : Option α} {kept : α → Bool}
    (h : ∀ x ∈ xs, ∃ accepted, test x = .ok accepted) :
    collect test ((xs ++ late.toList).filter kept) =
        collect test (xs ++ late.toList) ↔
      (∃ x ∈ late, kept x = true ∧ ∃ e, test x = .error e) ∨
        ∀ x ∈ xs ++ late.toList, ¬ kept x = true → test x = .ok false := by
  have hkeeps : ∀ x ∈ xs.filter kept, ∃ accepted, test x = .ok accepted :=
    fun x hx => h x (List.mem_of_mem_filter hx)
  by_cases hlate : ∃ x ∈ late, ∃ e, test x = .error e
  · obtain ⟨x, hx, e, herror⟩ := hlate
    obtain rfl : late = some x := hx
    rw [Option.toList_some, collect_append_error h herror, List.filter_append]
    by_cases hkept : kept x = true
    · have hfilter : [x].filter kept = [x] := by simp [hkept]
      rw [hfilter, collect_append_error hkeeps herror]
      exact iff_of_true rfl (.inl ⟨x, rfl, hkept, e, herror⟩)
    · have hfilter : [x].filter kept = [] := by simp [hkept]
      rw [hfilter, List.append_nil, collect_total hkeeps]
      refine iff_of_false (by simp) ?_
      rintro (⟨y, hy, hkept', -⟩ | hrejects)
      · cases hy
        exact hkept hkept'
      · rw [hrejects x (by simp) hkept] at herror
        cases herror
  · have hys : ∀ x ∈ xs ++ late.toList, ∃ accepted, test x = .ok accepted := by
      intro x hx
      rcases List.mem_append.mp hx with hx | hx
      · exact h x hx
      · cases hresult : test x with
        | ok accepted => exact ⟨accepted, rfl⟩
        | error e =>
            exact absurd ⟨x, Option.mem_toList.mp hx, e, hresult⟩ hlate
    rw [collect_filter_total hys]
    refine ⟨.inr, ?_⟩
    rintro (⟨x, hx, -, he⟩ | hrejects)
    · exact absurd ⟨x, hx, he⟩ hlate
    · exact hrejects

end Ztour.Foundation
