import Ztour.Foundation.TransitionSystem

/-!
# Runs that come to an end

If every step of a kind lowers a rank, no run of such steps is longer than the
rank.  If moreover some step is possible wherever the work is not done, every
run that cannot go on has done it.
-/

namespace Ztour.Foundation

universe u v

open TransitionSystem

/-- Steps that satisfy `only` keep `inv` and lower `rank`, and for as long as
the state is not `done` there is one that satisfies `forced`. -/
structure Progressing {σ : Type u} {α : Type v} (next : σ → α → Option σ)
    (only forced : α → Prop) (inv done : σ → Prop) (rank : σ → Nat) : Prop where
  keeps : ∀ s a s', inv s → only a → next s a = some s' → inv s'
  lowers : ∀ s a s', inv s → only a → next s a = some s' → rank s' < rank s
  moves : ∀ s, inv s → ¬ done s → ∃ a s', forced a ∧ next s a = some s'

namespace Progressing

variable {σ : Type u} {α : Type v} {next : σ → α → Option σ}
  {only forced : α → Prop} {inv done : σ → Prop} {rank : σ → Nat} {s s' : σ}
  {actions : List α}

theorem replay (h : Progressing next only forced inv done rank) (hs : inv s)
    (honly : ∀ a ∈ actions, only a)
    (hreplay : TransitionSystem.replay next s actions = some s') :
    inv s' ∧ actions.length + rank s' ≤ rank s := by
  induction actions generalizing s with
  | nil =>
      cases hreplay
      exact ⟨hs, by simp⟩
  | cons a rest ih =>
      rw [List.forall_mem_cons] at honly
      obtain ⟨s₁, hstep, hrest⟩ := Option.bind_eq_some_iff.mp hreplay
      have hlower := h.lowers s a s₁ hs honly.1 hstep
      obtain ⟨hinv, hle⟩ := ih (h.keeps s a s₁ hs honly.1 hstep) honly.2 hrest
      refine ⟨hinv, ?_⟩
      rw [List.length_cons]
      omega

theorem done_of_stuck (h : Progressing next only forced inv done rank)
    (hs : inv s) (hstuck : ∀ a, forced a → next s a = none) : done s := by
  by_contra hnot
  obtain ⟨a, s', hforced, hstep⟩ := h.moves s hs hnot
  rw [hstuck a hforced] at hstep
  cases hstep

end Progressing

end Ztour.Foundation
