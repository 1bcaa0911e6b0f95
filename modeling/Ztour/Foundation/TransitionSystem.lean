import Mathlib.Tactic

/-!
# Labelled transition systems

A system is a set of initial states and a labelled step relation.  A safety
property of every run is proved once for the initial states and once for a
step; the rules here supply the inductions, also for runs whose steps all meet
a condition and for properties that hold back to the latest event of a kind.
-/

namespace Ztour.Foundation

universe u v

structure TransitionSystem (σ : Type u) (α : Type v) where
  init : σ → Prop
  step : σ → α → σ → Prop

structure Event (σ : Type u) (α : Type v) where
  before : σ
  action : α
  after : σ

namespace TransitionSystem

variable {σ : Type u} {α : Type v} (T : TransitionSystem σ α)

inductive ReachableUnder (cond : σ → α → σ → Prop) : σ → Prop
  | init {s} : T.init s → ReachableUnder cond s
  | step {s a s'} : ReachableUnder cond s → T.step s a s' → cond s a s' →
      ReachableUnder cond s'

def Reachable : σ → Prop := T.ReachableUnder fun _ _ _ => True

variable {T}

theorem ReachableUnder.invariant {cond : σ → α → σ → Prop} {I : σ → Prop}
    (hinit : ∀ s, T.init s → I s)
    (hstep : ∀ s a s', I s → T.step s a s' → cond s a s' → I s')
    {s : σ} (h : T.ReachableUnder cond s) : I s := by
  induction h with
  | init h => exact hinit _ h
  | step _ hs hc ih => exact hstep _ _ _ ih hs hc

theorem ReachableUnder.reachable {cond : σ → α → σ → Prop} {s : σ}
    (h : T.ReachableUnder cond s) : T.Reachable s := by
  induction h with
  | init h => exact .init h
  | step _ hs _ ih => exact .step ih hs trivial

/-! ## Runs with their histories -/

variable (T) in
/-- The state a run has reached, with its events, the latest first. -/
inductive Run : σ → List (Event σ α) → Prop
  | init {s} : T.init s → Run s []
  | step {s a s' history} : Run s history → T.step s a s' →
      Run s' (⟨s, a, s'⟩ :: history)

variable (T) in
def startingAt (s₀ : σ) : TransitionSystem σ α where
  init s := s = s₀
  step := T.step

/-- Every event back to the latest that satisfies `opens` satisfies `keeps`. -/
def Since (opens keeps : Event σ α → Prop) : List (Event σ α) → Prop
  | [] => True
  | event :: earlier => opens event ∨ (keeps event ∧ Since opens keeps earlier)

theorem Run.reachable {s : σ} {history : List (Event σ α)}
    (h : T.Run s history) : T.Reachable s := by
  induction h with
  | init h => exact .init h
  | step _ hs ih => exact .step ih hs trivial

theorem Run.reachableUnder {cond : σ → α → σ → Prop} {s : σ}
    {history : List (Event σ α)} (h : T.Run s history)
    (hcond : ∀ e ∈ history, cond e.before e.action e.after) :
    T.ReachableUnder cond s := by
  induction h with
  | init h => exact .init h
  | step _ hs ih =>
      obtain ⟨hlast, hearlier⟩ := List.forall_mem_cons.mp hcond
      exact .step (ih hearlier) hs hlast

/-- `P` holds since the latest event that opens it, on top of an invariant. -/
theorem Run.invariant_since {opens keeps : Event σ α → Prop} {I P : σ → Prop}
    (hinv : ∀ s, T.Reachable s → I s) (hinit : ∀ s, T.init s → P s)
    (hopens : ∀ s a s', I s → T.step s a s' → opens ⟨s, a, s'⟩ → P s')
    (hkeeps : ∀ s a s', I s → P s → T.step s a s' → keeps ⟨s, a, s'⟩ → P s')
    {s : σ} {history : List (Event σ α)} (h : T.Run s history)
    (hsince : Since opens keeps history) : P s := by
  induction h with
  | init h => exact hinit _ h
  | step hrun hs ih =>
      have hI := hinv _ hrun.reachable
      rcases hsince with hopen | ⟨hkeep, hearlier⟩
      · exact hopens _ _ _ hI hs hopen
      · exact hkeeps _ _ _ hI (ih hearlier) hs hkeep

/-- Some event satisfies `opens`, and every later event `keeps`. -/
def HeldSince (opens keeps : Event σ α → Prop) : List (Event σ α) → Prop
  | [] => False
  | event :: earlier =>
      opens event ∨ (keeps event ∧ HeldSince opens keeps earlier)

theorem Run.heldSince {opens keeps : Event σ α → Prop} {P : σ → Prop}
    (hinit : ∀ s, T.init s → ¬ P s)
    (hstep : ∀ s a s', T.Reachable s → T.step s a s' → P s' →
      opens ⟨s, a, s'⟩ ∨ (keeps ⟨s, a, s'⟩ ∧ P s))
    {s : σ} {history : List (Event σ α)} (h : T.Run s history) (hP : P s) :
    HeldSince opens keeps history := by
  induction h with
  | init h => exact absurd hP (hinit _ h)
  | step hrun hs ih =>
      rcases hstep _ _ _ hrun.reachable hs hP with hopen | ⟨hkeep, hbefore⟩
      · exact .inl hopen
      · exact .inr ⟨hkeep, ih hbefore⟩

/-! ## Simulation -/

/-- A system whose steps are matched by those of another one, or by none, has
the same runs up to the steps that are not matched. -/
theorem Run.simulate {τ : Type u} {β : Type v} {S : TransitionSystem τ β}
    {R : σ → τ → Prop} (matched : σ → α → Option β)
    (hinit : ∀ s, T.init s → ∃ t, S.init t ∧ R s t)
    (hstep : ∀ s a s' t, R s t → T.step s a s' → ∀ b, matched s a = some b →
      ∃ t', S.step t b t' ∧ R s' t')
    (hstutter : ∀ s a s' t, R s t → T.step s a s' → matched s a = none →
      R s' t)
    {s : σ} {history : List (Event σ α)} (h : T.Run s history) :
    ∃ t history', S.Run t history' ∧ R s t ∧ history'.map Event.action =
      history.filterMap fun e => matched e.before e.action := by
  induction h with
  | init h =>
      obtain ⟨t, ht, hR⟩ := hinit _ h
      exact ⟨t, [], .init ht, hR, rfl⟩
  | @step s a s' history hrun hs ih =>
      obtain ⟨t, history', hrun', hR, hactions⟩ := ih
      cases hmatched : matched s a with
      | none =>
          refine ⟨t, history', hrun', hstutter _ _ _ _ hR hs hmatched, ?_⟩
          simpa [hmatched] using hactions
      | some b =>
          obtain ⟨t', ht', hR'⟩ := hstep _ _ _ _ hR hs b hmatched
          refine ⟨t', _, .step hrun' ht', hR', ?_⟩
          simpa [hmatched] using hactions

/-! ## Systems whose steps are computed -/

def replay (next : σ → α → Option σ) : σ → List α → Option σ
  | s, [] => some s
  | s, a :: rest => (next s a).bind fun s' => replay next s' rest

theorem Run.replay {next : σ → α → Option σ}
    (hnext : ∀ s a s', next s a = some s' → T.step s a s') {s s' : σ}
    {history : List (Event σ α)} (h : T.Run s history) {actions : List α}
    (hreplay : TransitionSystem.replay next s actions = some s') :
    ∃ history', T.Run s' history' := by
  induction actions generalizing s history with
  | nil =>
      cases hreplay
      exact ⟨history, h⟩
  | cons a rest ih =>
      obtain ⟨s₁, hs₁, hrest⟩ := Option.bind_eq_some_iff.mp hreplay
      exact ih (.step h (hnext _ _ _ hs₁)) hrest

def Steps (next : σ → α → Option σ) (only : α → Prop) (s s' : σ) : Prop :=
  ∃ actions, (∀ a ∈ actions, only a) ∧ replay next s actions = some s'

section Steps

variable {next : σ → α → Option σ} {only : α → Prop} {s s₁ s' : σ}

theorem Steps.refl : Steps next only s s := ⟨[], by simp, rfl⟩

theorem Steps.step {a : α} (ha : only a) (hs : next s a = some s₁)
    (h : Steps next only s₁ s') : Steps next only s s' := by
  obtain ⟨actions, hactions, hreplay⟩ := h
  refine ⟨a :: actions, List.forall_mem_cons.mpr ⟨ha, hactions⟩, ?_⟩
  rw [replay, hs]
  exact hreplay

theorem replay_append {earlier later : List α}
    (h : replay next s earlier = some s₁) :
    replay next s (earlier ++ later) = replay next s₁ later := by
  induction earlier generalizing s with
  | nil =>
      cases h
      rfl
  | cons a earlier ih =>
      obtain ⟨s₂, hs₂, hrest⟩ := Option.bind_eq_some_iff.mp h
      rw [List.cons_append, replay, hs₂]
      exact ih hrest

theorem Steps.trans (h : Steps next only s s₁)
    (h' : Steps next only s₁ s') : Steps next only s s' := by
  obtain ⟨earlier, hearlier, hreplay⟩ := h
  obtain ⟨later, hlater, hreplay'⟩ := h'
  refine ⟨earlier ++ later, ?_, ?_⟩
  · exact List.forall_mem_append.mpr ⟨hearlier, hlater⟩
  · rw [replay_append hreplay, hreplay']

end Steps

def replayUnder (next : σ → α → Option σ) (allowed : σ → α → Bool) :
    σ → List α → Option σ
  | s, [] => some s
  | s, a :: rest =>
      if allowed s a then
        (next s a).bind fun s' => replayUnder next allowed s' rest
      else none

theorem ReachableUnder.replay {next : σ → α → Option σ}
    {allowed : σ → α → Bool}
    (hnext : ∀ s a s', next s a = some s' → T.step s a s') {s s' : σ}
    (h : T.ReachableUnder (fun s a _ => allowed s a = true) s)
    {actions : List α}
    (hreplay : replayUnder next allowed s actions = some s') :
    T.ReachableUnder (fun s a _ => allowed s a = true) s' := by
  induction actions generalizing s with
  | nil =>
      cases hreplay
      exact h
  | cons a rest ih =>
      unfold replayUnder at hreplay
      split at hreplay
      · rename_i hallowed
        obtain ⟨s₁, hs₁, hrest⟩ := Option.bind_eq_some_iff.mp hreplay
        exact ih (.step h (hnext _ _ _ hs₁) hallowed) hrest
      · cases hreplay

theorem Run.replayUnder {next : σ → α → Option σ} {allowed : σ → α → Bool}
    (hnext : ∀ s a s', next s a = some s' → T.step s a s') {s s' : σ}
    {history : List (Event σ α)} (h : T.Run s history)
    (hallowed : ∀ e ∈ history, allowed e.before e.action = true)
    {actions : List α}
    (hreplay : TransitionSystem.replayUnder next allowed s actions = some s') :
    ∃ history', T.Run s' history' ∧
      ∀ e ∈ history', allowed e.before e.action = true := by
  induction actions generalizing s history with
  | nil =>
      cases hreplay
      exact ⟨history, h, hallowed⟩
  | cons a rest ih =>
      unfold TransitionSystem.replayUnder at hreplay
      split at hreplay
      · rename_i hstep
        obtain ⟨s₁, hs₁, hrest⟩ := Option.bind_eq_some_iff.mp hreplay
        exact ih (.step h (hnext _ _ _ hs₁))
          (List.forall_mem_cons.mpr ⟨hstep, hallowed⟩) hrest
      · cases hreplay

end TransitionSystem

end Ztour.Foundation
