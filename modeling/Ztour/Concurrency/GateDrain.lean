import Ztour.Concurrency.GateWait
import Ztour.Foundation.Progress

/-!
# The call gate comes to rest

Once no call is active and none begins, the threads inside of `on_exit_call`
and `wait` come out after a bounded number of steps, in whatever order they
take them and whether or not sleeping threads wake without being notified.
-/

namespace Ztour

open Ztour.Foundation

namespace Gate

open TransitionSystem

variable {Tid : Type}

def Place.rank : Place → Nat
  | running => 0
  | exitUnlocking => 1
  | exitNotifying => 2
  | exitLocking => 3
  | waitTested seen => if seen = 0 then 1 else 5
  | waitChecking => 2
  | waitLocking | waking => 3
  | asleep => 4

theorem Place.rank_le (p : Place) : p.rank ≤ 5 := by
  cases p with
  | waitTested seen =>
      simp only [rank]
      split <;> omega
  | _ => simp [rank]

theorem Place.rank_woken_le (p : Place) : p.woken.rank ≤ p.rank := by
  cases p <;> simp [woken, rank]

def Act.continues : Act → Bool
  | .advance | .wake => true
  | .onEnterCall _ | .onExitCall _ | .wait => false

section Steps

variable [DecidableEq Tid] {s s' : State Tid} {i : Tid} {a : Act}

theorem Transition.counter_eq (h : Transition s i a s')
    (ha : a.continues = true) : s'.numActiveCalls = s.numActiveCalls := by
  cases h <;> first | rfl | cases ha

theorem Transition.rank_lt (h : Transition s i a s')
    (ha : a.continues = true) (hzero : s.numActiveCalls = 0) :
    (s'.place i).rank < (s.place i).rank := by
  cases h with
  | enter | exit | exitLast | startWait => cases ha
  | exitLock here => simp [here, Place.rank]
  | exitNotify here => simp [here, Place.rank]
  | exitUnlock here => simp [here, Place.rank]
  | waitLock here => rcases here with here | here <;> simp [here, Place.rank]
  | check here => simp [here, Place.rank, hzero]
  | waitReturn here => simp [here, Place.rank]
  | @sleep seen here active =>
      have hrank : (s.place i).rank = 5 := by
        rw [here]
        exact if_neg active
      rw [hrank, State.setPlace_place, Function.update_self]
      decide
  | wake here => simp [here, Place.rank]

theorem Transition.rank_le (h : Transition s i a s') {j : Tid} (hj : j ≠ i) :
    (s'.place j).rank ≤ (s.place j).rank := by
  rcases h.place_ne hj with hsame | hwoken
  · rw [hsame]
  · rw [hwoken]
    exact Place.rank_woken_le _

theorem advance_of_holdsMutex (h : (s.place i).holdsMutex = true) :
    ∃ s', next s (i, .advance) = some s' := by
  change ∃ s', advance s i (s.place i) = some s'
  cases hp : s.place i with
  | exitNotifying => exact ⟨_, rfl⟩
  | exitUnlocking => exact ⟨_, rfl⟩
  | waitChecking => exact ⟨_, rfl⟩
  | waitTested seen =>
      simp only [advance]
      split <;> exact ⟨_, rfl⟩
  | _ =>
      rw [hp] at h
      cases h

/-- Where a thread is inside of a call, some thread can go on. -/
theorem Invariant.moves (h : Invariant s) (hzero : s.numActiveCalls = 0)
    (hbusy : s.place i ≠ .running) :
    ∃ j s', next s (j, .advance) = some s' := by
  cases hmutex : s.condMutex with
  | some k =>
      obtain ⟨s', hs'⟩ := advance_of_holdsMutex ((h.mutex k).mp hmutex)
      exact ⟨k, s', hs'⟩
  | none =>
      have hlocks : ∀ j, s.place j = .exitLocking ∨ s.place j = .waitLocking ∨
          s.place j = .waking → ∃ s', next s (j, .advance) = some s' := by
        intro j hj
        unfold next
        rcases hj with hj | hj | hj <;> simp [hj, advance, hmutex]
      by_cases hheld : (s.place i).holdsMutex = true
      · obtain ⟨s', hs'⟩ := advance_of_holdsMutex hheld
        exact ⟨i, s', hs'⟩
      · cases hp : s.place i with
        | running => exact absurd hp hbusy
        | exitLocking => exact ⟨i, hlocks i (.inl hp)⟩
        | waitLocking => exact ⟨i, hlocks i (.inr (.inl hp))⟩
        | waking => exact ⟨i, hlocks i (.inr (.inr hp))⟩
        | asleep =>
            -- somebody is still to notify this thread
            obtain ⟨j, hj⟩ := h.pending i (by simp [hp, Place.unnotified]) hzero
            cases hpj : s.place j with
            | exitLocking => exact ⟨j, hlocks j (.inl hpj)⟩
            | exitNotifying =>
                exact ⟨j, advance_of_holdsMutex (by rw [hpj]; rfl)⟩
            | _ =>
                rw [hpj] at hj
                cases hj
        | _ =>
            rw [hp] at hheld
            exact absurd rfl hheld

end Steps

section Drain

variable [Fintype Tid] [DecidableEq Tid]

def State.rank (s : State Tid) : Nat := ∑ i, (s.place i).rank

omit [DecidableEq Tid] in
theorem State.rank_le (s : State Tid) : s.rank ≤ 5 * Fintype.card Tid := by
  unfold rank
  calc ∑ i, (s.place i).rank
      ≤ ∑ _i : Tid, 5 := Finset.sum_le_sum fun i _ => (s.place i).rank_le
    _ = 5 * Fintype.card Tid := by
      rw [Finset.sum_const, Finset.card_univ, smul_eq_mul, Nat.mul_comm]

theorem progressing : Progressing (next : State Tid → Tid × Act → _)
    (fun e => e.2.continues = true) (fun e => e.2 = .advance)
    (fun s => Invariant s ∧ s.numActiveCalls = 0)
    (fun s => ∀ i, s.place i = .running) State.rank where
  keeps := by
    rintro s ⟨i, a⟩ s' ⟨hinv, hzero⟩ ha hstep
    have htrans := next_transition hstep
    exact ⟨hinv.transition htrans, (htrans.counter_eq ha).trans hzero⟩
  lowers := by
    rintro s ⟨i, a⟩ s' ⟨-, hzero⟩ ha hstep
    have htrans := next_transition hstep
    have hlt := htrans.rank_lt ha hzero
    refine Finset.sum_lt_sum (fun j _ => ?_) ⟨i, Finset.mem_univ i, hlt⟩
    by_cases hj : j = i
    · subst hj
      exact hlt.le
    · exact htrans.rank_le hj
  moves := by
    rintro s ⟨hinv, hzero⟩ hbusy
    obtain ⟨i, hi⟩ := not_forall.mp hbusy
    obtain ⟨j, s', hstep⟩ := hinv.moves hzero hi
    exact ⟨(j, .advance), s', rfl, hstep⟩

/-- While no call is active, the threads at the gate come out after at most
five steps each on average, and do not stop before. -/
theorem gate_drains {s s' : State Tid} (h : gateSystem.Reachable s)
    (hzero : s.numActiveCalls = 0) {actions : List (Tid × Act)}
    (hactions : ∀ e ∈ actions, e.2.continues = true)
    (hreplay : replay next s actions = some s') :
    actions.length ≤ 5 * Fintype.card Tid ∧
      ((∀ i, next s' (i, .advance) = none) → ∀ i, s'.place i = .running) := by
  obtain ⟨hinv, hle⟩ :=
    progressing.replay ⟨reachable_invariant h, hzero⟩ hactions hreplay
  have hrank := s.rank_le
  refine ⟨by omega, fun hstuck => progressing.done_of_stuck hinv ?_⟩
  rintro ⟨j, a⟩ rfl
  exact hstuck j

def drainRun : List (Bool × Act) :=
  List.replicate 3 (false, .advance) ++ List.replicate 3 (true, .advance)

theorem gate_drains_sleepy :
    ∃ s s' : State Bool, replay next start sleepyRun = some s ∧
      s.place true = .asleep ∧ replay next s drainRun = some s' ∧
      ∀ i, s'.place i = .running := by
  have hbefore : (replay next (start : State Bool) sleepyRun).map
      (fun s => (s.place true, s.numActiveCalls)) = some (.asleep, 0) := by
    decide +kernel
  have hafter : ((replay next (start : State Bool) sleepyRun).bind
      (replay next · drainRun)).map (fun s => ((next s (false, .advance)).isNone,
        (next s (true, .advance)).isNone)) = some (true, true) := by
    decide +kernel
  obtain ⟨s, hreplay, hfacts⟩ := Option.map_eq_some_iff.mp hbefore
  rw [hreplay, Option.bind_some] at hafter
  obtain ⟨s', hdrain, hstuck⟩ := Option.map_eq_some_iff.mp hafter
  simp only [Prod.mk.injEq, Option.isNone_iff_eq_none] at hfacts hstuck
  have hinit : gateSystem.Run (start : State Bool) [] := .init rfl
  obtain ⟨history, h⟩ := hinit.replay (fun _ _ _ hstep => hstep) hreplay
  refine ⟨s, s', hreplay, hfacts.1, hdrain,
    (gate_drains h.reachable hfacts.2 (by decide) hdrain).2 fun i => ?_⟩
  cases i with
  | false => exact hstuck.1
  | true => exact hstuck.2

end Drain

end Gate

end Ztour
