import Ztour.Foundation.TransitionSystem

/-!
# Atomic objects

Threads call the operations of an object.  Between the call and the return of
an operation there is one moment at which it takes effect and its answer is
decided.  A system that simulates its atomic object is linearizable: its
operations answer as if they were done one after the other at those moments.
-/

namespace Ztour.Foundation

inductive Phase (Op Ans : Type) where
  | idle
  | invoked (op : Op)
  | done (answer : Ans)

inductive AtomicAct (Op Env Ans : Type) where
  | invoke (op : Op)
  | effect (env : Env)
  | reply (answer : Ans)

structure AtomicState (Tid Op Ans σ : Type) where
  object : σ
  phase : Tid → Phase Op Ans

namespace AtomicState

variable {Tid Op Env Ans σ : Type} [DecidableEq Tid]
  (t : AtomicState Tid Op Ans σ)

@[simps]
def setPhase (i : Tid) (phase : Phase Op Ans) : AtomicState Tid Op Ans σ :=
  { t with phase := Function.update t.phase i phase }

/-- An operation takes effect; `env` is what its environment decides. -/
@[simps]
def perform (apply : Op → Env → σ → Ans × σ) (i : Tid) (op : Op) (env : Env) :
    AtomicState Tid Op Ans σ where
  object := (apply op env t.object).2
  phase := Function.update t.phase i (.done (apply op env t.object).1)

end AtomicState

variable {Tid Op Env Ans σ : Type} [DecidableEq Tid]

inductive AtomicStep (apply : Op → Env → σ → Ans × σ) :
    AtomicState Tid Op Ans σ → Tid × AtomicAct Op Env Ans →
      AtomicState Tid Op Ans σ → Prop
  | invoke {t i op} (here : t.phase i = .idle) :
      AtomicStep apply t (i, .invoke op) (t.setPhase i (.invoked op))
  | effect {t i op env} (here : t.phase i = .invoked op) :
      AtomicStep apply t (i, .effect env) (t.perform apply i op env)
  | reply {t i answer} (here : t.phase i = .done answer) :
      AtomicStep apply t (i, .reply answer) (t.setPhase i .idle)

def atomicObject (apply : Op → Env → σ → Ans × σ) (init : σ → Prop) :
    TransitionSystem (AtomicState Tid Op Ans σ)
      (Tid × AtomicAct Op Env Ans) where
  init t := init t.object ∧ ∀ i, t.phase i = .idle
  step := AtomicStep apply

/-! ## The operations one after the other -/

def effectOf (e : Event (AtomicState Tid Op Ans σ)
    (Tid × AtomicAct Op Env Ans)) : Option (Op × Env) :=
  match e.action with
  | (i, .effect env) =>
      match e.before.phase i with
      | .invoked op => some (op, env)
      | _ => none
  | _ => none

/-- The state of the object after operations of which the latest is first. -/
def performAll (apply : Op → Env → σ → Ans × σ) (o : σ)
    (calls : List (Op × Env)) : σ :=
  calls.foldr (fun call o => (apply call.1 call.2 o).2) o

/-- The object is in the state in which its operations leave it one by one. -/
theorem performAll_of_run {apply : Op → Env → σ → Ans × σ} {init : σ → Prop}
    {t : AtomicState Tid Op Ans σ}
    {history : List (Event (AtomicState Tid Op Ans σ)
      (Tid × AtomicAct Op Env Ans))}
    (h : (atomicObject apply init).Run t history) :
    ∃ o, init o ∧ t.object = performAll apply o (history.filterMap effectOf) := by
  induction h with
  | @init t ht => exact ⟨t.object, ht.1, rfl⟩
  | @step t a t' history _ hstep ih =>
      obtain ⟨o, ho, hobject⟩ := ih
      refine ⟨o, ho, ?_⟩
      cases hstep with
      | invoke here =>
          rw [List.filterMap_cons_none rfl]
          exact hobject
      | effect here => simp [effectOf, here, performAll, hobject]
      | reply here =>
          rw [List.filterMap_cons_none rfl]
          exact hobject

end Ztour.Foundation
