import Relata.Error

/-!
# Changes that may fail

A change reads and writes a state, and may fail. It leaves a state in either case: what was
written before a failure stays written.
-/

namespace Relata

/-- A computation on a state that may fail. -/
abbrev Change (σ α : Type) := ExceptT Error (StateM σ) α

namespace Change

/-- The result of a change, or its failure, and the state that it leaves. -/
def apply (change : Change σ α) (state : σ) : Except Error α × σ :=
  (change.run.run state).run

@[simp] theorem apply_pure (a : α) (state : σ) :
    (pure a : Change σ α).apply state = (.ok a, state) := rfl

@[simp] theorem apply_get (state : σ) : (get : Change σ σ).apply state = (.ok state, state) := rfl

@[simp] theorem apply_modify (f : σ → σ) (state : σ) :
    (modify f : Change σ Unit).apply state = (.ok (), f state) := rfl

@[simp] theorem apply_throw (e : Error) (state : σ) :
    (throw e : Change σ α).apply state = (.error e, state) := rfl

@[simp] theorem apply_lift (result : Except Error α) (state : σ) :
    (liftM result : Change σ α).apply state = (result, state) := rfl

/-- A failure ends a change, in the state that has been reached. -/
@[simp] theorem apply_bind (change : Change σ α) (next : α → Change σ β) (state : σ) :
    (change >>= next).apply state =
      match change.apply state with
      | (.ok a, after) => (next a).apply after
      | (.error e, after) => (.error e, after) := by
  simp only [apply, ExceptT.run_bind, StateT.run_bind]
  rcases change.run.run state with ⟨result, after⟩
  cases result <;> rfl

end Change

end Relata
