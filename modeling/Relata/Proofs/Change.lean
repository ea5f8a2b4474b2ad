import Relata.Change

/-!
# Changes that fail without a trace

A change is atomic if it leaves the state as it was whenever it fails. To read is atomic, and
so is to write once; what only reads can come before an atomic change, whether it fails or
not.
-/

namespace Relata

namespace Change

variable {change : Change σ α} {next : α → Change σ β}

/-- A failure leaves the state as it was. -/
def Atomic (change : Change σ α) : Prop :=
  ∀ state e, (change.apply state).1 = .error e → (change.apply state).2 = state

/-- The state is only read. -/
def Steady (change : Change σ α) : Prop :=
  ∀ state, (change.apply state).2 = state

theorem Steady.atomic (h : change.Steady) : change.Atomic :=
  fun state _ _ => h state

theorem steady_get : (get : Change σ σ).Steady :=
  fun _ => rfl

theorem steady_lift (result : Except Error α) : (liftM result : Change σ α).Steady :=
  fun _ => rfl

theorem steady_throw (e : Error) : (throw e : Change σ α).Steady :=
  fun _ => rfl

theorem atomic_modify (f : σ → σ) : (modify f : Change σ Unit).Atomic :=
  fun _ _ h => nomatch h

/-- What only reads can come before an atomic change. -/
theorem Steady.bind_atomic (h : change.Steady) (hnext : ∀ a, (next a).Atomic) :
    (change >>= next).Atomic := by
  intro state e
  have hstate := h state
  rw [apply_bind]
  generalize change.apply state = reached at hstate ⊢
  obtain ⟨result, middle⟩ := reached
  cases result with
  | error e' => exact fun _ => hstate
  | ok a =>
      intro he
      exact (hnext a middle e he).trans hstate

-- what is written before a failure is left behind
example : ¬(do modify (· + 1); throw .wrongArity : Change Nat Unit).Atomic :=
  fun h => absurd (h 0 .wrongArity rfl) (by decide)

end Change

end Relata
