import Relata.Number.Decimal
import Relata.Proofs.Number.Nearest

/-!
# Numbers with three places, read again

The text of a finite number is a whole number of thousandths. The number that is read from
it is as near to these thousandths as the number that was written, so it has the same
thousandths, and it does not overflow.
-/

namespace Relata

-- Powers of natural numbers are core's, whatever else is imported.
attribute [local instance (1001)] instPowNat

namespace Binary64

def onePlace : Nat :=
  1074

theorem unitsPerOne_eq : unitsPerOne = 2 ^ onePlace := by
  unfold unitsPerOne onePlace
  rfl

theorem unitsPerOne_pos : 0 < unitsPerOne := by
  rw [unitsPerOne_eq]
  exact Nat.two_pow_pos onePlace

/-- The number nearest to a number of thousandths, in units. -/
def ofThousandths (n : Nat) : Nat :=
  roundToPrecision (n * unitsPerOne) 1000

/-- What is read of written thousandths is as near to them as what was written. -/
theorem dist_ofThousandths_le {units : Nat} (h : FitsPrecision units) :
    Nat.dist (ofThousandths (thousandths units) * 1000) (thousandths units * unitsPerOne) ≤
      Nat.dist (units * 1000) (thousandths units * unitsPerOne) :=
  dist_roundToPrecision_le _ (by decide) h

theorem thousandths_ofThousandths {units : Nat} (h : FitsPrecision units) :
    thousandths (ofThousandths (thousandths units)) = thousandths units := by
  have hnear := dist_ofThousandths_le h
  apply roundDiv_eq_of_dist_le unitsPerOne_pos
  rw [Nat.dist_comm, Nat.dist_comm _ (units * 1000)]
  exact hnear

/-- A magnitude whose last digit stands at the place of one or above is a whole number. -/
theorem unitsPerOne_dvd {units : Nat} (h : FitsPrecision units)
    (hlarge : 2 ^ (onePlace + 52) ≤ units) : unitsPerOne ∣ units := by
  have hne : units ≠ 0 := by
    have hpos := Nat.two_pow_pos (onePlace + 52)
    omega
  have hlog : onePlace + 52 ≤ units.log2 := (Nat.le_log2 hne).2 hlarge
  have hplace : onePlace ≤ lastPlace units := by
    unfold lastPlace
    omega
  rw [unitsPerOne_eq]
  exact Nat.dvd_trans (Nat.pow_dvd_pow 2 hplace) h

theorem ofThousandths_of_dvd {units : Nat} (h : FitsPrecision units) (hdvd : unitsPerOne ∣ units) :
    ofThousandths (thousandths units) = units := by
  obtain ⟨n, hn⟩ := hdvd
  have hunits : units * 1000 = n * 1000 * unitsPerOne := by
    rw [hn, Nat.mul_comm unitsPerOne n, Nat.mul_right_comm]
  have hexact : thousandths units * unitsPerOne = units * 1000 := by
    rw [thousandths, hunits, roundDiv_mul_self _ unitsPerOne_pos]
  have hnear := dist_ofThousandths_le h
  rw [hexact, Nat.dist_self, Nat.le_zero] at hnear
  exact Nat.eq_of_mul_eq_mul_right (by decide) (Nat.eq_of_dist_eq_zero hnear)

theorem ofThousandths_lt {units : Nat} (h : IsMagnitude units) :
    ofThousandths (thousandths units) < magnitudeBound := by
  rcases Nat.lt_or_ge units (2 ^ (onePlace + 52)) with hsmall | hlarge
  · -- far below the bound an error of one is no matter
    have hnear := dist_ofThousandths_le h.2
    have hup := two_mul_roundDiv_mul_le (units * 1000) unitsPerOne_pos
    have hdown := two_mul_le_roundDiv_mul (units * 1000) unitsPerOne_pos
    have hone : unitsPerOne ≤ 2 ^ (onePlace + 52) := by
      rw [unitsPerOne_eq]
      exact Nat.pow_le_pow_right (by decide) (by omega)
    have hbound : 2 ^ (onePlace + 52) * 2 ≤ magnitudeBound := by
      rw [← Nat.pow_succ]
      exact Nat.pow_le_pow_right (by decide) (by decide)
    unfold thousandths Nat.dist at *
    omega
  · rw [ofThousandths_of_dvd h.2 (unitsPerOne_dvd h.2 hlarge)]
    exact h.1

end Binary64

end Relata
