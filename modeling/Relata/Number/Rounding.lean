/-!
# Rounding a quotient

`roundDiv` takes a quotient of natural numbers to the nearest one, a tie to the even
neighbour. `roundToPrecision` keeps the 53 leading binary digits of a quotient, or all
digits of its whole part when it has fewer. The result is within half a unit of the last
kept place, and has at most 53 significant digits.
-/

namespace Relata

-- Powers of natural numbers are core's, whatever else is imported.
attribute [local instance (1001)] instPowNat

/-- The natural number nearest to `num / den`; a tie goes to the even neighbour. -/
def roundDiv (num den : Nat) : Nat :=
  let quotient := num / den
  let twice := 2 * (num % den)
  if twice < den then quotient
  else if den < twice then quotient + 1
  else quotient + quotient % 2

theorem roundDiv_eq_div_or_succ (num den : Nat) :
    roundDiv num den = num / den ∨ roundDiv num den = num / den + 1 := by
  unfold roundDiv
  simp only
  split
  · exact .inl rfl
  · split
    · exact .inr rfl
    · rcases Nat.mod_two_eq_zero_or_one (num / den) with h | h <;> simp [h]

theorem two_mul_roundDiv_mul_le (num : Nat) {den : Nat} (hden : 0 < den) :
    2 * (roundDiv num den * den) ≤ 2 * num + den := by
  have hsplit : num = den * (num / den) + num % den := (Nat.div_add_mod num den).symm
  have hlt : num % den < den := Nat.mod_lt num hden
  have hcomm : num / den * den = den * (num / den) := Nat.mul_comm _ _
  unfold roundDiv
  simp only
  split
  · omega
  · split
    · rw [Nat.add_mul]
      omega
    · rcases Nat.mod_two_eq_zero_or_one (num / den) with h | h
      · rw [h]
        simp only [Nat.add_zero]
        omega
      · rw [h, Nat.add_mul]
        omega

theorem two_mul_le_roundDiv_mul (num : Nat) {den : Nat} (hden : 0 < den) :
    2 * num ≤ 2 * (roundDiv num den * den) + den := by
  have hsplit : num = den * (num / den) + num % den := (Nat.div_add_mod num den).symm
  have hlt : num % den < den := Nat.mod_lt num hden
  have hcomm : num / den * den = den * (num / den) := Nat.mul_comm _ _
  unfold roundDiv
  simp only
  split
  · omega
  · split
    · rw [Nat.add_mul]
      omega
    · rcases Nat.mod_two_eq_zero_or_one (num / den) with h | h
      · rw [h]
        simp only [Nat.add_zero]
        omega
      · rw [h, Nat.add_mul]
        omega

theorem roundDiv_mul_self (n : Nat) {den : Nat} (hden : 0 < den) :
    roundDiv (n * den) den = n := by
  simp [roundDiv, Nat.mul_div_cancel n hden, hden]

/-- The binary place of the last digit kept of a number whose whole part is `n`. -/
def lastPlace (n : Nat) : Nat :=
  n.log2 - 52

theorem lead_le {n : Nat} (h : lastPlace n ≠ 0) :
    2 ^ (52 : Nat) * 2 ^ lastPlace n ≤ n := by
  have hne : n ≠ 0 := by
    rintro rfl
    exact h (by decide)
  have hplaces : 52 + lastPlace n = n.log2 := by
    unfold lastPlace at *
    omega
  rw [← Nat.pow_add, hplaces]
  exact Nat.log2_self_le hne

/-- The number with at most 53 significant binary digits nearest to `num / den`. -/
def roundToPrecision (num den : Nat) : Nat :=
  roundDiv num (den * 2 ^ lastPlace (num / den)) * 2 ^ lastPlace (num / den)

/-- At most 53 significant binary digits. -/
def FitsPrecision (n : Nat) : Prop :=
  2 ^ lastPlace n ∣ n

instance (n : Nat) : Decidable (FitsPrecision n) :=
  inferInstanceAs (Decidable (_ ∣ _))

/-- A number below `2 ^ 53`, shifted by any number of places, has few enough digits. -/
theorem fitsPrecision_mul_two_pow {m : Nat} (hm : m ≤ 2 ^ (53 : Nat)) (k : Nat) :
    FitsPrecision (m * 2 ^ k) := by
  unfold FitsPrecision lastPlace
  rcases Nat.eq_zero_or_pos m with rfl | hpos
  · simp
  · have hne : m * 2 ^ k ≠ 0 :=
      Nat.mul_ne_zero (by omega) (Nat.pos_iff_ne_zero.1 (Nat.two_pow_pos k))
    rcases Nat.lt_or_eq_of_le hm with hlt | heq
    · have hbound : m * 2 ^ k < 2 ^ (53 + k) := by
        rw [Nat.pow_add]
        exact Nat.mul_lt_mul_of_pos_right hlt (Nat.two_pow_pos k)
      have hlog : (m * 2 ^ k).log2 < 53 + k := (Nat.log2_lt hne).2 hbound
      have hle : (m * 2 ^ k).log2 - 52 ≤ k := by omega
      exact Nat.dvd_trans (Nat.pow_dvd_pow 2 hle) (Nat.dvd_mul_left (2 ^ k) m)
    · have hform : m * 2 ^ k = 2 ^ (53 + k) := by rw [heq, Nat.pow_add]
      rw [hform, Nat.log2_two_pow]
      exact Nat.pow_dvd_pow 2 (by omega)

theorem roundDiv_lastPlace_le (num den : Nat) :
    roundDiv num (den * 2 ^ lastPlace (num / den)) ≤ 2 ^ (53 : Nat) := by
  have hdiv : num / (den * 2 ^ lastPlace (num / den)) =
      num / den / 2 ^ lastPlace (num / den) := (Nat.div_div_eq_div_mul _ _ _).symm
  have hbound : num / den < 2 ^ (53 : Nat) * 2 ^ lastPlace (num / den) := by
    rw [← Nat.pow_add]
    have hlt : num / den < 2 ^ ((num / den).log2 + 1) := Nat.lt_log2_self
    refine Nat.lt_of_lt_of_le hlt (Nat.pow_le_pow_right (by decide) ?_)
    unfold lastPlace
    omega
  have hfloor : num / (den * 2 ^ lastPlace (num / den)) < 2 ^ (53 : Nat) := by
    rw [hdiv]
    exact (Nat.div_lt_iff_lt_mul (Nat.two_pow_pos _)).2 hbound
  rcases roundDiv_eq_div_or_succ num (den * 2 ^ lastPlace (num / den)) with h | h <;> omega

theorem fitsPrecision_roundToPrecision (num den : Nat) :
    FitsPrecision (roundToPrecision num den) :=
  fitsPrecision_mul_two_pow (roundDiv_lastPlace_le num den) _

theorem roundToPrecision_of_fits {n : Nat} (h : FitsPrecision n) :
    roundToPrecision n 1 = n := by
  obtain ⟨m, hm⟩ := h
  have hpos : 0 < 2 ^ lastPlace n := Nat.two_pow_pos _
  unfold roundToPrecision
  rw [Nat.div_one, Nat.one_mul]
  have hround : roundDiv n (2 ^ lastPlace n) = m := by
    conv => lhs; arg 1; rw [hm, Nat.mul_comm]
    exact roundDiv_mul_self m hpos
  rw [hround, Nat.mul_comm]
  exact hm.symm

end Relata
