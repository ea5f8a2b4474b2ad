import Relata.Number.Binary64

/-!
# Bit patterns of numbers

The pattern of a number has 64 digits, and the number is read from it again: a finite one has
the place of its last digit in the exponent field and the digits below the leading one in the
fraction field. So every number is that of a pattern.
-/

namespace Relata

-- Powers of natural numbers are core's, whatever else is imported.
attribute [local instance (1001)] instPowNat

namespace Binary64

/-- The digits of a magnitude that it keeps, down to the last place. -/
def digits (units : Nat) : Nat :=
  units / 2 ^ lastPlace units

theorem digits_mul_lastPlace {units : Nat} (h : FitsPrecision units) :
    digits units * 2 ^ lastPlace units = units :=
  Nat.div_mul_cancel h

theorem digits_lt (units : Nat) : digits units < 2 ^ (53 : Nat) := by
  unfold digits
  rw [Nat.div_lt_iff_lt_mul (Nat.two_pow_pos _), ← Nat.pow_add]
  refine Nat.lt_of_lt_of_le Nat.lt_log2_self (Nat.pow_le_pow_right (by decide) ?_)
  unfold lastPlace
  omega

theorem le_digits {units : Nat} (h : 0 < lastPlace units) : 2 ^ (52 : Nat) ≤ digits units :=
  (Nat.le_div_iff_mul_le (Nat.two_pow_pos _)).2 (lead_le (Nat.ne_of_gt h))

theorem lastPlace_le {units : Nat} (h : units < magnitudeBound) : lastPlace units ≤ topPlace := by
  by_cases hne : units = 0
  · subst hne
    decide
  · have hlog : units.log2 < 53 + topPlace := (Nat.log2_lt hne).2 h
    unfold lastPlace
    omega

/-- The pattern of a finite number is its sign, an exponent field and a fraction field. -/
theorem exists_fields (negative : Bool) {units : Nat} (h : IsMagnitude units) :
    ∃ exponent fraction, exponent < topExponent ∧ fraction < 2 ^ (52 : Nat) ∧
      (finite negative units h).toBits =
        signBit negative + (exponent * 2 ^ (52 : Nat) + fraction) ∧
      fieldUnits exponent fraction = units := by
  have hbits : (finite negative units h).toBits =
      signBit negative + (lastPlace units * 2 ^ (52 : Nat) + digits units) := rfl
  have hdigits := digits_mul_lastPlace h.2
  have hlt := digits_lt units
  rw [hbits]
  rcases Nat.lt_or_ge (digits units) (2 ^ (52 : Nat)) with hsmall | hlarge
  · have hplace : lastPlace units = 0 := by
      refine Nat.eq_zero_of_not_pos fun hpos => ?_
      have hle := le_digits hpos
      omega
    rw [hplace, Nat.pow_zero, Nat.mul_one] at hdigits
    refine ⟨0, digits units, by decide, hsmall, by rw [hplace], ?_⟩
    rw [fieldUnits, if_pos rfl, hdigits]
  · -- the leading one counts in the exponent field
    have hle := lastPlace_le h.1
    refine ⟨lastPlace units + 1, digits units - 2 ^ (52 : Nat), ?_, by omega, ?_, ?_⟩
    · unfold topExponent topPlace at *
      omega
    · rw [Nat.add_mul]
      omega
    · have hsum : 2 ^ (52 : Nat) + (digits units - 2 ^ (52 : Nat)) = digits units := by omega
      rw [fieldUnits, if_neg (Nat.succ_ne_zero _), hsum, Nat.add_sub_cancel, hdigits]

theorem ofBits_fields (negative : Bool) {exponent fraction : Nat}
    (hexponent : exponent < topExponent) (hfraction : fraction < 2 ^ (52 : Nat)) :
    ofBits (signBit negative + (exponent * 2 ^ (52 : Nat) + fraction)) =
      finite negative (fieldUnits exponent fraction)
        (isMagnitude_fieldUnits hexponent hfraction) := by
  unfold topExponent at hexponent
  have hsign : decide ((signBit negative + (exponent * 2 ^ (52 : Nat) + fraction)) /
      2 ^ (63 : Nat) % 2 = 1) = negative := by
    cases negative <;> simp [signBit] <;> omega
  have hfield : (signBit negative + (exponent * 2 ^ (52 : Nat) + fraction)) /
      2 ^ (52 : Nat) % 2048 = exponent := by
    cases negative <;> simp [signBit] <;> omega
  have hrest : (signBit negative + (exponent * 2 ^ (52 : Nat) + fraction)) %
      2 ^ (52 : Nat) = fraction := by
    cases negative <;> simp [signBit] <;> omega
  unfold ofBits
  simp only [hsign, hfield, hrest]
  exact dif_pos hexponent

theorem ofBits_toBits (x : Binary64) : ofBits x.toBits = x := by
  cases x with
  | nan => decide
  | infinite negative => cases negative <;> decide
  | finite negative units h =>
      obtain ⟨exponent, fraction, hexponent, hfraction, hbits, hunits⟩ := exists_fields negative h
      rw [hbits, ofBits_fields negative hexponent hfraction]
      simp only [hunits]

theorem toBits_lt (x : Binary64) : x.toBits < 2 ^ (64 : Nat) := by
  cases x with
  | nan => decide
  | infinite negative => cases negative <;> decide
  | finite negative units h =>
      obtain ⟨exponent, fraction, hexponent, hfraction, hbits, -⟩ := exists_fields negative h
      have hsign : signBit negative ≤ 2 ^ (63 : Nat) := by cases negative <;> decide
      unfold topExponent at hexponent
      omega

theorem exists_pattern (x : Binary64) : ∃ bits : BitVec 64, ofBits bits.toNat = x := by
  refine ⟨BitVec.ofNat 64 x.toBits, ?_⟩
  rw [BitVec.toNat_ofNat, Nat.mod_eq_of_lt x.toBits_lt, ofBits_toBits]

end Binary64

end Relata
