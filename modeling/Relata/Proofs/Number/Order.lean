import Mathlib.Algebra.Order.Field.Rat
import Mathlib.Algebra.Order.Ring.Cast
import Mathlib.Order.Compare
import Relata.Proofs.Number.Thousandths
import Relata.Proofs.Value.Ordering

/-!
# Rounding and order

Rounding keeps the order of what it rounds, and leaves alone what needs no rounding. So the
number nearest to an integer lies on the same side of any other number as the integer does.
Only in comparing an integer with the number nearest to it the difference of the two is lost.
-/

namespace Relata

-- Powers of natural numbers are core's, whatever else is imported.
attribute [local instance (1001)] instPowNat

theorem roundToPrecision_mono {m n : Nat} (h : m ≤ n) :
    roundToPrecision m 1 ≤ roundToPrecision n 1 := by
  rcases Nat.lt_or_eq_of_le h with hlt | rfl
  · -- roundings in reverse would have both numbers in the middle between them
    have hm := dist_roundToPrecision_le m Nat.one_pos (fitsPrecision_roundToPrecision n 1)
    have hn := dist_roundToPrecision_le n Nat.one_pos (fitsPrecision_roundToPrecision m 1)
    unfold Nat.dist at hm hn
    omega
  · exact Nat.le_refl _

namespace Binary64

/-! ## Whole numbers of units -/

theorem natAbs_signed (negative : Bool) (units : Nat) : (signed negative units).natAbs = units := by
  cases negative <;> simp [signed]

def nearest (z : Int) : Int :=
  signed (z < 0) (roundToPrecision z.natAbs 1)

theorem nearest_mono {y z : Int} (h : y ≤ z) : nearest y ≤ nearest z := by
  unfold nearest signed
  by_cases hy : y < 0
  · by_cases hz : z < 0
    · have hround : roundToPrecision z.natAbs 1 ≤ roundToPrecision y.natAbs 1 :=
        roundToPrecision_mono (by omega)
      simp only [hy, hz, decide_true, if_true]
      omega
    · simp only [hy, hz, decide_true, decide_false, if_true, Bool.false_eq_true, if_false]
      omega
  · have hz : ¬z < 0 := by omega
    have hround : roundToPrecision y.natAbs 1 ≤ roundToPrecision z.natAbs 1 :=
      roundToPrecision_mono (by omega)
    simp only [hy, hz, decide_false, Bool.false_eq_true, if_false]
    omega

theorem nearest_of_fits {z : Int} (h : FitsPrecision z.natAbs) : nearest z = z := by
  unfold nearest signed
  rw [roundToPrecision_of_fits h]
  by_cases hz : z < 0
  · simp only [hz, decide_true, if_true]
    omega
  · simp only [hz, decide_false, Bool.false_eq_true, if_false]
    omega

/-- A rounding compares with a number that needs none as what was rounded does, or is equal to
it. -/
theorem compare_nearest (z : Int) {k : Int} (hk : FitsPrecision k.natAbs) :
    compare (nearest z) k = if nearest z = k then .eq else compare z k := by
  have hfix := nearest_of_fits hk
  rcases Int.lt_trichotomy (nearest z) k with hlt | heq | hgt
  · have hz : z < k := by
      by_contra hle
      have := nearest_mono (Int.not_lt.1 hle)
      omega
    rw [if_neg (by omega), Int.compare_eq_lt.2 hlt, Int.compare_eq_lt.2 hz]
  · rw [if_pos heq, Int.compare_eq_eq.2 heq]
  · have hz : k < z := by
      by_contra hle
      have := nearest_mono (Int.not_lt.1 hle)
      omega
    rw [if_neg (by omega), Int.compare_eq_gt.2 hgt, Int.compare_eq_gt.2 hz]

/-! ## Numbers -/

theorem fitsPrecision_rank {y : Binary64} {k : Int} (h : y.rank? = some k) :
    FitsPrecision k.natAbs := by
  cases y with
  | nan => cases h
  | infinite negative =>
      cases h
      rw [natAbs_signed, magnitudeBound, ← Nat.one_mul (2 ^ (53 + topPlace))]
      exact fitsPrecision_mul_two_pow (by decide) _
  | finite negative units isMagnitude =>
      cases h
      rw [natAbs_signed]
      exact isMagnitude.2

theorem fitsPrecision_units {n : Nat} (h : FitsPrecision n) : FitsPrecision (n * unitsPerOne) := by
  obtain ⟨m, hm⟩ := h
  have hlead : m ≤ 2 ^ (53 : Nat) := by
    have hround := roundDiv_lastPlace_le n 1
    rw [Nat.div_one, Nat.one_mul] at hround
    conv at hround => lhs; arg 1; rw [hm, Nat.mul_comm]
    rwa [roundDiv_mul_self m (Nat.two_pow_pos _)] at hround
  have hform : n * unitsPerOne = m * 2 ^ (lastPlace n + onePlace) := by
    conv => lhs; rw [hm]
    rw [unitsPerOne_eq, Nat.pow_add, Nat.mul_comm (2 ^ lastPlace n) m, Nat.mul_assoc]
  rw [hform]
  exact fitsPrecision_mul_two_pow hlead _

theorem isMagnitude_integerBound : IsMagnitude (2 ^ (63 : Nat) * unitsPerOne) := by
  have hform : 2 ^ (63 : Nat) * unitsPerOne = 1 * 2 ^ (63 + onePlace) := by
    rw [unitsPerOne_eq, Nat.one_mul, Nat.pow_add]
  rw [hform]
  refine ⟨?_, fitsPrecision_mul_two_pow (by decide) _⟩
  rw [Nat.one_mul]
  exact Nat.pow_lt_pow_right (by decide) (by decide)

theorem rank?_ofInt {i : Int} (h : i.natAbs ≤ 2 ^ (63 : Nat)) :
    (ofInt i).rank? = some (nearest (i * unitsPerOne)) := by
  have hunits : (i * (unitsPerOne : Int)).natAbs = i.natAbs * unitsPerOne := by
    rw [Int.natAbs_mul, Int.natAbs_natCast]
  have hsign : i * (unitsPerOne : Int) < 0 ↔ i < 0 := by
    rw [← Int.not_le, ← Int.not_le,
      Int.mul_nonneg_iff_of_pos_right (Int.natCast_pos.2 unitsPerOne_pos)]
  have hround := roundToPrecision_mono (Nat.mul_le_mul_right unitsPerOne h)
  rw [roundToPrecision_of_fits isMagnitude_integerBound.2] at hround
  unfold ofInt round nearest
  rw [dif_pos (Nat.lt_of_le_of_lt hround isMagnitude_integerBound.1), hunits,
    decide_eq_decide.2 hsign]
  rfl

/--
The order of an integer and a number by their exact values; an infinity lies beyond all
integers.
-/
def exactOrder? (i : Int) : Binary64 → Option Ordering
  | .nan => none
  | .infinite negative => some (if negative then .gt else .lt)
  | .finite negative units _ => some (cmp (i : ℚ) ((signed negative units : ℚ) / unitsPerOne))

theorem exactOrder?_eq {i : Int} (h : i.natAbs ≤ 2 ^ (63 : Nat)) (y : Binary64) :
    y.exactOrder? i = y.rank?.map (compare (i * unitsPerOne)) := by
  cases y with
  | nan => rfl
  | infinite negative =>
      have hunits : (i * (unitsPerOne : Int)).natAbs < magnitudeBound := by
        rw [Int.natAbs_mul, Int.natAbs_natCast]
        exact Nat.lt_of_le_of_lt (Nat.mul_le_mul_right unitsPerOne h) isMagnitude_integerBound.1
      cases negative with
      | true =>
          have hgt : signed true magnitudeBound < i * (unitsPerOne : Int) := by
            simp only [signed, if_true]
            omega
          exact congrArg some (Int.compare_eq_gt.2 hgt).symm
      | false =>
          have hlt : i * (unitsPerOne : Int) < signed false magnitudeBound := by
            simp only [signed, Bool.false_eq_true, if_false]
            omega
          exact congrArg some (Int.compare_eq_lt.2 hlt).symm
  | finite negative units _ =>
      have hpos : (0 : ℚ) < unitsPerOne := Nat.cast_pos.2 unitsPerOne_pos
      have horder : cmp (i : ℚ) ((signed negative units : ℚ) / unitsPerOne) =
          compare (i * (unitsPerOne : Int)) (signed negative units) := by
        calc cmp (i : ℚ) ((signed negative units : ℚ) / unitsPerOne)
            = cmp ((i : ℚ) * unitsPerOne) ((signed negative units : ℚ) / unitsPerOne * unitsPerOne) :=
              (cmp_mul_pos_right hpos _ _).symm
          _ = cmp (((i * (unitsPerOne : Int) : Int)) : ℚ) ((signed negative units : Int) : ℚ) := by
              rw [div_mul_cancel₀ _ (ne_of_gt hpos), Int.cast_mul, Int.cast_natCast]
          _ = cmp (i * (unitsPerOne : Int)) (signed negative units) :=
              Int.cast_strictMono.cmp_map_eq _ _
          _ = compare (i * (unitsPerOne : Int)) (signed negative units) := cmp_eq_compare _ _
      exact congrArg some horder

/--
An integer of 64 bits, rounded, compares with a number as it does unrounded, or the number is
the one nearest to it.
-/
theorem compare?_ofInt {i : Int} (h : i.natAbs ≤ 2 ^ (63 : Nat)) {y : Binary64} (hy : y ≠ .nan) :
    ∃ exact, y.exactOrder? i = some exact ∧
      (ofInt i).compare? y = some (if (ofInt i).sameNumber y then .eq else exact) := by
  obtain ⟨rank, hrank⟩ := exists_rank? hy
  have hcompare : (ofInt i).compare? y = some (compare (nearest (i * unitsPerOne)) rank) := by
    rw [compare?_eq_map, rank?_ofInt h, hrank]
    rfl
  have hsame : (ofInt i).sameNumber y = true ↔ nearest (i * unitsPerOne) = rank := by
    rw [sameNumber, hcompare, beq_iff_eq, Option.some.injEq, Std.LawfulEqOrd.compare_eq_iff_eq]
  refine ⟨compare (i * (unitsPerOne : Int)) rank, ?_, ?_⟩
  · rw [exactOrder?_eq h, hrank]
    rfl
  · rw [hcompare, compare_nearest _ (fitsPrecision_rank hrank)]
    simp only [hsame]

theorem exactOrder?_of_fits {i : Int} (h : i.natAbs ≤ 2 ^ (63 : Nat))
    (hfits : FitsPrecision i.natAbs) {y : Binary64} (hsame : (ofInt i).sameNumber y = true) :
    y.exactOrder? i = some .eq := by
  have hunits : FitsPrecision (i * (unitsPerOne : Int)).natAbs := by
    rw [Int.natAbs_mul, Int.natAbs_natCast]
    exact fitsPrecision_units hfits
  rw [exactOrder?_eq h]
  rw [sameNumber, beq_iff_eq, compare?_eq_map, rank?_ofInt h, nearest_of_fits hunits] at hsame
  exact hsame

end Binary64

end Relata
