import Mathlib.Data.Nat.Dist
import Relata.Number.Rounding

/-!
# Rounding is to the nearest

The rounding of a quotient is the whole number nearest to it, and the even one of two that
are equally near. What lies no farther from a rounding than the number that was rounded is
rounded to the same. Among the numbers with few enough digits none is nearer to a quotient
than its rounding, and only if the rounding ends in a zero another one is as near.
-/

namespace Relata

-- Powers of natural numbers are core's, whatever else is imported.
attribute [local instance (1001)] instPowNat

/-- A whole number is the rounding exactly if it is nearer than one half, or even and as near. -/
theorem roundDiv_eq_iff {num den n : Nat} (hden : 0 < den) :
    roundDiv num den = n ↔
      2 * Nat.dist (n * den) num < den ∨ 2 * Nat.dist (n * den) num = den ∧ n % 2 = 0 := by
  have hsplit : num = den * (num / den) + num % den := (Nat.div_add_mod num den).symm
  have hrest : num % den < den := Nat.mod_lt num hden
  have hcomm : num / den * den = den * (num / den) := Nat.mul_comm _ _
  have hsucc : (num / den + 1) * den = den * (num / den) + den := by rw [Nat.succ_mul, hcomm]
  have hform : roundDiv num den =
      if 2 * (num % den) < den then num / den
      else if den < 2 * (num % den) then num / den + 1
      else num / den + num / den % 2 := rfl
  rcases Nat.lt_or_ge n (num / den) with hbelow | hle
  · -- too low by at least one
    have hmul : (n + 1) * den ≤ num / den * den := Nat.mul_le_mul_right den hbelow
    rw [Nat.succ_mul] at hmul
    unfold Nat.dist
    rcases roundDiv_eq_div_or_succ num den with h | h <;> omega
  · rcases Nat.lt_or_ge (num / den + 1) n with habove | hle'
    · -- too high by at least one
      have hmul : (num / den + 1 + 1) * den ≤ n * den := Nat.mul_le_mul_right den habove
      rw [Nat.succ_mul] at hmul
      unfold Nat.dist
      rcases roundDiv_eq_div_or_succ num den with h | h <;> omega
    · have hn : n = num / den ∨ n = num / den + 1 := by omega
      rw [hform]
      unfold Nat.dist
      rcases hn with rfl | rfl
      · split
        · omega
        · split <;> omega
      · split
        · omega
        · split <;> omega

theorem roundDiv_near (num : Nat) {den : Nat} (hden : 0 < den) :
    2 * Nat.dist (roundDiv num den * den) num < den ∨
      2 * Nat.dist (roundDiv num den * den) num = den ∧ roundDiv num den % 2 = 0 :=
  (roundDiv_eq_iff hden).1 rfl

/-- No whole number is nearer to a quotient than its rounding. -/
theorem dist_roundDiv_le (num : Nat) {den : Nat} (hden : 0 < den) (n : Nat) :
    Nat.dist (roundDiv num den * den) num ≤ Nat.dist (n * den) num := by
  have hnear : 2 * Nat.dist (roundDiv num den * den) num ≤ den := by
    rcases roundDiv_near num hden with h | h <;> omega
  by_cases hsame : n = roundDiv num den
  · exact Nat.le_of_eq (by rw [hsame])
  · -- another number is at least one whole away from the rounding
    unfold Nat.dist at hnear ⊢
    rcases Nat.lt_or_gt_of_ne hsame with hlt | hgt
    · have hmul : (n + 1) * den ≤ roundDiv num den * den := Nat.mul_le_mul_right den hlt
      rw [Nat.succ_mul] at hmul
      omega
    · have hmul : (roundDiv num den + 1) * den ≤ n * den := Nat.mul_le_mul_right den hgt
      rw [Nat.succ_mul] at hmul
      omega

/-- What is no farther from a rounding than the number that was rounded is rounded alike. -/
theorem roundDiv_eq_of_dist_le {num num' den : Nat} (hden : 0 < den)
    (h : Nat.dist (roundDiv num den * den) num' ≤ Nat.dist (roundDiv num den * den) num) :
    roundDiv num' den = roundDiv num den := by
  rw [roundDiv_eq_iff hden]
  rcases roundDiv_near num hden with hnear | ⟨htie, heven⟩
  · left
    omega
  · rcases Nat.lt_or_eq_of_le h with hlt | heq
    · left
      omega
    · right
      exact ⟨by rw [heq, htie], heven⟩

theorem lt_of_lastPlace_lt {m n : Nat} (h : lastPlace m < lastPlace n) :
    m < 2 ^ (52 : Nat) * 2 ^ lastPlace n := by
  have hlt : m < 2 ^ (m.log2 + 1) := Nat.lt_log2_self
  rw [← Nat.pow_add]
  refine Nat.lt_of_lt_of_le hlt (Nat.pow_le_pow_right (by decide) ?_)
  unfold lastPlace at *
  omega

theorem dist_lead_lt {num den m : Nat} (hden : 0 < den)
    (h : lastPlace m < lastPlace (num / den)) :
    Nat.dist (2 ^ (52 : Nat) * 2 ^ lastPlace (num / den) * den) num < Nat.dist (m * den) num := by
  have hlow : m * den < 2 ^ (52 : Nat) * 2 ^ lastPlace (num / den) * den :=
    Nat.mul_lt_mul_of_pos_right (lt_of_lastPlace_lt h) hden
  have hhigh : 2 ^ (52 : Nat) * 2 ^ lastPlace (num / den) * den ≤ num :=
    Nat.le_trans (Nat.mul_le_mul_right den (lead_le (Nat.ne_zero_of_lt h)))
      (Nat.div_mul_le_self num den)
  unfold Nat.dist
  omega

/-- Whole numbers of the last place are compared as the quotients are that are rounded. -/
theorem mul_lastPlace_mul (num den n : Nat) :
    n * 2 ^ lastPlace (num / den) * den = n * (den * 2 ^ lastPlace (num / den)) := by
  rw [Nat.mul_assoc, Nat.mul_comm _ den]

theorem dist_roundToPrecision_mul_le (num : Nat) {den : Nat} (hden : 0 < den) (n : Nat) :
    Nat.dist (roundToPrecision num den * den) num ≤
      Nat.dist (n * 2 ^ lastPlace (num / den) * den) num := by
  rw [roundToPrecision, mul_lastPlace_mul, mul_lastPlace_mul]
  exact dist_roundDiv_le num (Nat.mul_pos hden (Nat.two_pow_pos _)) n

theorem exists_eq_mul_of_lastPlace_le {m place : Nat} (hm : FitsPrecision m)
    (h : place ≤ lastPlace m) : ∃ n, m = n * 2 ^ place := by
  obtain ⟨n, hn⟩ := Nat.dvd_trans (Nat.pow_dvd_pow 2 h) hm
  exact ⟨n, hn.trans (Nat.mul_comm _ n)⟩

/-- Among the numbers with at most 53 digits none is nearer to a quotient than its rounding. -/
theorem dist_roundToPrecision_le (num : Nat) {den m : Nat} (hden : 0 < den) (hm : FitsPrecision m) :
    Nat.dist (roundToPrecision num den * den) num ≤ Nat.dist (m * den) num := by
  rcases Nat.lt_or_ge (lastPlace m) (lastPlace (num / den)) with hplace | hplace
  · -- the leading digit of the quotient is kept, and lies between
    exact Nat.le_trans (dist_roundToPrecision_mul_le num hden (2 ^ (52 : Nat)))
      (Nat.le_of_lt (dist_lead_lt hden hplace))
  · obtain ⟨n, rfl⟩ := exists_eq_mul_of_lastPlace_le hm hplace
    exact dist_roundToPrecision_mul_le num hden n

/-! ## Ties -/

theorem even_roundDiv_of_dist_eq {num den n : Nat} (hden : 0 < den) (hne : n ≠ roundDiv num den)
    (h : Nat.dist (n * den) num = Nat.dist (roundDiv num den * den) num) :
    roundDiv num den % 2 = 0 := by
  rcases roundDiv_near num hden with hnear | ⟨-, heven⟩
  · exfalso
    unfold Nat.dist at h hnear
    rcases Nat.lt_or_gt_of_ne hne with hlt | hgt
    · have hmul : (n + 1) * den ≤ roundDiv num den * den := Nat.mul_le_mul_right den hlt
      rw [Nat.succ_mul] at hmul
      omega
    · have hmul : (roundDiv num den + 1) * den ≤ n * den := Nat.mul_le_mul_right den hgt
      rw [Nat.succ_mul] at hmul
      omega
  · exact heven

/-- Digits from the last place on are the digits kept, unless they have grown by one more. -/
theorem div_lastPlace_mul {q place : Nat} (hq : q < 2 ^ (53 : Nat))
    (hlead : place = 0 ∨ 2 ^ (52 : Nat) ≤ q) :
    q * 2 ^ place / 2 ^ lastPlace (q * 2 ^ place) = q := by
  have hplace : lastPlace (q * 2 ^ place) = place := by
    have hlt : q * 2 ^ place < 2 ^ (53 + place) := by
      rw [Nat.pow_add]
      exact Nat.mul_lt_mul_of_pos_right hq (Nat.two_pow_pos place)
    unfold lastPlace
    rcases hlead with rfl | hlead
    · by_cases hzero : q = 0
      · simp [hzero]
      · have hlog := (Nat.log2_lt (n := q * 2 ^ 0) (by simpa using hzero)).2 hlt
        omega
    · have hle : 2 ^ (52 + place) ≤ q * 2 ^ place := by
        rw [Nat.pow_add]
        exact Nat.mul_le_mul_right _ hlead
      have hne : q * 2 ^ place ≠ 0 := by
        have hpos := Nat.two_pow_pos (52 + place)
        omega
      have hlow := (Nat.le_log2 hne).2 hle
      have hhigh := (Nat.log2_lt hne).2 hlt
      omega
  rw [hplace, Nat.mul_div_cancel _ (Nat.two_pow_pos place)]

theorem le_roundDiv_lastPlace {num den : Nat} (h : lastPlace (num / den) ≠ 0) :
    2 ^ (52 : Nat) ≤ roundDiv num (den * 2 ^ lastPlace (num / den)) := by
  have hfloor : 2 ^ (52 : Nat) ≤ num / (den * 2 ^ lastPlace (num / den)) := by
    rw [← Nat.div_div_eq_div_mul]
    exact (Nat.le_div_iff_mul_le (Nat.two_pow_pos _)).2 (lead_le h)
  rcases roundDiv_eq_div_or_succ num (den * 2 ^ lastPlace (num / den)) with h | h <;> omega

/-- Another number with few enough digits is as near only if the rounding ends in a zero. -/
theorem even_roundToPrecision_of_dist_eq {num den m : Nat} (hden : 0 < den) (hm : FitsPrecision m)
    (hne : m ≠ roundToPrecision num den)
    (h : Nat.dist (m * den) num = Nat.dist (roundToPrecision num den * den) num) :
    roundToPrecision num den / 2 ^ lastPlace (roundToPrecision num den) % 2 = 0 := by
  rcases Nat.lt_or_ge (lastPlace m) (lastPlace (num / den)) with hplace | hplace
  · have hnear := dist_roundToPrecision_mul_le num hden (2 ^ (52 : Nat))
    have hfar := dist_lead_lt hden hplace
    omega
  · obtain ⟨n, rfl⟩ := exists_eq_mul_of_lastPlace_le hm hplace
    have heven : roundDiv num (den * 2 ^ lastPlace (num / den)) % 2 = 0 := by
      rw [roundToPrecision, mul_lastPlace_mul, mul_lastPlace_mul] at h
      have hquotient : n ≠ roundDiv num (den * 2 ^ lastPlace (num / den)) := by
        rintro rfl
        exact hne rfl
      exact even_roundDiv_of_dist_eq (Nat.mul_pos hden (Nat.two_pow_pos _)) hquotient h
    rw [roundToPrecision]
    rcases Nat.lt_or_eq_of_le (roundDiv_lastPlace_le num den) with hlt | heq
    · rw [div_lastPlace_mul hlt, heven]
      by_cases hzero : lastPlace (num / den) = 0
      · exact .inl hzero
      · exact .inr (le_roundDiv_lastPlace hzero)
    · -- one more digit has come up, and all but the first are zeros
      have hcarry : 2 ^ (53 : Nat) * 2 ^ lastPlace (num / den) =
          2 ^ (52 : Nat) * 2 ^ (lastPlace (num / den) + 1) := by
        rw [← Nat.pow_add, ← Nat.pow_add, Nat.add_comm _ 1, ← Nat.add_assoc]
      rw [heq, hcarry, div_lastPlace_mul (by decide) (.inr (Nat.le_refl _))]

end Relata
