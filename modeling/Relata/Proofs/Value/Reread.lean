import Mathlib.Data.List.TakeWhile
import Relata.Proofs.Number.Patterns
import Relata.Proofs.Number.Thousandths
import Relata.Proofs.Value.Rendering

/-!
# Finite floats, written and read again

The text of a finite float is read as a finite float that is written as the same text. The
text of an infinity is no literal.
-/

namespace Relata

-- Powers of natural numbers are core's, whatever else is imported.
attribute [local instance (1001)] instPowNat

namespace Decimal

def places (n : Nat) : Text :=
  (numeral (n % 1000)).leftpad 3 '0'

theorem writeThousandths_eq (n : Nat) :
    writeThousandths n = numeral (n / 1000) ++ '.' :: places n :=
  rfl

theorem length_places (n : Nat) : (places n).length = 3 := by
  have hle : (numeral (n % 1000)).length ≤ 3 := by
    unfold numeral
    rw [Nat.length_toDigits_le_iff (by decide) (by decide)]
    exact Nat.mod_lt n (by decide)
  unfold places List.leftpad
  rw [List.length_append, List.length_replicate]
  omega

theorem isDigit_of_mem_places {n : Nat} {c : Char} (h : c ∈ places n) : c.isDigit = true := by
  unfold places List.leftpad at h
  rcases List.mem_append.1 h with h | h
  · rw [List.eq_of_mem_replicate h]
    decide
  · exact isDigit_of_mem_numeral h

theorem numeralValue_places (n : Nat) : numeralValue (numeral (n / 1000) ++ places n) = n := by
  have hplaces : Nat.ofDigitChars 10 (places n) 0 = n % 1000 := by
    unfold places List.leftpad
    rw [Nat.ofDigitChars_append, Nat.ofDigitChars_replicate_zero, Nat.mul_zero]
    exact numeralValue_numeral (n % 1000)
  have hwhole : Nat.ofDigitChars 10 (numeral (n / 1000)) 0 = n / 1000 :=
    numeralValue_numeral (n / 1000)
  rw [numeralValue, Nat.ofDigitChars_append, hwhole, Nat.ofDigitChars_eq_ofDigitChars_zero,
    length_places, hplaces]
  omega

theorem read?_of_splitSign {t : Text} {negative : Bool} {n : Nat}
    (h : splitSign t = (negative, writeThousandths n)) :
    read? t = some ⟨negative, n, -3⟩ := by
  have hwhole : ∀ c ∈ numeral (n / 1000), c.isDigit = true := fun c hc => isDigit_of_mem_numeral hc
  have hplaces : ∀ c ∈ places n, c.isDigit = true := fun c hc => isDigit_of_mem_places hc
  have htake : (writeThousandths n).takeWhile Char.isDigit = numeral (n / 1000) := by
    rw [writeThousandths_eq, List.takeWhile_append_of_pos hwhole]
    simp
  have hdrop : (writeThousandths n).dropWhile Char.isDigit = '.' :: places n := by
    rw [writeThousandths_eq, List.dropWhile_append_of_pos hwhole]
    rfl
  have hfraction : (places n).takeWhile Char.isDigit = places n :=
    List.takeWhile_eq_self_iff.2 hplaces
  have hend : (places n).dropWhile Char.isDigit = [] := List.dropWhile_eq_nil_iff.2 hplaces
  have hfull : (numeral (n / 1000)).isEmpty = false := by
    simpa using numeral_ne_nil (n / 1000)
  unfold read?
  simp only [h, htake, hdrop, hfraction, hend, hfull, Bool.false_and, Bool.false_eq_true, if_false,
    readExponent?, Option.map_some, numeralValue_places, length_places]
  rfl

theorem splitSign_writeThousandths (n : Nat) :
    splitSign (writeThousandths n) = (false, writeThousandths n) :=
  splitSign_numeral_append (n / 1000) ('.' :: places n)

end Decimal

namespace Binary64

theorem isMagnitude_ofThousandths {units : Nat} (h : IsMagnitude units) :
    IsMagnitude (ofThousandths (thousandths units)) :=
  ⟨ofThousandths_lt h, fitsPrecision_roundToPrecision _ _⟩

theorem toBinary64_thousandths (negative : Bool) {units : Nat} (h : IsMagnitude units) :
    Decimal.toBinary64 ⟨negative, thousandths units, -3⟩ =
      finite negative (ofThousandths (thousandths units)) (isMagnitude_ofThousandths h) := by
  have hround : Decimal.toBinary64 ⟨negative, thousandths units, -3⟩ =
      round negative (thousandths units * unitsPerOne) 1000 := by
    unfold Decimal.toBinary64
    simp
  rw [hround, round]
  exact dif_pos (ofThousandths_lt h)

theorem read?_write (negative : Bool) {units : Nat} (h : IsMagnitude units) :
    Decimal.read? (finite negative units h).write = some ⟨negative, thousandths units, -3⟩ := by
  apply Decimal.read?_of_splitSign
  cases negative with
  | false => exact Decimal.splitSign_writeThousandths _
  | true => rfl

theorem write_eq_of_thousandths_eq {negative : Bool} {m n : Nat} (hm : IsMagnitude m)
    (hn : IsMagnitude n) (h : thousandths m = thousandths n) :
    (finite negative m hm).write = (finite negative n hn).write := by
  simp only [write, h]

end Binary64

namespace Value

theorem read_write_finite (negative : Bool) {units : Nat} (h : IsMagnitude units) :
    Value.read (write (.float (.finite negative units h))) =
      .ok (.float (.finite negative (Binary64.ofThousandths (Binary64.thousandths units))
        (Binary64.isMagnitude_ofThousandths h))) := by
  have hquote : ∀ c ∈ (Binary64.finite negative units h).write, c ≠ '\'' := fun c hc =>
    (Text.isPlain_spec (Binary64.isPlain_of_mem_write negative h hc)).2.2
  have hpoint : (Binary64.finite negative units h).write.contains '.' = true := by
    simpa using Binary64.point_mem_write negative h
  have hwrite : write (.float (.finite negative units h)) =
      (Binary64.finite negative units h).write := rfl
  rw [hwrite, read_of_plain hquote, if_pos hpoint, Binary64.read?_write]
  simp only [Binary64.toBinary64_thousandths negative h]

theorem exists_read_write_finite (negative : Bool) {units : Nat} (h : IsMagnitude units) :
    ∃ read isMagnitude,
      Value.read (write (.float (.finite negative units h))) =
        .ok (.float (.finite negative read isMagnitude)) ∧
      write (.float (.finite negative read isMagnitude)) =
        write (.float (.finite negative units h)) :=
  ⟨_, _, read_write_finite negative h, Binary64.write_eq_of_thousandths_eq
    (Binary64.isMagnitude_ofThousandths h) h (Binary64.thousandths_ofThousandths h.2)⟩

/--
A finite float is written as the number of thousandths nearest to it, or the even one of two,
and read back as the float nearest to these thousandths, or the one of two whose last digit is
a zero.
-/
theorem read_write_nearest (negative : Bool) {units : Nat} (h : IsMagnitude units) :
    ∃ n read isMagnitude,
      write (.float (.finite negative units h)) =
        (if negative then ['-'] else []) ++ Decimal.writeThousandths n ∧
      (∀ other, Nat.dist (n * unitsPerOne) (units * 1000) ≤
          Nat.dist (other * unitsPerOne) (units * 1000) ∧
        (other ≠ n → Nat.dist (other * unitsPerOne) (units * 1000) =
          Nat.dist (n * unitsPerOne) (units * 1000) → n % 2 = 0)) ∧
      Value.read (write (.float (.finite negative units h))) =
        .ok (.float (.finite negative read isMagnitude)) ∧
      ∀ other, IsMagnitude other →
        Nat.dist (read * 1000) (n * unitsPerOne) ≤ Nat.dist (other * 1000) (n * unitsPerOne) ∧
        (other ≠ read → Nat.dist (other * 1000) (n * unitsPerOne) =
          Nat.dist (read * 1000) (n * unitsPerOne) → Binary64.digits read % 2 = 0) := by
  refine ⟨Binary64.thousandths units, Binary64.ofThousandths (Binary64.thousandths units),
    Binary64.isMagnitude_ofThousandths h, ?_, fun other => ⟨?_, ?_⟩, read_write_finite negative h,
    fun other hother => ⟨?_, ?_⟩⟩
  · cases negative <;> rfl
  · exact dist_roundDiv_le _ Binary64.unitsPerOne_pos other
  · exact even_roundDiv_of_dist_eq Binary64.unitsPerOne_pos
  · exact dist_roundToPrecision_le _ (by decide) hother.2
  · exact even_roundToPrecision_of_dist_eq (by decide) hother.2

/-- The text of every finite pattern is stable: it is read, and written again as it was. -/
theorem read_write_pattern (bits : BitVec 64)
    (h : (Binary64.ofBits bits.toNat).isFinite = true) :
    ∃ again : BitVec 64, (Binary64.ofBits again.toNat).isFinite = true ∧
      Value.read (write (.float (.ofBits bits.toNat))) = .ok (.float (.ofBits again.toNat)) ∧
      write (.float (.ofBits again.toNat)) = write (.float (.ofBits bits.toNat)) := by
  cases hx : Binary64.ofBits bits.toNat with
  | nan =>
      rw [hx] at h
      cases h
  | infinite negative =>
      rw [hx] at h
      cases h
  | finite negative units isMagnitude =>
      obtain ⟨read, isMagnitude', hread, hwrite⟩ := exists_read_write_finite negative isMagnitude
      obtain ⟨again, hagain⟩ := Binary64.exists_pattern (.finite negative read isMagnitude')
      refine ⟨again, ?_, ?_, ?_⟩
      · rw [hagain]
        rfl
      · rw [hagain]
        exact hread
      · rw [hagain]
        exact hwrite

/-- A small negative number is read as the negative zero, which is written with its sign. -/
theorem read_write_pattern_negativeZero :
    let bits := BitVec.ofNat 64 0xBF3A36E2EB1C432D
    (Binary64.ofBits bits.toNat).isFinite = true ∧
      write (.float (.ofBits bits.toNat)) = "-0.000".toList ∧
      ∃ again : BitVec 64, (Binary64.ofBits again.toNat).isFinite = true ∧
        Value.read (write (.float (.ofBits bits.toNat))) = .ok (.float (.ofBits again.toNat)) ∧
        write (.float (.ofBits again.toNat)) = write (.float (.ofBits bits.toNat)) := by
  intro bits
  have hfinite : (Binary64.ofBits bits.toNat).isFinite = true := by decide +kernel
  exact ⟨hfinite, by decide +kernel, read_write_pattern bits hfinite⟩

theorem read_write_infinite (negative : Bool) :
    Value.read (write (.float (.infinite negative))) =
      .error (.unknownLiteral (write (.float (.infinite negative)))) := by
  cases negative <;> decide +kernel

theorem read_ne_nan {literal : Text} {v : Value} (h : Value.read literal = .ok v) :
    v ≠ .float .nan := by
  rintro rfl
  unfold Value.read at h
  split at h
  · cases h
  · split at h
    · split at h
      · rename_i d _
        rw [Except.ok.injEq, Value.float.injEq, Decimal.toBinary64, Binary64.round] at h
        split at h <;> cases h
      · cases h
    · split at h
      · cases h
      · split at h
        · cases h
        · split at h <;> cases h

end Value

end Relata
