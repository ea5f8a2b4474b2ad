import Relata.Number.Rounding

/-!
# Binary64 numbers

Every finite number of the format is a whole number of units of `2 ^ -1074`, with a sign
that zero carries too. A magnitude has at most 53 significant binary digits and stays
below `2 ^ 2098` units. Arithmetic is exact on units and rounds once, to the nearest
magnitude, a tie to the even one, and to an infinity from the bound upwards.
-/

namespace Relata

-- Powers of natural numbers are core's, whatever else is imported.
attribute [local instance (1001)] instPowNat

/-- One, in units of the smallest positive magnitude. -/
def unitsPerOne : Nat :=
  2 ^ (1074 : Nat)

/-- The binary place of the last digit of the largest magnitudes. -/
def topPlace : Nat :=
  2045

/-- The least power of two above all magnitudes, in units. -/
def magnitudeBound : Nat :=
  2 ^ (53 + topPlace)

theorem magnitudeBound_pos : 0 < magnitudeBound :=
  Nat.two_pow_pos (53 + topPlace)

def IsMagnitude (units : Nat) : Prop :=
  units < magnitudeBound ∧ FitsPrecision units

instance (units : Nat) : Decidable (IsMagnitude units) :=
  inferInstanceAs (Decidable (_ ∧ _))

/-- A number of the binary64 format. All that is not a number is one value. -/
inductive Binary64 where
  | nan
  | infinite (negative : Bool)
  | finite (negative : Bool) (units : Nat) (isMagnitude : IsMagnitude units)
  deriving DecidableEq

namespace Binary64

theorem isMagnitude_zero : IsMagnitude 0 := by
  refine ⟨magnitudeBound_pos, ?_⟩
  simp [FitsPrecision]

def zero (negative : Bool) : Binary64 :=
  .finite negative 0 isMagnitude_zero

/-- The number nearest to `num / den` units with the given sign. -/
def round (negative : Bool) (num den : Nat) : Binary64 :=
  if h : roundToPrecision num den < magnitudeBound then
    .finite negative (roundToPrecision num den) ⟨h, fitsPrecision_roundToPrecision num den⟩
  else
    .infinite negative

/-! ## Bit patterns -/

def signBit (negative : Bool) : Nat :=
  if negative then 2 ^ (63 : Nat) else 0

/-- The exponent field that marks infinities and what is not a number. -/
def topExponent : Nat :=
  2047

/-- The pattern of a number; what is not a number has the quiet pattern without sign. -/
def toBits : Binary64 → Nat
  | .nan => topExponent * 2 ^ (52 : Nat) + 2 ^ (51 : Nat)
  | .infinite negative => signBit negative + topExponent * 2 ^ (52 : Nat)
  | .finite negative units _ =>
      signBit negative + (lastPlace units * 2 ^ (52 : Nat) + units / 2 ^ lastPlace units)

/-- The magnitude in units of an exponent field and a fraction field. -/
def fieldUnits (exponent fraction : Nat) : Nat :=
  if exponent = 0 then fraction else (2 ^ (52 : Nat) + fraction) * 2 ^ (exponent - 1)

theorem isMagnitude_fieldUnits {exponent fraction : Nat}
    (hexponent : exponent < topExponent) (hfraction : fraction < 2 ^ (52 : Nat)) :
    IsMagnitude (fieldUnits exponent fraction) := by
  unfold fieldUnits IsMagnitude magnitudeBound
  unfold topExponent at hexponent
  split
  · refine ⟨?_, ?_⟩
    · exact Nat.lt_of_lt_of_le hfraction (Nat.pow_le_pow_right (by decide) (by omega))
    · have h := fitsPrecision_mul_two_pow (m := fraction) (by omega) 0
      simpa using h
  · have hm : 2 ^ (52 : Nat) + fraction < 2 ^ (53 : Nat) := by omega
    refine ⟨?_, fitsPrecision_mul_two_pow (by omega) _⟩
    have h₁ : (2 ^ (52 : Nat) + fraction) * 2 ^ (exponent - 1) <
        2 ^ (53 : Nat) * 2 ^ (exponent - 1) :=
      Nat.mul_lt_mul_of_pos_right hm (Nat.two_pow_pos _)
    have h₂ : 2 ^ (53 : Nat) * 2 ^ (exponent - 1) ≤ 2 ^ (53 + topPlace) := by
      rw [← Nat.pow_add]
      exact Nat.pow_le_pow_right (by decide) (by unfold topPlace; omega)
    exact Nat.lt_of_lt_of_le h₁ h₂

def ofBits (bits : Nat) : Binary64 :=
  let negative := bits / 2 ^ (63 : Nat) % 2 = 1
  let exponent := bits / 2 ^ (52 : Nat) % 2048
  let fraction := bits % 2 ^ (52 : Nat)
  if h : exponent < topExponent then
    .finite negative (fieldUnits exponent fraction)
      (isMagnitude_fieldUnits h (Nat.mod_lt _ (by decide)))
  else if fraction = 0 then .infinite negative
  else .nan

/-! ## Order -/

def signed (negative : Bool) (units : Nat) : Int :=
  if negative then -(units : Int) else units

/-- The place of a number in the order; infinities lie at the bound. -/
def rank? : Binary64 → Option Int
  | .nan => none
  | .infinite negative => some (signed negative magnitudeBound)
  | .finite negative units _ => some (signed negative units)

/-- The order of two numbers; none if either is not a number. -/
def compare? (x y : Binary64) : Option Ordering :=
  match x.rank?, y.rank? with
  | some a, some b => some (compare a b)
  | _, _ => none

/-- Equality of numbers: the zeros are equal, and what is not a number equals nothing. -/
def sameNumber (x y : Binary64) : Bool :=
  x.compare? y == some .eq

def isFinite : Binary64 → Bool
  | .finite _ _ _ => true
  | _ => false

/-! ## Arithmetic -/

def ofInt (i : Int) : Binary64 :=
  round (i < 0) (i.natAbs * unitsPerOne) 1

def neg : Binary64 → Binary64
  | .nan => .nan
  | .infinite negative => .infinite (!negative)
  | .finite negative units h => .finite (!negative) units h

/-- Sum. Opposite numbers add up to positive zero, opposite infinities to no number. -/
def add : Binary64 → Binary64 → Binary64
  | .nan, _ => .nan
  | _, .nan => .nan
  | .infinite s, .infinite t => if s = t then .infinite s else .nan
  | .infinite s, .finite _ _ _ => .infinite s
  | .finite _ _ _, .infinite t => .infinite t
  | .finite s m _, .finite t n _ =>
      let sum := signed s m + signed t n
      if sum = 0 then zero (s && t) else round (sum < 0) sum.natAbs 1

def sub (x y : Binary64) : Binary64 :=
  x.add y.neg

/-- Product. Zero times an infinity is no number. -/
def mul : Binary64 → Binary64 → Binary64
  | .nan, _ => .nan
  | _, .nan => .nan
  | .infinite s, .infinite t => .infinite (s != t)
  | .infinite s, .finite t n _ => if n = 0 then .nan else .infinite (s != t)
  | .finite s m _, .infinite t => if m = 0 then .nan else .infinite (s != t)
  | .finite s m _, .finite t n _ => round (s != t) (m * n) unitsPerOne

/-- Quotient. Zero by zero and infinity by infinity are no number. -/
def div : Binary64 → Binary64 → Binary64
  | .nan, _ => .nan
  | _, .nan => .nan
  | .infinite _, .infinite _ => .nan
  | .infinite s, .finite t _ _ => .infinite (s != t)
  | .finite s _ _, .infinite t => zero (s != t)
  | .finite s m _, .finite t n _ =>
      if n = 0 then if m = 0 then .nan else .infinite (s != t)
      else round (s != t) (m * unitsPerOne) n

end Binary64

end Relata
