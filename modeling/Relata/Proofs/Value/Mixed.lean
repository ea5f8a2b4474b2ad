import Relata.Proofs.Number.Order

/-!
# An integer beside a float

The two compare as the number nearest to the integer and the float do. That is their order by
exact values, unless the float is that nearest number: they then pass for equal, though an
integer with more than 53 significant digits may lie on either side of it.
-/

namespace Relata

namespace Comparison

/-- The comparisons that go by the order of their operands alone. -/
def orderings : List Comparison :=
  [greater, atLeast, less, atMost]

/-- Taking an order for equality matters to a comparison that tells the two apart. -/
theorem accepts_ite_eq_iff (op : Comparison) (same : Prop) [Decidable same] (order : Ordering) :
    op.accepts (if same then .eq else order) = op.accepts order ↔
      ¬(same ∧ op.accepts order ≠ op.accepts .eq) := by
  by_cases h : same
  · rw [if_pos h, not_and_not_right]
    exact ⟨fun heq _ => heq.symm, fun heq => (heq h).symm⟩
  · rw [if_neg h]
    exact iff_of_true rfl fun hsame => h hsame.1

end Comparison

namespace Value

theorem natAbs_toInt_le (a : Int64) : a.toInt.natAbs ≤ 2 ^ 63 := by
  have hlow := a.le_toInt
  have hhigh := a.toInt_lt
  omega

theorem exists_order?_int_float (a : Int64) {y : Binary64} (hy : y ≠ .nan) :
    ∃ exact, y.exactOrder? a.toInt = some exact ∧
      (int a).order? (float y) =
        some (if (toFloat a).sameNumber y then .eq else exact) :=
  Binary64.compare?_ofInt (natAbs_toInt_le a) hy

theorem compare_of_order? {left right : Value} {s t : DataType} (hleft : left.kind = .typed s)
    (hright : right.kind = .typed t) (htext : left.isText = right.isText) {op : Comparison}
    (hop : op ∈ Comparison.orderings) {order : Ordering} (horder : left.order? right = some order) :
    left.compare op right = .ok (op.accepts order) := by
  have hrelates : left.relates op right = (left.order? right).any op.accepts := by
    cases op
    case equal | unequal => exact absurd hop (by decide)
    all_goals rfl
  rw [compare_of_typed hleft hright, if_pos htext, hrelates, horder]
  rfl

/--
An integer and a float that is a number compare as their exact values do, in either order of
operands, exactly unless the float is the number nearest to the integer and the comparison
tells the order of the exact values from equality. With at most 53 significant digits in the
integer that order is equality.
-/
theorem compare_int_float_exact_iff (a : Int64) {y : Binary64} (hy : y ≠ .nan) :
    ∃ exact, y.exactOrder? a.toInt = some exact ∧
      (∀ op ∈ Comparison.orderings,
        (∃ holds, (int a).compare op (float y) = .ok holds ∧
          (holds = op.accepts exact ↔
            ¬((toFloat a).sameNumber y = true ∧ op.accepts exact ≠ op.accepts .eq))) ∧
        ∃ holds, (float y).compare op (int a) = .ok holds ∧
          (holds = op.accepts exact.swap ↔
            ¬((toFloat a).sameNumber y = true ∧ op.accepts exact.swap ≠ op.accepts .eq))) ∧
      (FitsPrecision a.toInt.natAbs → (toFloat a).sameNumber y = true → exact = .eq) := by
  obtain ⟨exact, hexact, horder⟩ := exists_order?_int_float a hy
  have hback := swap_order? (int a) (float y)
  rw [horder, Option.map_some, apply_ite Ordering.swap] at hback
  have htext : (int a).isText = (float y).isText := rfl
  refine ⟨exact, hexact, fun op hop => ⟨?_, ?_⟩, fun hfits hsame => ?_⟩
  · have hforward := compare_of_order? rfl rfl htext hop horder
    exact ⟨_, hforward, op.accepts_ite_eq_iff ((toFloat a).sameNumber y = true) exact⟩
  · have hbackward := compare_of_order? rfl rfl htext.symm hop hback.symm
    exact ⟨_, hbackward, op.accepts_ite_eq_iff ((toFloat a).sameNumber y = true) exact.swap⟩
  · have heq := Binary64.exactOrder?_of_fits (natAbs_toInt_le a) hfits hsame
    exact Option.some.inj (hexact.symm.trans heq)

/-- The least positive float such that the next integer is no float. -/
def brim : Binary64 :=
  .ofInt 9007199254740992

theorem exactOrder?_brim : brim.exactOrder? (9007199254740993 : Int64).toInt = some .gt := by
  decide +kernel

/-- The float passes for equal to the next integer, and compares exactly with those before. -/
theorem compare_int_float_exact_iff_brim :
    brim ≠ .nan ∧ brim.exactOrder? (9007199254740992 : Int64).toInt = some .eq ∧
      (toFloat 9007199254740993).sameNumber brim = true ∧
      (∃ holds, (int 9007199254740993).compare .greater (float brim) = .ok holds ∧ holds ≠ true) ∧
      (∃ holds, (int 9007199254740993).compare .atLeast (float brim) = .ok holds ∧ holds = true) ∧
      ∃ holds, (float brim).compare .greater (int 9007199254740991) = .ok holds ∧ holds = true := by
  have hnumber : brim ≠ .nan := by decide +kernel
  have hsame : (toFloat 9007199254740993).sameNumber brim = true := by decide +kernel
  have hother : (toFloat 9007199254740991).sameNumber brim = false := by decide +kernel
  have hfits : FitsPrecision (9007199254740992 : Int64).toInt.natAbs := by decide +kernel
  have hself : (toFloat 9007199254740992).sameNumber brim = true := by decide +kernel
  have hbelow : brim.exactOrder? (9007199254740991 : Int64).toInt = some .lt := by decide +kernel
  obtain ⟨exact, hexact, habove, -⟩ := compare_int_float_exact_iff 9007199254740993 hnumber
  obtain ⟨exact', hexact', hbefore, -⟩ := compare_int_float_exact_iff 9007199254740991 hnumber
  obtain ⟨equal, hequal, -, hequaliff⟩ := compare_int_float_exact_iff 9007199254740992 hnumber
  cases Option.some.inj (hexact.symm.trans exactOrder?_brim)
  cases Option.some.inj (hexact'.symm.trans hbelow)
  obtain ⟨⟨greater, hgreater, hgreateriff⟩, -⟩ := habove .greater (by decide)
  obtain ⟨⟨atLeast, hatLeast, hatLeastiff⟩, -⟩ := habove .atLeast (by decide)
  obtain ⟨-, beyond, hbeyond, hbeyondiff⟩ := hbefore .greater (by decide)
  rw [hequaliff hfits hself] at hequal
  refine ⟨hnumber, hequal, hsame, ⟨greater, hgreater, fun h => ?_⟩, ⟨atLeast, hatLeast, ?_⟩,
    ⟨beyond, hbeyond, ?_⟩⟩
  · exact hgreateriff.1 h ⟨hsame, by decide⟩
  · exact hatLeastiff.2 fun h => h.2 rfl
  · exact hbeyondiff.2 fun h => absurd (hother.symm.trans h.1) (by decide)

/-- Comparisons of an integer and a float need not be those of their exact values. -/
theorem not_exact_brim :
    ¬∀ (a : Int64) (y : Binary64), y ≠ .nan →
      ∃ exact, y.exactOrder? a.toInt = some exact ∧
        ∀ op ∈ Comparison.orderings, (int a).compare op (float y) = .ok (op.accepts exact) ∧
          (float y).compare op (int a) = .ok (op.accepts exact.swap) := by
  intro h
  obtain ⟨exact, hexact, hcompare⟩ := h 9007199254740993 brim (by decide +kernel)
  cases Option.some.inj (hexact.symm.trans exactOrder?_brim)
  have hfalse : (int 9007199254740993).compare .greater (float brim) = .ok false := by
    decide +kernel
  cases hfalse.symm.trans (hcompare .greater (by decide)).1

end Value

end Relata
