import Relata.Value.Basic

/-!
# Sameness of values

Identical values are of one kind, and sameness is symmetric and transitive. It is not
reflexive: a float that is not a number is identical to nothing.
-/

namespace Relata

theorem Binary64.sameNumber_iff {x y : Binary64} :
    x.sameNumber y = true ↔ ∃ rank, x.rank? = some rank ∧ y.rank? = some rank := by
  unfold sameNumber compare?
  cases x.rank? with
  | none => simp
  | some a =>
      cases y.rank? with
      | none => simp
      | some b =>
          have heq : compare a b = .eq ↔ a = b := Std.LawfulEqOrd.compare_eq_iff_eq
          simp only [beq_iff_eq, Option.some.injEq, heq]
          constructor
          · rintro rfl
            exact ⟨a, rfl, rfl⟩
          · rintro ⟨rank, rfl, hb⟩
            exact hb.symm

namespace Value

theorem identical_symm {v w : Value} (h : v.identical w = true) : w.identical v = true := by
  cases v <;> cases w
  case int.int => exact decide_eq_true (of_decide_eq_true h).symm
  case float.float x y =>
    obtain ⟨rank, hx, hy⟩ := Binary64.sameNumber_iff.1 h
    exact Binary64.sameNumber_iff.2 ⟨rank, hy, hx⟩
  case text.text => exact decide_eq_true (of_decide_eq_true h).symm
  case nan.nan => rfl
  case noValue.noValue => rfl
  all_goals exact absurd h Bool.false_ne_true

theorem identical_trans {u v w : Value} (huv : u.identical v = true)
    (hvw : v.identical w = true) : u.identical w = true := by
  cases u <;> cases v
  case int.int m n =>
    have hmn : m = n := of_decide_eq_true huv
    exact hmn ▸ hvw
  case float.float x y =>
    cases w
    case float z =>
      obtain ⟨rank, hx, hy⟩ := Binary64.sameNumber_iff.1 huv
      obtain ⟨rank', hy', hz⟩ := Binary64.sameNumber_iff.1 hvw
      have hrank : rank = rank' := Option.some.inj (hy.symm.trans hy')
      exact Binary64.sameNumber_iff.2 ⟨rank, hx, hrank ▸ hz⟩
    all_goals exact absurd hvw Bool.false_ne_true
  case text.text s t =>
    have hst : s = t := of_decide_eq_true huv
    exact hst ▸ hvw
  case nan.nan => exact hvw
  case noValue.noValue => exact hvw
  all_goals exact absurd huv Bool.false_ne_true

theorem identical_self {v : Value} (h : v ≠ .float .nan) : v.identical v = true := by
  cases v with
  | float x =>
      cases x with
      | nan => exact absurd rfl h
      | infinite => exact Binary64.sameNumber_iff.2 ⟨_, rfl, rfl⟩
      | finite => exact Binary64.sameNumber_iff.2 ⟨_, rfl, rfl⟩
  | int n => exact decide_eq_true rfl
  | text t => exact decide_eq_true rfl
  | nan => rfl
  | noValue => rfl

end Value

end Relata
