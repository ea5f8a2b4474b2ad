import Relata.Text.Basic

/-!
# The order of texts

Comparing texts by code point is the lexicographic order of their lists of characters.
-/

namespace Relata

namespace Text

theorem order_eq_iff {s t : Text} : order s t = .eq ↔ s = t := by
  induction s generalizing t with
  | nil => cases t <;> simp [order]
  | cons c s ih =>
      cases t with
      | nil => simp [order]
      | cons d t =>
          rw [order, List.cons.injEq, ← ih]
          by_cases hlt : c.toNat < d.toNat
          · have hne : c ≠ d := fun h => by simp [h] at hlt
            simp [hlt, hne]
          · by_cases hgt : d.toNat < c.toNat
            · have hne : c ≠ d := fun h => by simp [h] at hgt
              simp [hlt, hgt, hne]
            · have heq : c = d := Char.toNat_inj.1 (by omega)
              simp [heq]

theorem order_lt_iff {s t : Text} : order s t = .lt ↔ s < t := by
  induction s generalizing t with
  | nil => cases t <;> simp [order]
  | cons c s ih =>
      cases t with
      | nil => simp [order]
      | cons d t =>
          have hchar (c d : Char) : c < d ↔ c.toNat < d.toNat := Iff.rfl
          rw [order, List.cons_lt_cons_iff, hchar, ← ih]
          by_cases hlt : c.toNat < d.toNat
          · simp [hlt]
          · by_cases hgt : d.toNat < c.toNat
            · have hne : c ≠ d := fun h => by simp [h] at hgt
              simp [hlt, hgt, hne]
            · have heq : c = d := Char.toNat_inj.1 (by omega)
              simp [heq]

theorem swap_order (s t : Text) : (order s t).swap = order t s := by
  induction s generalizing t with
  | nil => cases t <;> rfl
  | cons c s ih =>
      cases t with
      | nil => rfl
      | cons d t =>
          rw [order, order, ← ih]
          by_cases hlt : c.toNat < d.toNat
          · have hle : ¬d.toNat < c.toNat := by omega
            simp [hlt, hle]
          · by_cases hgt : d.toNat < c.toNat <;> simp [hlt, hgt]

theorem order_gt_iff {s t : Text} : order s t = .gt ↔ t < s := by
  rw [← order_lt_iff, ← swap_order s t]
  cases order s t <;> simp

end Text

end Relata
