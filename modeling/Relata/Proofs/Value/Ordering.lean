import Relata.Proofs.Text.Order
import Relata.Proofs.Value.Sameness
import Relata.Value.Comparison

/-!
# The laws of comparison

Comparing from the other side swaps the order of two values and keeps their sameness. Values
of one kind are in one of the three orders, and every comparison of them goes by it. Beside
a missing value nothing holds.
-/

namespace Relata

namespace Comparison

/-- The comparison as it is told from the right operand. -/
def converse : Comparison → Comparison
  | .atLeast => .atMost
  | .atMost => .atLeast
  | .greater => .less
  | .less => .greater
  | .equal => .equal
  | .unequal => .unequal

/-- The comparison that holds in the orders in which this one does not. -/
def complement : Comparison → Comparison
  | .atLeast => .less
  | .atMost => .greater
  | .greater => .atMost
  | .less => .atLeast
  | .equal => .unequal
  | .unequal => .equal

theorem accepts_swap (op : Comparison) (order : Ordering) :
    op.converse.accepts order.swap = op.accepts order := by
  cases op <;> cases order <;> rfl

theorem accepts_complement (op : Comparison) (order : Ordering) :
    op.complement.accepts order = !op.accepts order := by
  cases op <;> cases order <;> rfl

def ofOrder : Ordering → Comparison
  | .lt => .less
  | .eq => .equal
  | .gt => .greater

theorem ofOrder_mem (order : Ordering) : ofOrder order ∈ [less, equal, greater] := by
  cases order <;> decide

theorem accepts_iff_eq_ofOrder {op : Comparison} (h : op ∈ [less, equal, greater])
    (order : Ordering) : op.accepts order = true ↔ op = ofOrder order := by
  revert h
  cases op <;> cases order <;> decide

end Comparison

/-- The failure of a comparison, as it is told from the right operand. -/
def Error.turned : Error → Error
  | .incomparable left op right => .incomparable right op.converse left
  | e => e

/-! ## Orders of numbers -/

namespace Binary64

theorem compare?_eq_map (x y : Binary64) :
    x.compare? y = x.rank?.bind fun a => y.rank?.map (compare a) := by
  unfold compare?
  cases x.rank? <;> cases y.rank? <;> rfl

theorem swap_compare? (x y : Binary64) : (x.compare? y).map Ordering.swap = y.compare? x := by
  unfold compare?
  cases x.rank? with
  | none => cases y.rank? <;> rfl
  | some a =>
      cases y.rank? with
      | none => rfl
      | some b => exact congrArg some Std.OrientedOrd.eq_swap.symm

theorem exists_rank? {x : Binary64} (h : x ≠ .nan) : ∃ rank, x.rank? = some rank := by
  cases x with
  | nan => exact absurd rfl h
  | infinite => exact ⟨_, rfl⟩
  | finite => exact ⟨_, rfl⟩

end Binary64

namespace Value

variable {left right : Value} {op : Comparison}

/-! ## Sides -/

theorem identical_comm (left right : Value) : left.identical right = right.identical left :=
  Bool.eq_iff_iff.2 ⟨identical_symm, identical_symm⟩

theorem swap_order? (left right : Value) :
    (left.order? right).map Ordering.swap = right.order? left := by
  cases left <;> cases right
  case text.text s t => exact congrArg some (Text.swap_order s t)
  case int.int a b => exact congrArg some Std.OrientedOrd.eq_swap.symm
  case float.float x y => exact Binary64.swap_compare? x y
  case int.float a y => exact Binary64.swap_compare? (toFloat a) y
  case float.int x b => exact Binary64.swap_compare? x (toFloat b)
  all_goals rfl

theorem isText_eq (v : Value) : v.isText = decide (v.kind = .typed .string) := by
  cases v <;> rfl

def relates (left : Value) (op : Comparison) (right : Value) : Bool :=
  match op with
  | .equal => left.identical right
  | .unequal => !left.identical right
  | _ => (left.order? right).any op.accepts

theorem relates_converse (left : Value) (op : Comparison) (right : Value) :
    right.relates op.converse left = left.relates op right := by
  have horder : (right.order? left).any op.converse.accepts =
      (left.order? right).any op.accepts := by
    rw [← swap_order? left right]
    cases left.order? right with
    | none => rfl
    | some order => exact op.accepts_swap order
  cases op
  case equal => exact identical_comm right left
  case unequal => exact congrArg not (identical_comm right left)
  all_goals exact horder

/-- Beside no marker a comparison fails if one side only is a text, and else says what holds. -/
theorem compare_of_typed {s t : DataType} (hleft : left.kind = .typed s)
    (hright : right.kind = .typed t) (op : Comparison) :
    left.compare op right =
      if left.isText = right.isText then .ok (left.relates op right)
      else .error (.incomparable left.kind op right.kind) := by
  have hmarker : ¬(Kind.typed s = .noValue ∨ Kind.typed t = .noValue) := by simp
  have hnan : Kind.typed s ≠ .nan := nofun
  unfold compare relates
  rw [hleft, hright, if_neg hmarker, if_neg hnan]
  by_cases htext : left.isText = right.isText
  · rw [if_neg fun hne => hne htext, if_pos htext]
    cases op <;> rfl
  · rw [if_pos htext, if_neg htext]

theorem compare_converse {s t : DataType} (hleft : left.kind = .typed s)
    (hright : right.kind = .typed t) (op : Comparison) :
    right.compare op.converse left = (left.compare op right).mapError Error.turned := by
  rw [compare_of_typed hleft hright, compare_of_typed hright hleft, relates_converse]
  by_cases htext : left.isText = right.isText
  · rw [if_pos htext, if_pos htext.symm]
    rfl
  · rw [if_neg htext, if_neg (Ne.symm htext)]
    rfl

theorem compare_unequal_iff {s t : DataType} (hleft : left.kind = .typed s)
    (hright : right.kind = .typed t) (holds : Bool) :
    left.compare .unequal right = .ok (!holds) ↔ left.compare .equal right = .ok holds := by
  rw [compare_of_typed hleft hright, compare_of_typed hleft hright]
  by_cases htext : left.isText = right.isText
  · rw [if_pos htext, if_pos htext, Except.ok.injEq, Except.ok.injEq]
    exact Bool.not_inj_iff
  · rw [if_neg htext, if_neg htext]
    exact iff_of_false nofun nofun

/-! ## Values of one kind -/

theorem exists_order? {type : DataType} (hleft : left.kind = .typed type)
    (hright : right.kind = .typed type) (hl : left ≠ .float .nan) (hr : right ≠ .float .nan) :
    ∃ order, left.order? right = some order ∧ left.identical right = (order == .eq) := by
  cases left <;> cases right <;> cases hleft <;> cases hright
  case text.text s t =>
    refine ⟨Text.order s t, rfl, Bool.eq_iff_iff.2 ?_⟩
    rw [beq_iff_eq, Text.order_eq_iff]
    exact decide_eq_true_iff
  case int.int a b =>
    refine ⟨Ord.compare a.toInt b.toInt, rfl, Bool.eq_iff_iff.2 ?_⟩
    rw [beq_iff_eq, Std.LawfulEqOrd.compare_eq_iff_eq, Int64.toInt_inj]
    exact decide_eq_true_iff
  case float.float x y =>
    have hx : x ≠ .nan := fun h => hl (congrArg float h)
    have hy : y ≠ .nan := fun h => hr (congrArg float h)
    obtain ⟨a, ha⟩ := Binary64.exists_rank? hx
    obtain ⟨b, hb⟩ := Binary64.exists_rank? hy
    have horder : x.compare? y = some (Ord.compare a b) := by
      rw [Binary64.compare?_eq_map, ha, hb]
      rfl
    have hsame : x.sameNumber y = (Ord.compare a b == .eq) := by
      rw [Binary64.sameNumber, horder]
      rfl
    exact ⟨Ord.compare a b, horder, hsame⟩

/-- Every comparison of two values of one type goes by their order. -/
theorem compare_of_same_kind {type : DataType} (hleft : left.kind = .typed type)
    (hright : right.kind = .typed type) (hl : left ≠ .float .nan) (hr : right ≠ .float .nan) :
    ∃ order, ∀ op, left.compare op right = .ok (op.accepts order) := by
  obtain ⟨order, horder, hsame⟩ := exists_order? hleft hright hl hr
  have htext : left.isText = right.isText := by
    rw [isText_eq, isText_eq, hleft, hright]
  refine ⟨order, fun op => ?_⟩
  rw [compare_of_typed hleft hright, if_pos htext]
  cases op
  case equal => exact congrArg Except.ok hsame
  case unequal => exact congrArg (fun same => Except.ok !same) hsame
  all_goals exact congrArg (fun order? => Except.ok (Option.any _ order?)) horder

/-! ## Missing values -/

theorem compare_missing (h : left = .noValue ∨ right = .noValue) (op : Comparison) :
    left.compare op right = .ok false := by
  unfold compare
  rw [if_pos]
  rcases h with rfl | rfl
  · exact .inl rfl
  · exact .inr rfl

end Value

end Relata
