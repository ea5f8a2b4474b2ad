import Mathlib.Logic.ExistsUnique
import Relata.Proofs.Selection.Rows
import Relata.Proofs.Value.Ordering

/-!
# A condition and its complement

Of a condition and its complement one holds on a row, if the operands are there, of one
kind, and numbers where they are floats. Where an operand is missing neither holds, so that
two selections that seem to divide the rows leave such rows out.
-/

namespace Relata

/-- The condition on the same operands that asks for the other orders. -/
def Condition.complement (condition : Condition) : Condition :=
  { condition with op := condition.op.complement }

namespace Relation

variable {source : Relation} {row : Row} {condition : Condition}

/-- An operand of the condition is missing on the row. -/
def Missing (source : Relation) (row : Row) (condition : Condition) : Prop :=
  source.under row condition.left = .noValue ∨
    source.meaning row condition.right = .ok .noValue

theorem Missing.not_holds (h : source.Missing row condition) : ¬source.Holds row condition := by
  intro hholds
  obtain ⟨value, hvalue, hcompare⟩ := Outcome.bind_eq_ok.1 hholds
  have hmissing : source.under row condition.left = .noValue ∨ value = .noValue := by
    rcases h with hleft | hright
    · exact .inl hleft
    · rw [hvalue] at hright
      exact .inr (Except.ok.inj hright)
  cases (Value.compare_missing hmissing condition.op).symm.trans hcompare

theorem Missing.not_mem_select {conditions : List Condition} {selected : Relation}
    (h : source.Missing row condition) (hselect : source.select conditions = .ok selected)
    (hmem : condition ∈ conditions ∨ condition.complement ∈ conditions) :
    row ∉ selected.rows := by
  obtain ⟨-, -, rfl⟩ := select_eq_ok_iff.1 hselect
  intro hrow
  obtain ⟨-, hholds⟩ := mem_satisfying_rows.1 hrow
  have hcomplement : source.Missing row condition.complement := h
  rcases hmem with hmem | hmem
  · exact h.not_holds (hholds condition hmem)
  · exact hcomplement.not_holds (hholds condition.complement hmem)

end Relation

namespace Value

theorem exists_typed {v : Value} (h : v ≠ .nan ∧ v ≠ .noValue) : ∃ type, v.kind = .typed type := by
  cases v with
  | nan => exact absurd rfl h.1
  | noValue => exact absurd rfl h.2
  | _ => exact ⟨_, rfl⟩

/--
Beside no marker a comparison agrees with its converse on swapped operands, and difference
with the negation of sameness. Of values of one kind exactly one strict comparison holds, and
a comparison is the negation of its complement. With a missing value nothing holds, and a row
with one is kept neither by a condition on it nor by the complement.
-/
theorem compare_converse_complement (a b : Value) :
    (a ≠ .nan ∧ a ≠ .noValue → b ≠ .nan ∧ b ≠ .noValue →
      (∀ op : Comparison,
        b.compare op.converse a = (a.compare op b).mapError Error.turned) ∧
      (∀ holds, a.compare .unequal b = .ok (!holds) ↔ a.compare .equal b = .ok holds) ∧
      (a.kind = b.kind → a ≠ .float .nan → b ≠ .float .nan →
        (∃! op, op ∈ [Comparison.less, .equal, .greater] ∧ a.compare op b = .ok true) ∧
          ∀ op, ∃ holds, a.compare op b = .ok holds ∧
            a.compare op.complement b = .ok (!holds))) ∧
    (a = .noValue ∨ b = .noValue → ∀ op, a.compare op b = .ok false) ∧
    ∀ (source : Relation) (row : Row) (condition : Condition) (conditions : List Condition)
      (selected : Relation), source.Missing row condition →
        source.select conditions = .ok selected →
          condition ∈ conditions ∨ condition.complement ∈ conditions → row ∉ selected.rows := by
  refine ⟨fun ha hb => ?_, fun h op => compare_missing h op, fun source row condition conditions
    selected h => h.not_mem_select⟩
  obtain ⟨s, hs⟩ := exists_typed ha
  obtain ⟨t, ht⟩ := exists_typed hb
  refine ⟨compare_converse hs ht, compare_unequal_iff hs ht, fun hkind hanumber hbnumber => ?_⟩
  obtain ⟨order, horder⟩ := compare_of_same_kind (hkind.symm ▸ ht) ht hanumber hbnumber
  simp only [horder, Except.ok.injEq]
  constructor
  · refine ⟨.ofOrder order, ⟨Comparison.ofOrder_mem order, ?_⟩, ?_⟩
    · exact (Comparison.accepts_iff_eq_ofOrder (Comparison.ofOrder_mem order) order).2 rfl
    · rintro op ⟨hop, haccepts⟩
      exact (Comparison.accepts_iff_eq_ofOrder hop order).1 haccepts
  · intro op
    exact ⟨_, rfl, op.accepts_complement order⟩

def sparse : Relation :=
  ⟨['t'], [⟨['n'], .int⟩], [[.int 7], [.noValue]]⟩

/-- A text beside a number, zeros of both signs, and a row without a value. -/
theorem compare_converse_complement_edges :
    (Value.int 1).compare .greater (.text ['a']) =
        ((Value.text ['a']).compare .less (.int 1)).mapError Error.turned ∧
      (Value.text ['a']).compare .less (.int 1) =
        .error (.incomparable (.typed .string) .less (.typed .int)) ∧
      (∃! op, op ∈ [Comparison.less, .equal, .greater] ∧
        (Value.float (Binary64.zero true)).compare op (.float (Binary64.zero false)) = .ok true) ∧
      (Value.noValue).compare .equal .noValue = .ok false ∧
      sparse.Missing [.noValue] ⟨['n'], .greater, ['5']⟩ ∧
      sparse.select [⟨['n'], .atMost, ['5']⟩] = .ok { sparse with rows := [] } ∧
        ([.noValue] : Row) ∉ ({ sparse with rows := [] } : Relation).rows := by
  have htext := (compare_converse_complement (.text ['a']) (.int 1)).1 ⟨nofun, nofun⟩ ⟨nofun, nofun⟩
  have hzeros := (compare_converse_complement (.float (Binary64.zero true))
    (.float (Binary64.zero false))).1 ⟨nofun, nofun⟩ ⟨nofun, nofun⟩
  have hmissing : sparse.Missing [.noValue] ⟨['n'], .greater, ['5']⟩ := .inl (by decide)
  have hselect : sparse.select [⟨['n'], .atMost, ['5']⟩] = .ok { sparse with rows := [] } := by
    decide +kernel
  refine ⟨htext.1 .less, rfl, (hzeros.2.2 rfl ?_ ?_).1,
    (compare_converse_complement .noValue .noValue).2.1 (.inl rfl) .equal, hmissing, hselect,
    (compare_converse_complement .noValue .noValue).2.2 sparse _ _ _ _ hmissing hselect
      (.inr List.mem_cons_self)⟩
  · nofun
  · nofun

end Value

end Relata
