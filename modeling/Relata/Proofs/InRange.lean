import Relata.Proofs.Outcome
import Relata.Relation.Operand
import Relata.Storage.TableFile
import Relata.Value.Comparison

/-!
# Computations that stay in range

A computation stays in range if it does not fail with a position outside of a text, a row or
a list of columns. Sequences, traversals and folds of such steps stay in range; values,
literals, definitions and clauses refer to no positions at all.
-/

namespace Relata

open Outcome (FailsOnly)

/-- Whatever else may come of a computation, no position in it is out of range. -/
def InRange (x : Except Error α) : Prop :=
  x ≠ .error .outOfRange

theorem inRange_iff {x : Except Error α} : InRange x ↔ FailsOnly (· ≠ .outOfRange) x := by
  refine ⟨fun h e he hout => h (hout ▸ he), fun h hx => h .outOfRange hx rfl⟩

namespace InRange

theorem ok (a : α) : InRange (.ok a) :=
  nofun

theorem error {e : Error} (h : InRange (.error e : Except Error α)) :
    InRange (.error e : Except Error β) :=
  fun heq => h (congrArg Except.error (Except.error.inj heq))

theorem bind {x : Except Error α} {f : α → Except Error β} (hx : InRange x)
    (hf : ∀ a, x = .ok a → InRange (f a)) : InRange (x >>= f) :=
  inRange_iff.2 ((inRange_iff.1 hx).bind fun a ha => inRange_iff.1 (hf a ha))

theorem map {x : Except Error α} (f : α → β) (hx : InRange x) : InRange (f <$> x) :=
  inRange_iff.2 ((inRange_iff.1 hx).map f)

theorem mapM {f : α → Except Error β} {xs : List α} (h : ∀ x ∈ xs, InRange (f x)) :
    InRange (xs.mapM f) :=
  inRange_iff.2 (FailsOnly.mapM fun x hx => inRange_iff.1 (h x hx))

theorem filterMapM {f : α → Except Error (Option β)} {xs : List α}
    (h : ∀ x ∈ xs, InRange (f x)) : InRange (xs.filterMapM f) :=
  inRange_iff.2 (FailsOnly.filterMapM fun x hx => inRange_iff.1 (h x hx))

theorem foldlM {f : γ → α → Except Error γ} {xs : List α} (h : ∀ x s, InRange (f s x))
    (first : γ) : InRange (xs.foldlM f first) :=
  inRange_iff.2 (FailsOnly.foldlM (fun x s => inRange_iff.1 (h x s)) first)

end InRange

/-- The failure of a part of a query that has its form, with no position at fault. -/
structure Error.OfClause (e : Error) : Prop where
  isMalformed : e.isMalformed = false
  ne_outOfRange : e ≠ .outOfRange

/-! ## Values -/

namespace Value

theorem failsOnly_read (literal : Text) :
    FailsOnly (· = .unknownLiteral literal) (Value.read literal) := by
  unfold Value.read
  split
  · exact FailsOnly.ok _
  · split
    · split
      · exact FailsOnly.ok _
      · exact FailsOnly.error rfl
    · split
      · exact FailsOnly.ok _
      · split
        · exact FailsOnly.ok _
        · split
          · exact FailsOnly.ok _
          · exact FailsOnly.error rfl

theorem inRange_read (literal : Text) : InRange (Value.read literal) :=
  inRange_iff.2 ((failsOnly_read literal).mono fun _ h => h ▸ nofun)

theorem inRange_add (left right : Value) : InRange (add left right) := by
  unfold add
  split <;> nofun

theorem inRange_subtract (left right : Value) : InRange (subtract left right) := by
  unfold subtract
  split <;> nofun

theorem inRange_multiply (left right : Value) : InRange (multiply left right) := by
  unfold multiply
  split <;> nofun

theorem inRange_divide (left right : Value) : InRange (divide left right) := by
  unfold divide
  split
  case h_3 => split <;> nofun
  all_goals nofun

theorem divide_int (a b : Int64) :
    ((b = 0 ∨ a = Int64.minValue ∧ b = -1) ∧ divide (.int a) (.int b) = .ok .nan) ∨
      (b ≠ 0 ∧ ∃ q : Int64, divide (.int a) (.int b) = .ok (.int q) ∧
        q.toInt = a.toInt.tdiv b.toInt) := by
  unfold divide quotient?
  by_cases hzero : b = 0
  · left
    exact ⟨.inl hzero, by simp [hzero]⟩
  · by_cases hover : a = Int64.minValue ∧ b = -1
    · left
      exact ⟨.inr hover, by simp [hover]⟩
    · right
      refine ⟨hzero, a / b, by simp [hzero, hover], ?_⟩
      by_cases hmin : a = Int64.minValue
      · exact Int64.toInt_div_of_ne_right a b fun h => hover ⟨hmin, h⟩
      · exact Int64.toInt_div_of_ne_left a b hmin

theorem inRange_operation (op : Arithmetic) (left right : Value) :
    InRange (operation op left right) := by
  cases op with
  | add => exact inRange_add left right
  | subtract => exact inRange_subtract left right
  | multiply => exact inRange_multiply left right
  | divide => exact inRange_divide left right

theorem inRange_arithmetic (left : Value) (op : Arithmetic) (right : Value) :
    InRange (left.arithmetic op right) := by
  unfold arithmetic
  split
  case h_8 => exact inRange_operation op left right
  all_goals nofun

theorem inRange_compare (left : Value) (op : Comparison) (right : Value) :
    InRange (left.compare op right) := by
  unfold compare
  split
  · nofun
  · split
    · nofun
    · split
      · nofun
      · split <;> nofun

end Value

/-! ## Columns and rows -/

namespace Column

theorem failsOnly_read (definition : Text) :
    FailsOnly Error.OfClause (Column.read definition) := by
  unfold Column.read
  split
  · split
    · exact FailsOnly.ok _
    · exact FailsOnly.error ⟨rfl, nofun⟩
  · exact FailsOnly.error ⟨rfl, nofun⟩

theorem failsOnly_readAll (definitions : List Text) :
    FailsOnly Error.OfClause (readAll definitions) := by
  induction definitions with
  | nil => exact FailsOnly.ok []
  | cons definition rest ih =>
      refine (failsOnly_read definition).bind fun column _ => ?_
      exact ih.bind fun columns _ => FailsOnly.ok (column :: columns)

theorem inRange_readAll (definitions : List Text) : InRange (readAll definitions) :=
  inRange_iff.2 ((failsOnly_readAll definitions).mono fun _ h => h.ne_outOfRange)

theorem inRange_index (columns : List Column) (name : Text) : InRange (index columns name) := by
  unfold index
  split <;> nofun

end Column

theorem Operand.inRange_read (columns : List Column) (t : Text) :
    InRange (Operand.read columns t) := by
  unfold Operand.read
  split
  · exact InRange.ok _
  · exact (Value.inRange_read t).map _

namespace Relation

theorem inRange_readCell (column : Column) (literal : Text) :
    InRange (readCell column literal) := by
  refine (Value.inRange_read literal).bind fun value _ => ?_
  split
  · exact InRange.ok value
  · nofun

theorem inRange_readRow (columns : List Column) (literals : List Text) :
    InRange (readRow columns literals) := by
  unfold readRow
  split
  · exact InRange.mapM fun item _ => inRange_readCell item.1 item.2
  · nofun

theorem inRange_appendRow (relation : Relation) (literals : List Text) :
    InRange ((appendRow literals).apply relation).1 := by
  have hread := inRange_readRow relation.columns literals
  rw [apply_appendRow]
  cases h : readRow relation.columns literals with
  | error e => exact InRange.error (h ▸ hread)
  | ok row => exact InRange.ok ()

theorem inRange_ofFile (file name : Text) (content : Option Bytes) :
    InRange (ofFile file name content) := by
  unfold ofFile
  split
  · nofun
  · unfold ofLines
    split
    · nofun
    · split
      · nofun
      · refine (Column.inRange_readAll _).bind fun columns _ => ?_
        refine InRange.bind ?_ fun rows _ => InRange.ok _
        exact InRange.mapM fun literals _ => inRange_readRow columns literals

end Relation

end Relata
