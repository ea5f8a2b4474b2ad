import Mathlib.Data.List.Induction
import Relata.Proofs.Outcome
import Relata.Relation.Projection

/-!
# Relations built column by column

A relation built from columns of values has as many rows as its longest column, and each
row holds the values of the columns that reach it. A projection computes one column per
target before it builds its relation from them.
-/

namespace Relata

namespace Relation

/-- The relation with the given columns, added one after the other. -/
def ofColumns (columns : List (Column × List Value)) : Relation :=
  columns.foldl (fun relation column => relation.appendColumn column.1 column.2) empty

def longest (columns : List (Column × List Value)) : Nat :=
  columns.foldl (fun length column => max length column.2.length) 0

/-- The values at a position in the columns that reach it. -/
def rowAt (columns : List (Column × List Value)) (i : Nat) : Row :=
  columns.filterMap fun column => column.2[i]?

theorem getElem?_extendRows (rows : List Row) (values : List Value) (i : Nat) :
    (extendRows rows values)[i]? =
      if i < max rows.length values.length then
        some ((rows[i]?).getD [] ++ (values[i]?).toList)
      else none := by
  induction values generalizing rows i with
  | nil => by_cases hi : i < rows.length <;> simp [extendRows, hi]
  | cons value values ih =>
      cases rows with
      | nil =>
          cases i with
          | zero => simp [extendRows]
          | succ i => simpa [extendRows] using ih [] i
      | cons row rows =>
          cases i with
          | zero => simp [extendRows]
          | succ i => simpa [extendRows, Nat.succ_max_succ] using ih rows i

theorem ofColumns_concat (columns : List (Column × List Value)) (column : Column)
    (values : List Value) :
    ofColumns (columns ++ [(column, values)]) =
      (ofColumns columns).appendColumn column values := by
  simp [ofColumns]

theorem longest_concat (columns : List (Column × List Value)) (column : Column)
    (values : List Value) :
    longest (columns ++ [(column, values)]) = max (longest columns) values.length := by
  simp [longest]

theorem length_le_longest {columns : List (Column × List Value)} {column : Column × List Value}
    (h : column ∈ columns) : column.2.length ≤ longest columns := by
  induction columns using List.reverseRecOn with
  | nil => cases h
  | append_singleton columns last ih =>
      rw [longest_concat]
      rcases List.mem_append.1 h with h | h
      · exact Nat.le_trans (ih h) (Nat.le_max_left _ _)
      · rw [List.mem_singleton] at h
        exact h ▸ Nat.le_max_right _ _

theorem rowAt_of_longest_le {columns : List (Column × List Value)} {i : Nat}
    (h : longest columns ≤ i) : rowAt columns i = [] := by
  rw [rowAt, List.filterMap_eq_nil_iff]
  intro column hcolumn
  exact List.getElem?_eq_none (Nat.le_trans (length_le_longest hcolumn) h)

theorem columns_ofColumns (columns : List (Column × List Value)) :
    (ofColumns columns).columns = columns.map Prod.fst := by
  induction columns using List.reverseRecOn with
  | nil => rfl
  | append_singleton columns last ih =>
      rw [ofColumns_concat, List.map_append, ← ih]
      rfl

theorem name_ofColumns (columns : List (Column × List Value)) : (ofColumns columns).name = [] := by
  induction columns using List.reverseRecOn with
  | nil => rfl
  | append_singleton columns last ih =>
      rw [ofColumns_concat, ← ih]
      rfl

/-- The rows are the values at every position up to the longest column. -/
theorem rows_ofColumns (columns : List (Column × List Value)) :
    (ofColumns columns).rows = (List.range (longest columns)).map (rowAt columns) := by
  induction columns using List.reverseRecOn with
  | nil => rfl
  | append_singleton columns last ih =>
      obtain ⟨column, values⟩ := last
      have hrows : (ofColumns (columns ++ [(column, values)])).rows =
          extendRows (ofColumns columns).rows values := by
        rw [ofColumns_concat]
        rfl
      rw [hrows, longest_concat, ih]
      refine List.ext_getElem? fun i => ?_
      have hrow : rowAt (columns ++ [(column, values)]) i =
          rowAt columns i ++ (values[i]?).toList := by
        cases hvalue : values[i]? <;> simp [rowAt, hvalue]
      have hbefore : (((List.range (longest columns)).map (rowAt columns))[i]?).getD [] =
          rowAt columns i := by
        by_cases hi : i < longest columns
        · simp [hi]
        · simp [hi, rowAt_of_longest_le (Nat.le_of_not_lt hi)]
      rw [getElem?_extendRows, hbefore, ← hrow, List.length_map, List.length_range]
      by_cases hi : i < max (longest columns) values.length
      · rw [if_pos hi]
        simp [hi]
      · rw [if_neg hi]
        simp [hi]

theorem longest_le {columns : List (Column × List Value)} {n : Nat}
    (h : ∀ column ∈ columns, column.2.length ≤ n) : longest columns ≤ n := by
  induction columns using List.reverseRecOn with
  | nil => exact Nat.zero_le n
  | append_singleton columns last ih =>
      rw [longest_concat]
      have hcolumns := ih fun column hcolumn => h column (List.mem_append_left [last] hcolumn)
      exact Nat.max_le.2 ⟨hcolumns, h last (List.mem_append_right columns List.mem_cons_self)⟩

theorem forall₂_rowAt {columns : List (Column × List Value)} {n i : Nat}
    (hlength : ∀ column ∈ columns, column.2.length = n) (hi : i < n) :
    List.Forall₂ (fun column value => column.2[i]? = some value) columns (rowAt columns i) := by
  induction columns with
  | nil => exact List.Forall₂.nil
  | cons column columns ih =>
      have hcolumn : i < column.2.length := hlength column List.mem_cons_self ▸ hi
      have hsplit : rowAt (column :: columns) i = column.2[i] :: rowAt columns i := by
        simp [rowAt, hcolumn]
      rw [hsplit]
      exact List.Forall₂.cons (List.getElem?_eq_getElem hcolumn)
        (ih fun other hother => hlength other (List.mem_cons_of_mem column hother))

theorem forall₂_of_mem_rows_ofColumns {columns : List (Column × List Value)} {n : Nat}
    (hlength : ∀ column ∈ columns, column.2.length = n) {row : Row}
    (hrow : row ∈ (ofColumns columns).rows) :
    ∃ i < n, List.Forall₂ (fun column value => column.2[i]? = some value) columns row := by
  rw [rows_ofColumns] at hrow
  obtain ⟨i, hi, rfl⟩ := List.mem_map.1 hrow
  have hlt : i < n := Nat.lt_of_lt_of_le (List.mem_range.1 hi)
    (longest_le fun column hcolumn => Nat.le_of_eq (hlength column hcolumn))
  exact ⟨i, hlt, forall₂_rowAt hlength hlt⟩

theorem rows_ofColumns_of_length {columns : List (Column × List Value)} {n : Nat}
    (hne : columns ≠ []) (hlength : ∀ column ∈ columns, column.2.length = n) :
    (ofColumns columns).rows = (List.range n).map (rowAt columns) := by
  obtain ⟨column, hcolumn⟩ := List.exists_mem_of_ne_nil columns hne
  have hlongest : longest columns = n := by
    apply Nat.le_antisymm
    · exact longest_le fun other hother => Nat.le_of_eq (hlength other hother)
    · exact hlength column hcolumn ▸ length_le_longest hcolumn
  rw [rows_ofColumns, hlongest]

/-! ## The columns of targets -/

/-- The column of a target, with its values in all rows of the source. -/
def targetColumn (source : Relation) : Target → Except Error (Column × List Value)
  | .column name => do
      let i ← Column.index source.columns name
      match source.columns[i]? with
      | some column => .ok (column, source.rows.map fun row => cell row i)
      | none => .error .outOfRange
  | .computed left op right label => do
      let i ← Column.index source.columns left
      let operand ← Operand.read source.columns right
      match source.columns[i]? with
      | none => .error .outOfRange
      | some column => do
          let results ← compute source.rows i op operand
          return (⟨label, retyped column.type results⟩, results)

theorem addTarget_eq (source relation : Relation) (target : Target) :
    addTarget source relation target =
      (fun column => relation.appendColumn column.1 column.2) <$> targetColumn source target := by
  cases target with
  | column name =>
      rw [addTarget, targetColumn]
      cases Column.index source.columns name with
      | error e => rfl
      | ok i =>
          simp only [bind, Except.bind, copyColumn]
          cases source.columns[i]? <;> rfl
  | computed left op right label =>
      rw [addTarget, targetColumn]
      cases Column.index source.columns left with
      | error e => rfl
      | ok i =>
          cases Operand.read source.columns right with
          | error e => rfl
          | ok operand =>
              simp only [bind, Except.bind]
              cases source.columns[i]? with
              | none => rfl
              | some column => cases compute source.rows i op operand <;> rfl

theorem project_targets (source : Relation) (targets : List Target) :
    source.project (.targets targets) = ofColumns <$> targets.mapM (targetColumn source) := by
  have hstep : addTarget source = fun relation target =>
      (fun column => relation.appendColumn column.1 column.2) <$> targetColumn source target := by
    funext relation target
    exact addTarget_eq source relation target
  rw [project, hstep]
  exact Outcome.foldlM_map (targetColumn source)
    (fun relation column => relation.appendColumn column.1 column.2) targets empty

section TargetColumn

variable {source : Relation} {column : Column × List Value}

theorem targetColumn_column_eq_ok {name : Text} :
    targetColumn source (.column name) = .ok column ↔ ∃ i own,
      Column.index? source.columns name = some i ∧ source.columns[i]? = some own ∧
        column = (own, source.rows.map fun row => cell row i) := by
  rw [targetColumn, Column.index]
  cases Column.index? source.columns name with
  | none => simp [bind, Except.bind]
  | some i =>
      cases hown : source.columns[i]? <;> simp [bind, Except.bind, hown, eq_comm]

theorem targetColumn_computed_eq_ok {left right label : Text} {op : Arithmetic} :
    targetColumn source (.computed left op right label) = .ok column ↔ ∃ i operand own results,
      Column.index? source.columns left = some i ∧
        Operand.read source.columns right = .ok operand ∧ source.columns[i]? = some own ∧
          compute source.rows i op operand = .ok results ∧
            column = (⟨label, retyped own.type results⟩, results) := by
  rw [targetColumn, Column.index]
  cases Column.index? source.columns left with
  | none => simp [bind, Except.bind]
  | some i =>
      cases Operand.read source.columns right with
      | error e => simp [bind, Except.bind]
      | ok operand =>
          cases hown : source.columns[i]? with
          | none => simp [bind, Except.bind, hown]
          | some own =>
              cases hresults : compute source.rows i op operand with
              | error e => simp [bind, Except.bind, hown, hresults]
              | ok results =>
                  simp [bind, Except.bind, pure, Except.pure, hown, hresults, eq_comm]

theorem length_targetColumn {target : Target} (h : targetColumn source target = .ok column) :
    column.2.length = source.rows.length := by
  cases target with
  | column name =>
      obtain ⟨i, own, -, -, rfl⟩ := targetColumn_column_eq_ok.1 h
      exact List.length_map ..
  | computed left op right label =>
      obtain ⟨i, operand, own, results, -, -, -, hresults, rfl⟩ :=
        targetColumn_computed_eq_ok.1 h
      exact (Outcome.mapM_eq_ok.1 hresults).length_eq.symm

end TargetColumn

end Relation

end Relata
