import Relata.Proofs.Join.Record
import Relata.Proofs.Projection.Places
import Relata.Proofs.Relation.Typing

/-!
# What a projection holds

A projection on targets, cell by cell: a cell is what its target stands for in its row, read
by the names of the columns. A projection fails if a target does, and then with the failure
of the first such target: an unknown left column, else a right operand that is neither a
column nor a literal, else the first row in which the operator fails.
-/

namespace Relata

namespace Relation

def HasColumn (source : Relation) (name : Text) : Prop :=
  ∃ column ∈ source.columns, column.name = name

instance (source : Relation) (name : Text) : Decidable (source.HasColumn name) :=
  inferInstanceAs (Decidable (∃ column ∈ source.columns, column.name = name))

/-- The value in the first column of a name; a row that does not reach it holds none. -/
def under (source : Relation) (row : Row) (name : Text) : Value :=
  (Labelled.value? (source.columns.zip row) name).getD .noValue

/-- What a right operand stands for in a row: a column of that name, or else a literal. -/
def meaning (source : Relation) (row : Row) (t : Text) : Except Error Value :=
  if source.HasColumn t then .ok (source.under row t) else Value.read t

def targetValue (source : Relation) (row : Row) : Target → Except Error Value
  | .column name => .ok (source.under row name)
  | .computed left op right _ => do
      let value ← source.meaning row right
      (source.under row left).arithmetic op value

/-- Targets whose columns are known and that have a value in every row. -/
def Computable (source : Relation) : Target → Prop
  | .column name => source.HasColumn name
  | .computed left op right label =>
      source.HasColumn left ∧
        (source.HasColumn right ∨ ∃ value, Value.read right = .ok value) ∧
          ∀ row ∈ source.rows, ∃ value,
            source.targetValue row (.computed left op right label) = .ok value

/-- The failure of a target: of its left name, of its right operand, or in its first bad row. -/
inductive Fails (source : Relation) : Target → Error → Prop
  | column {name : Text} (unknown : ¬source.HasColumn name) :
      Fails source (.column name) (.unknownColumn name)
  | left {left right label : Text} {op : Arithmetic} (unknown : ¬source.HasColumn left) :
      Fails source (.computed left op right label) (.unknownColumn left)
  | right {left right label : Text} {op : Arithmetic} {e : Error}
      (known : source.HasColumn left) (unknown : ¬source.HasColumn right)
      (unread : Value.read right = .error e) :
      Fails source (.computed left op right label) e
  | row {left right label : Text} {op : Arithmetic} {e : Error} {before after : List Row}
      {row : Row} {value : Value} (known : source.HasColumn left)
      (rows : source.rows = before ++ row :: after)
      (earlier : ∀ other ∈ before, ∃ value,
        source.targetValue other (.computed left op right label) = .ok value)
      (operand : source.meaning row right = .ok value)
      (failed : (source.under row left).arithmetic op value = .error e) :
      Fails source (.computed left op right label) e

/--
The column of a target, given its results in the rows: a named one as it is declared, and a
computed one of the type of its last result that is no marker, or else of its left operand.
-/
inductive Declares (source : Relation) (results : List Value) : Target → Column → Prop
  | column {name : Text} {own : Column} (first : Column.named? source.columns name = some own) :
      Declares source results (.column name) own
  | computed {left right label : Text} {op : Arithmetic} {own : Column}
      (first : Column.named? source.columns left = some own) :
      Declares source results (.computed left op right label)
        ⟨label, (lastType? results).getD own.type⟩

/-- A relation without a name that has one column per target and one row per row of the source. -/
structure IsProjection (source : Relation) (targets : List Target) (projected : Relation) :
    Prop where
  name : projected.name = []
  width : projected.columns.length = targets.length
  columns : ∀ (j : Nat) target column, targets[j]? = some target →
    projected.columns[j]? = some column →
      source.Declares (projected.rows.filterMap (·[j]?)) target column
  rows : List.Forall₂ (fun row cells =>
      List.Forall₂ (fun target value => source.targetValue row target = .ok value) targets cells)
    source.rows projected.rows

variable {source : Relation}

/-! ## Names and positions -/

theorem under_of_index? {name : Text} {i : Nat}
    (h : Column.index? source.columns name = some i) (row : Row) :
    source.under row name = cell row i := by
  rw [under, Labelled.value?_zip, h]
  rfl

theorem named?_of_index? {name : Text} {i : Nat}
    (h : Column.index? source.columns name = some i) :
    Column.named? source.columns name = source.columns[i]? := by
  rw [← Labelled.value?_zip_self, Labelled.value?_zip, h]
  rfl

theorem exists_index?_iff {name : Text} :
    (∃ i, Column.index? source.columns name = some i) ↔ source.HasColumn name := by
  rw [← Option.isSome_iff_exists, Column.index?_isSome_iff, List.mem_map]
  rfl

theorem index?_eq_none_iff {name : Text} :
    Column.index? source.columns name = none ↔ ¬source.HasColumn name := by
  rw [← exists_index?_iff, ← Option.isSome_iff_exists, Option.not_isSome_iff_eq_none]

theorem meaning_of_read {t : Text} {operand : Operand}
    (h : Operand.read source.columns t = .ok operand) (row : Row) :
    source.meaning row t = .ok (operand.value row) := by
  unfold Operand.read at h
  split at h
  · rename_i i hi
    cases h
    rw [meaning, if_pos (exists_index?_iff.1 ⟨i, hi⟩), under_of_index? hi]
    rfl
  · rename_i hnone
    obtain ⟨value, hvalue, rfl⟩ := Outcome.map_eq_ok.1 h
    rw [meaning, if_neg (index?_eq_none_iff.1 hnone), hvalue]
    rfl

theorem read_eq_error_iff {t : Text} {e : Error} :
    Operand.read source.columns t = .error e ↔
      ¬source.HasColumn t ∧ Value.read t = .error e := by
  rw [← index?_eq_none_iff, Operand.read]
  cases Column.index? source.columns t with
  | some i => simp
  | none => cases Value.read t <;> simp [Functor.map, Except.map]

theorem exists_read_iff {t : Text} :
    (∃ operand, Operand.read source.columns t = .ok operand) ↔
      source.HasColumn t ∨ ∃ value, Value.read t = .ok value := by
  rw [← exists_index?_iff, Operand.read]
  cases Column.index? source.columns t with
  | some i => simp
  | none => cases Value.read t <;> simp [Functor.map, Except.map]

theorem exists_read_of_meaning {row : Row} {t : Text} {value : Value}
    (h : source.meaning row t = .ok value) :
    ∃ operand, Operand.read source.columns t = .ok operand := by
  rw [exists_read_iff]
  by_cases hcolumn : source.HasColumn t
  · exact .inl hcolumn
  · rw [meaning, if_neg hcolumn] at h
    exact .inr ⟨value, h⟩

theorem targetValue_computed {left right : Text} {i : Nat} {operand : Operand}
    (hleft : Column.index? source.columns left = some i)
    (hright : Operand.read source.columns right = .ok operand) (op : Arithmetic) (label : Text)
    (row : Row) : source.targetValue row (.computed left op right label) =
      (cell row i).arithmetic op (operand.value row) := by
  rw [targetValue, meaning_of_read hright, under_of_index? hleft]
  rfl

/-! ## One target -/

/-- With its operands known, a computed target fails only where its operator does. -/
theorem targetColumn_computed {left right : Text} {i : Nat} {operand : Operand} {own : Column}
    (hleft : Column.index? source.columns left = some i) (hown : source.columns[i]? = some own)
    (hright : Operand.read source.columns right = .ok operand) (op : Arithmetic) (label : Text) :
    targetColumn source (.computed left op right label) =
      (fun results => (⟨label, retyped own.type results⟩, results)) <$>
        source.rows.mapM fun row => source.targetValue row (.computed left op right label) := by
  have hcompute : compute source.rows i op operand =
      source.rows.mapM fun row => source.targetValue row (.computed left op right label) :=
    Outcome.mapM_congr fun row _ => (targetValue_computed hleft hright op label row).symm
  rw [← hcompute, targetColumn, Column.index, hleft]
  simp only [bind, Except.bind, hright, hown]
  cases compute source.rows i op operand <;> rfl

theorem targetColumn_column_of_unknown {name : Text} (h : ¬source.HasColumn name) :
    targetColumn source (.column name) = .error (.unknownColumn name) := by
  simp [targetColumn, Column.index, index?_eq_none_iff.2 h, bind, Except.bind]

theorem targetColumn_computed_of_unknown {left : Text} (h : ¬source.HasColumn left)
    (op : Arithmetic) (right label : Text) :
    targetColumn source (.computed left op right label) = .error (.unknownColumn left) := by
  simp [targetColumn, Column.index, index?_eq_none_iff.2 h, bind, Except.bind]

theorem targetColumn_computed_of_unread {left right : Text} {e : Error}
    (known : source.HasColumn left) (unread : Operand.read source.columns right = .error e)
    (op : Arithmetic) (label : Text) :
    targetColumn source (.computed left op right label) = .error e := by
  obtain ⟨i, hleft⟩ := exists_index?_iff.2 known
  simp [targetColumn, Column.index, hleft, unread, bind, Except.bind]

theorem Fails.targetColumn_eq {target : Target} {e : Error} (h : source.Fails target e) :
    targetColumn source target = .error e := by
  cases h with
  | column unknown => exact targetColumn_column_of_unknown unknown
  | left unknown => exact targetColumn_computed_of_unknown unknown _ _ _
  | right known unknown unread =>
      exact targetColumn_computed_of_unread known (read_eq_error_iff.2 ⟨unknown, unread⟩) _ _
  | @row left right label op _ before after row value known rows earlier meant failed =>
      obtain ⟨i, hleft⟩ := exists_index?_iff.2 known
      obtain ⟨operand, hright⟩ := exists_read_of_meaning meant
      rw [targetColumn_computed hleft (List.getElem?_eq_getElem (Column.index?_lt hleft)) hright,
        Outcome.map_eq_error, Outcome.mapM_eq_error]
      refine ⟨before, row, after, rows, earlier, ?_⟩
      rw [targetValue, meant]
      exact failed

theorem fails_of_targetColumn {target : Target} {e : Error}
    (h : targetColumn source target = .error e) : source.Fails target e := by
  cases target with
  | column name =>
      by_cases hname : source.HasColumn name
      · obtain ⟨i, hi⟩ := exists_index?_iff.2 hname
        have hvalue := targetColumn_column_eq_ok.2 ⟨i, _, hi,
          List.getElem?_eq_getElem (Column.index?_lt hi), rfl⟩
        cases hvalue.symm.trans h
      · cases (targetColumn_column_of_unknown hname).symm.trans h
        exact .column hname
  | computed left op right label =>
      by_cases hknown : source.HasColumn left
      · cases hright : Operand.read source.columns right with
        | error e' =>
            cases (targetColumn_computed_of_unread hknown hright op label).symm.trans h
            obtain ⟨unknown, unread⟩ := read_eq_error_iff.1 hright
            exact .right hknown unknown unread
        | ok operand =>
            obtain ⟨i, hleft⟩ := exists_index?_iff.2 hknown
            have hown := List.getElem?_eq_getElem (Column.index?_lt hleft)
            rw [targetColumn_computed hleft hown hright, Outcome.map_eq_error,
              Outcome.mapM_eq_error] at h
            obtain ⟨before, row, after, rows, earlier, failed⟩ := h
            rw [targetValue, meaning_of_read hright] at failed
            exact .row hknown rows earlier (meaning_of_read hright row) failed
      · cases (targetColumn_computed_of_unknown hknown op right label).symm.trans h
        exact .left hknown

theorem fails_iff {target : Target} {e : Error} :
    source.Fails target e ↔ targetColumn source target = .error e :=
  ⟨Fails.targetColumn_eq, fails_of_targetColumn⟩

theorem computable_iff {target : Target} :
    source.Computable target ↔ ∃ column, targetColumn source target = .ok column := by
  cases target with
  | column name =>
      simp only [Computable, targetColumn_column_eq_ok, ← exists_index?_iff]
      constructor
      · rintro ⟨i, hi⟩
        exact ⟨_, i, _, hi, List.getElem?_eq_getElem (Column.index?_lt hi), rfl⟩
      · rintro ⟨_, i, _, hi, -⟩
        exact ⟨i, hi⟩
  | computed left op right label =>
      rw [Computable, ← exists_read_iff, ← exists_index?_iff]
      constructor
      · rintro ⟨⟨i, hleft⟩, ⟨operand, hright⟩, hrows⟩
        have hown := List.getElem?_eq_getElem (Column.index?_lt hleft)
        obtain ⟨results, hresults, -⟩ := Outcome.exists_mapM_of_forall
          (R := fun _ _ => True) fun row hrow => (hrows row hrow).imp fun _ h => ⟨h, trivial⟩
        rw [targetColumn_computed hleft hown hright, hresults]
        exact ⟨_, rfl⟩
      · rintro ⟨column, hcolumn⟩
        obtain ⟨i, operand, own, results, hleft, hright, hown, -, -⟩ :=
          targetColumn_computed_eq_ok.1 hcolumn
        rw [targetColumn_computed hleft hown hright] at hcolumn
        obtain ⟨results, hresults, -⟩ := Outcome.map_eq_ok.1 hcolumn
        exact ⟨⟨i, hleft⟩, ⟨operand, hright⟩, fun row hrow => Outcome.exists_of_mapM hresults hrow⟩

theorem forall₂_targetColumn {target : Target} {column : Column × List Value}
    (h : targetColumn source target = .ok column) :
    List.Forall₂ (fun row value => source.targetValue row target = .ok value)
      source.rows column.2 := by
  cases target with
  | column name =>
      obtain ⟨i, own, hi, -, rfl⟩ := targetColumn_column_eq_ok.1 h
      rw [List.forall₂_map_right_iff, List.forall₂_same]
      intro row _
      rw [targetValue, under_of_index? hi]
  | computed left op right label =>
      obtain ⟨i, operand, own, results, hleft, hright, hown, -, -⟩ :=
        targetColumn_computed_eq_ok.1 h
      rw [targetColumn_computed hleft hown hright] at h
      obtain ⟨results, hresults, rfl⟩ := Outcome.map_eq_ok.1 h
      exact Outcome.mapM_eq_ok.1 hresults

theorem declares_targetColumn {target : Target} {column : Column × List Value}
    (h : targetColumn source target = .ok column) :
    source.Declares column.2 target column.1 := by
  cases target with
  | column name =>
      obtain ⟨i, own, hi, hown, rfl⟩ := targetColumn_column_eq_ok.1 h
      exact .column ((named?_of_index? hi).trans hown)
  | computed left op right label =>
      obtain ⟨i, operand, own, results, hleft, -, hown, -, rfl⟩ :=
        targetColumn_computed_eq_ok.1 h
      rw [retyped_eq]
      exact .computed ((named?_of_index? hleft).trans hown)

/-! ## All targets -/

theorem filterMap_rows_ofColumns {columns : List (Column × List Value)} {n j : Nat}
    (hlength : ∀ column ∈ columns, column.2.length = n) {column : Column × List Value}
    (hcolumn : columns[j]? = some column) :
    (ofColumns columns).rows.filterMap (·[j]?) = column.2 := by
  calc (ofColumns columns).rows.filterMap (·[j]?)
      = ((ofColumns columns).rows.map (·[j]?)).filterMap id := by
        rw [List.filterMap_map, Function.id_comp]
    _ = (column.2.map some).filterMap id := by rw [map_getElem?_rows_ofColumns hlength hcolumn]
    _ = column.2 := by simp

theorem isProjection_ofColumns {targets : List Target} {columns : List (Column × List Value)}
    (hne : targets ≠ []) (h : targets.mapM (targetColumn source) = .ok columns) :
    source.IsProjection targets (ofColumns columns) := by
  have hcolumns := Outcome.mapM_eq_ok.1 h
  have hlength : ∀ column ∈ columns, column.2.length = source.rows.length := by
    intro column hcolumn
    obtain ⟨target, -, htarget⟩ := Outcome.exists_of_mem_mapM h hcolumn
    exact length_targetColumn htarget
  have hne' : columns ≠ [] := by
    rintro rfl
    exact hne (List.forall₂_nil_right_iff.1 hcolumns)
  refine ⟨name_ofColumns columns, ?_, ?_, ?_⟩
  · rw [columns_ofColumns, List.length_map]
    exact hcolumns.length_eq.symm
  · intro j target header htarget hheader
    rw [columns_ofColumns, List.getElem?_map, Option.map_eq_some_iff] at hheader
    obtain ⟨column, hcolumn, rfl⟩ := hheader
    rw [filterMap_rows_ofColumns hlength hcolumn]
    exact declares_targetColumn (forall₂_getElem? hcolumns htarget hcolumn)
  · rw [rows_ofColumns_of_length hne' hlength, List.forall₂_map_right_iff, List.forall₂_iff_get]
    refine ⟨List.length_range.symm, fun i hi hi' => ?_⟩
    rw [List.get_eq_getElem, List.get_eq_getElem, List.getElem_range]
    have hrow := forall₂_rowAt hlength hi
    -- a cell is the value of its column in this row, and its column that of its target
    refine List.forall₂_iff_get.2 ⟨hcolumns.length_eq.trans hrow.length_eq, fun j hj hj' => ?_⟩
    have hj'' : j < columns.length := hrow.length_eq ▸ hj'
    exact forall₂_getElem? (forall₂_targetColumn (hcolumns.get hj hj''))
      (List.getElem?_eq_getElem hi) (hrow.get hj'' hj')

theorem exists_project_iff {targets : List Target} :
    (∃ projected, source.project (.targets targets) = .ok projected) ↔
      ∀ target ∈ targets, source.Computable target := by
  rw [project_targets]
  constructor
  · rintro ⟨projected, hproject⟩ target htarget
    obtain ⟨columns, hcolumns, -⟩ := Outcome.map_eq_ok.1 hproject
    exact computable_iff.2 (Outcome.exists_of_mapM hcolumns htarget)
  · intro h
    obtain ⟨columns, hcolumns, -⟩ := Outcome.exists_mapM_of_forall (R := fun _ _ => True)
      fun target htarget => (computable_iff.1 (h target htarget)).imp fun _ h => ⟨h, trivial⟩
    exact ⟨ofColumns columns, Outcome.map_eq_ok.2 ⟨columns, hcolumns, rfl⟩⟩

theorem project_eq_error_iff {targets : List Target} {e : Error} :
    source.project (.targets targets) = .error e ↔ ∃ before target after,
      targets = before ++ target :: after ∧ (∀ other ∈ before, source.Computable other) ∧
        source.Fails target e := by
  rw [project_targets, Outcome.map_eq_error, Outcome.mapM_eq_error]
  simp only [computable_iff, fails_iff]

/--
A projection on targets succeeds exactly if every target has a value in every row, and is
then the relation of these values. Else the first target that has none decides the failure.
-/
theorem project_cellwise (source : Relation) {targets : List Target} (hne : targets ≠ []) :
    ((∃ projected, source.project (.targets targets) = .ok projected) ↔
        ∀ target ∈ targets, source.Computable target) ∧
      (∀ projected, source.project (.targets targets) = .ok projected →
        source.IsProjection targets projected) ∧
      ∀ e, source.project (.targets targets) = .error e ↔ ∃ before target after,
        targets = before ++ target :: after ∧ (∀ other ∈ before, source.Computable other) ∧
          source.Fails target e := by
  refine ⟨exists_project_iff, fun projected hproject => ?_, fun e => project_eq_error_iff⟩
  rw [project_targets] at hproject
  obtain ⟨columns, hcolumns, rfl⟩ := Outcome.map_eq_ok.1 hproject
  exact isProjection_ofColumns hne hcolumns

/-- A name that stands twice, and a second row that ends before its last columns. -/
def ragged : Relation :=
  ⟨['t'], [⟨['a'], .int⟩, ⟨['f'], .float⟩, ⟨['a'], .string⟩], [[.int 1, .noValue], [.int 2]]⟩

def sums : List Target :=
  [.computed ['f'] .add ['a'] ['s'], .column ['a'],
    .computed ['f'] .multiply "NOVALUE".toList ['n']]

/-- The second target fails in the first row, before the third one is looked at. -/
def mixedSums : List Target :=
  [.column ['f'], .computed ['a'] .add "'x'".toList ['s'], .column ['z']]

theorem project_cellwise_ragged :
    sums ≠ [] ∧ mixedSums ≠ [] ∧
      (∃ projected, ragged.project (.targets sums) = .ok projected ∧
        projected = ⟨[], [⟨['s'], .int⟩, ⟨['a'], .int⟩, ⟨['n'], .float⟩],
          [[.int 1, .int 1, .noValue], [.int 2, .int 2, .noValue]]⟩ ∧
        ragged.IsProjection sums projected) ∧
      ∃ before target after, mixedSums = before ++ target :: after ∧
        (∀ other ∈ before, ragged.Computable other) ∧
          ragged.Fails target (.incompatible (.typed .int) (.typed .string)) := by
  have hsums : sums ≠ [] := by decide
  have hmixed : mixedSums ≠ [] := by decide
  have hproject : ragged.project (.targets sums) =
      .ok ⟨[], [⟨['s'], .int⟩, ⟨['a'], .int⟩, ⟨['n'], .float⟩],
        [[.int 1, .int 1, .noValue], [.int 2, .int 2, .noValue]]⟩ := by
    decide +kernel
  have hfails : ragged.project (.targets mixedSums) =
      .error (.incompatible (.typed .int) (.typed .string)) := by
    decide +kernel
  exact ⟨hsums, hmixed, ⟨_, hproject, rfl, (project_cellwise ragged hsums).2.1 _ hproject⟩,
    ((project_cellwise ragged hmixed).2.2 _).1 hfails⟩

end Relation

end Relata
