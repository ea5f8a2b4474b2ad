import Relata.Proofs.Relation.Rows

/-!
# Cells of the declared type

A relation is well-typed if each of its cells is a marker or of the type that its column
declares. The type of a computed column is that of its last result that is no marker, so
its cells have the declared type exactly if they have the type of that result.
-/

namespace Relata

/-- The type of the last value that is no marker. -/
def lastType? (values : List Value) : Option DataType :=
  (values.filterMap Value.dataType?).getLast?

namespace Value

theorem fits_iff {value : Value} {type : DataType} :
    value.fits type = true ↔ value.dataType? = none ∨ value.dataType? = some type := by
  unfold fits
  cases value.dataType? <;> simp

end Value

namespace Relation

/-- Every cell is a marker or of the type that its column declares. -/
def WellTyped (relation : Relation) : Prop :=
  ∀ row ∈ relation.rows, ∀ (i : Nat) (column : Column) (value : Value),
    relation.columns[i]? = some column → row[i]? = some value → value.fits column.type = true

/-- Every row has one value per column. -/
def Shaped (relation : Relation) : Prop :=
  relation.Each fun _ _ => True

def Fits (column : Column) (value : Value) : Prop :=
  value.fits column.type = true

variable {relation source : Relation}

theorem forall₂_getElem? {R : α → β → Prop} {xs : List α} {ys : List β} (h : List.Forall₂ R xs ys)
    {i : Nat} {x : α} {y : β} (hx : xs[i]? = some x) (hy : ys[i]? = some y) : R x y := by
  obtain ⟨hi, rfl⟩ := List.getElem?_eq_some_iff.1 hx
  obtain ⟨hi', rfl⟩ := List.getElem?_eq_some_iff.1 hy
  exact h.get hi hi'

theorem Each.shaped {P : Column → Value → Prop} (h : relation.Each P) : relation.Shaped :=
  h.imp fun _ _ _ => trivial

theorem Shaped.each_fits_iff (h : relation.Shaped) : relation.Each Fits ↔ relation.WellTyped := by
  constructor
  · intro hfits row hrow i column value hcolumn hvalue
    exact forall₂_getElem? (hfits row hrow) hcolumn hvalue
  · intro htyped row hrow
    rw [List.forall₂_iff_get]
    refine ⟨(h row hrow).length_eq, fun i hi hi' => ?_⟩
    exact htyped row hrow i _ _ (List.getElem?_eq_getElem hi) (List.getElem?_eq_getElem hi')

theorem Each.wellTyped (h : relation.Each Fits) : relation.WellTyped :=
  h.shaped.each_fits_iff.1 h

theorem Each.fits_of_readRow {literals : List Text} {extended : Relation} (h : relation.Each Fits)
    (happend : (Relation.appendRow literals).apply relation = (.ok (), extended)) :
    extended.Each Fits :=
  h.appendRow happend fun _ _ _ _ _ hread => (readCell_eq_ok.1 hread).2

theorem each_fits_of_ofFile {file name : Text} {content : Option Bytes}
    (h : ofFile file name content = .ok relation) : relation.Each Fits := by
  obtain ⟨t, header, lines, -, -, hlines⟩ := ofFile_eq_ok.1 h
  exact each_of_ofLines hlines fun _ _ _ _ _ _ _ hread => (readCell_eq_ok.1 hread).2

/-! ## Computed columns -/

theorem retyped_eq (declared : DataType) (results : List Value) :
    retyped declared results = (lastType? results).getD declared := by
  induction results using List.reverseRecOn with
  | nil => rfl
  | append_singleton results last ih =>
      have hstep : retyped declared (results ++ [last]) =
          last.dataType?.getD (retyped declared results) := by
        simp [retyped]
      rw [hstep, ih, lastType?, lastType?, List.filterMap_append]
      cases hlast : last.dataType? <;> simp [hlast]

/-- Among the results of a computed column, those of the last type fit it. -/
theorem fits_retyped_iff {declared : DataType} {results : List Value} {value : Value}
    (h : value ∈ results) : value.fits (retyped declared results) = true ↔
      value.dataType? = none ∨ value.dataType? = lastType? results := by
  rw [Value.fits_iff, retyped_eq]
  cases hvalue : value.dataType? with
  | none => simp
  | some type =>
      have htyped : results.filterMap Value.dataType? ≠ [] :=
        List.ne_nil_of_mem (List.mem_filterMap.2 ⟨value, h, hvalue⟩)
      rw [lastType?, List.getLast?_eq_some_getLast htyped, Option.getD_some]

theorem fits_targetColumn_iff (hsource : source.Each Fits) {target : Target}
    {column : Column × List Value} (hcolumn : targetColumn source target = .ok column)
    {value : Value} (hvalue : value ∈ column.2) :
    value.fits column.1.type = true ↔ ∀ left op right label,
      target = .computed left op right label →
        value.dataType? = none ∨ value.dataType? = lastType? column.2 := by
  cases target with
  | column name =>
      have hfits := (hsource.targetColumn hcolumn).2 value hvalue
      exact iff_of_true hfits fun left op right label h => by cases h
  | computed left op right label =>
      obtain ⟨i, operand, own, results, -, -, -, -, rfl⟩ := targetColumn_computed_eq_ok.1 hcolumn
      rw [fits_retyped_iff hvalue]
      constructor
      · exact fun h _ _ _ _ _ => h
      · exact fun h => h left op right label rfl

/--
Of a select on well-typed tables exactly the kept values of computed columns can be of
another type than their column: those that are not of the type of its last result.
-/
theorem wellTyped_select_iff (hsource : source.Each Fits) {targets : List Target}
    {columns : List (Column × List Value)} {conditions : List Condition}
    (hcolumns : targets.mapM (targetColumn source) = .ok columns)
    (hselect : (ofColumns columns).select conditions = .ok relation) :
    relation.WellTyped ↔ ∀ row ∈ relation.rows, ∀ (j : Nat) left op right label column value,
      targets[j]? = some (.computed left op right label) → columns[j]? = some column →
        row[j]? = some value → value.dataType? = none ∨ value.dataType? = lastType? column.2 := by
  obtain ⟨hheader, hkept⟩ := select_sublist hselect
  have hlength : ∀ column ∈ columns, column.2.length = source.rows.length := by
    intro column hcolumn
    obtain ⟨target, -, htarget⟩ := Outcome.exists_of_mem_mapM hcolumns hcolumn
    exact length_targetColumn htarget
  -- every cell of a kept row is a value of the column of a target
  have hcell : ∀ row ∈ relation.rows, ∀ (j : Nat) (column : Column × List Value) (value : Value),
      columns[j]? = some column → row[j]? = some value → ∃ target, targets[j]? = some target ∧
        targetColumn source target = .ok column ∧ value ∈ column.2 := by
    intro row hrow j column value hcolumn hvalue
    obtain ⟨i, -, hvalues⟩ := forall₂_of_mem_rows_ofColumns hlength (hkept.subset hrow)
    have hj : j < targets.length := by
      rw [(Outcome.mapM_eq_ok.1 hcolumns).length_eq]
      exact (List.getElem?_eq_some_iff.1 hcolumn).1
    have htarget := List.getElem?_eq_getElem hj
    exact ⟨targets[j], htarget, forall₂_getElem? (Outcome.mapM_eq_ok.1 hcolumns) htarget hcolumn,
      List.mem_of_getElem? (forall₂_getElem? hvalues hcolumn hvalue)⟩
  unfold WellTyped
  rw [hheader, columns_ofColumns]
  constructor
  · intro h row hrow j left op right label column value htarget hcolumn hvalue
    obtain ⟨target, htarget', hok, hmem⟩ := hcell row hrow j column value hcolumn hvalue
    have hfits := h row hrow j column.1 value (by rw [List.getElem?_map, hcolumn]; rfl) hvalue
    rw [htarget, Option.some.injEq] at htarget'
    exact (fits_targetColumn_iff hsource hok hmem).1 hfits left op right label htarget'.symm
  · intro h row hrow j header value hheader hvalue
    rw [List.getElem?_map, Option.map_eq_some_iff] at hheader
    obtain ⟨column, hcolumn, rfl⟩ := hheader
    obtain ⟨target, htarget, hok, hmem⟩ := hcell row hrow j column value hcolumn hvalue
    rw [fits_targetColumn_iff hsource hok hmem]
    rintro left op right label rfl
    exact h row hrow j left op right label column value htarget hcolumn hvalue

end Relation

end Relata
