import Relata.Proofs.Join.Layout
import Relata.Proofs.Projection.Columns
import Relata.Relation.Join
import Relata.Relation.Selection

/-!
# Cells and their columns

A property of cells in their columns, held by every row with one cell per column. Joins
and selections keep every such property, whatever it is and also where names repeat; a
projection keeps it if the computed columns have it.
-/

namespace Relata

namespace Relation

/-- Every row has one value per column, with a property of the column and the value. -/
def Each (P : Column → Value → Prop) (relation : Relation) : Prop :=
  ∀ row ∈ relation.rows, List.Forall₂ P relation.columns row

instance {P : Column → Value → Prop} [∀ column, DecidablePred (P column)] (relation : Relation) :
    Decidable (relation.Each P) :=
  inferInstanceAs (Decidable (∀ row ∈ relation.rows, List.Forall₂ P relation.columns row))

variable {P : Column → Value → Prop} {left right joined source relation : Relation}

theorem Each.imp {Q : Column → Value → Prop} (h : ∀ column value, P column value → Q column value)
    (hrelation : relation.Each P) : relation.Each Q :=
  fun row hrow => (hrelation row hrow).imp h

theorem Each.length_eq (h : relation.Each P) {row : Row} (hrow : row ∈ relation.rows) :
    row.length = relation.columns.length :=
  (h row hrow).length_eq.symm

theorem Each.of_mem {Q : Value → Prop} (h : relation.Each fun _ value => Q value) {row : Row}
    (hrow : row ∈ relation.rows) {value : Value} (hvalue : value ∈ row) : Q value := by
  obtain ⟨_, -, hq⟩ := Outcome.exists_of_mem_forall₂ (h row hrow) hvalue
  exact hq

theorem forall₂_mp_of_mem {R S T : α → β → Prop} {xs : List α} {ys : List β}
    (h : ∀ x ∈ xs, ∀ y, R x y → S x y → T x y) (hr : List.Forall₂ R xs ys)
    (hs : List.Forall₂ S xs ys) : List.Forall₂ T xs ys := by
  induction hr with
  | nil => exact List.Forall₂.nil
  | @cons x y xs ys hxy _ ih =>
      cases hs with
      | cons hxy' hrest =>
          have hhead := h x List.mem_cons_self y hxy hxy'
          exact List.Forall₂.cons hhead
            (ih (fun x' hx' => h x' (List.mem_cons_of_mem x hx')) hrest)

theorem forall₂_and_of_mem {R : α → β → Prop} {Q : β → Prop} {xs : List α} {ys : List β}
    (h : List.Forall₂ R xs ys) (hq : ∀ y ∈ ys, Q y) :
    List.Forall₂ (fun x y => Q y ∧ R x y) xs ys :=
  ((List.forall₂_and_left ys xs).2 ⟨hq, h.flip⟩).flip

/-! ## Joins -/

theorem positions_of_mem_sharedNames {name : Text} (h : name ∈ sharedNames left right) :
    ∃ l r, Column.index? left.columns name = some l ∧
      Column.index? right.columns name = some r := by
  obtain ⟨hleft, hright⟩ := mem_sharedNames.1 h
  obtain ⟨l, hl⟩ := Option.isSome_iff_exists.1 (Column.index?_isSome_iff.2 hleft)
  obtain ⟨r, hr⟩ := Option.isSome_iff_exists.1 (Column.index?_isSome_iff.2 hright)
  exact ⟨l, r, hl, hr⟩

theorem itemAt_eq_ok {items : List α} {i : Nat} {item : α} :
    itemAt items i = .ok item ↔ items[i]? = some item := by
  unfold itemAt
  cases items[i]? <;> simp

theorem forall₂_mapM_itemAt {R : α → β → Prop} {xs xs' : List α} {ys ys' : List β}
    (h : List.Forall₂ R xs ys) {layout : List Nat} (hx : layout.mapM (itemAt xs) = .ok xs')
    (hy : layout.mapM (itemAt ys) = .ok ys') : List.Forall₂ R xs' ys' := by
  rw [Outcome.mapM_eq_ok] at hx hy
  induction hx generalizing ys' with
  | nil =>
      cases hy
      exact List.Forall₂.nil
  | cons hitem _ ih =>
      cases hy with
      | cons hitem' hrest =>
          obtain ⟨hi, rfl⟩ := List.getElem?_eq_some_iff.1 (itemAt_eq_ok.1 hitem)
          obtain ⟨hi', rfl⟩ := List.getElem?_eq_some_iff.1 (itemAt_eq_ok.1 hitem')
          exact List.Forall₂.cons (h.get hi hi') (ih hrest)

theorem forall₂_of_mem_product (hl : left.Each P) (hr : right.Each P) {row : Row}
    (hrow : row ∈ product left.rows right.rows) :
    List.Forall₂ P (left.columns ++ right.columns) row := by
  obtain ⟨l, hl', hrow⟩ := List.mem_flatMap.1 hrow
  obtain ⟨r, hr', rfl⟩ := List.mem_map.1 hrow
  exact List.rel_append (hl l hl') (hr r hr')

/-- A row of a join is a row of the product, laid out anew. -/
theorem exists_of_mem_joinRows {pairs : List (Nat × Nat)} {layout : List Nat}
    {leftRows rightRows rows : List Row}
    (h : joinRows pairs layout leftRows rightRows = .ok rows) {row : Row} (hrow : row ∈ rows) :
    ∃ wide ∈ product leftRows rightRows, layout.mapM (itemAt wide) = .ok row := by
  rw [joinRows_eq_product] at h
  obtain ⟨wide, hwide, hjoin⟩ := Outcome.exists_of_mem_filterMapM h hrow
  refine ⟨wide, hwide, ?_⟩
  obtain ⟨agree, -, hjoin⟩ := Outcome.bind_eq_ok.1 hjoin
  cases agree with
  | false => cases hjoin
  | true =>
      obtain ⟨laid, hlaid, hjoin⟩ := Outcome.bind_eq_ok.1 hjoin
      cases hjoin
      exact hlaid

theorem naturalJoin_cases (h : naturalJoin left right = .ok joined) :
    joined = ⟨[], left.columns ++ right.columns, product left.rows right.rows⟩ ∨
      ∃ columns rows, sharedNames left right ≠ [] ∧
        (joinLayout left right).mapM (itemAt (left.columns ++ right.columns)) = .ok columns ∧
        joinRows (sharedPositions left right) (joinLayout left right) left.rows right.rows =
          .ok rows ∧ joined = ⟨[], columns, rows⟩ := by
  unfold naturalJoin at h
  simp only at h
  split at h
  · left
    cases h
    rfl
  · rename_i hshared
    right
    obtain ⟨columns, hcolumns, h⟩ := Outcome.bind_eq_ok.1 h
    obtain ⟨rows, hrows, h⟩ := Outcome.bind_eq_ok.1 h
    cases h
    exact ⟨columns, rows, hshared, hcolumns, hrows, rfl⟩

theorem Each.naturalJoin (hl : left.Each P) (hr : right.Each P)
    (h : naturalJoin left right = .ok joined) : joined.Each P := by
  obtain rfl | ⟨columns, rows, -, hcolumns, hrows, rfl⟩ := naturalJoin_cases h
  · exact fun row hrow => forall₂_of_mem_product hl hr hrow
  · intro row hrow
    obtain ⟨wide, hwide, hlaid⟩ := exists_of_mem_joinRows hrows hrow
    exact forall₂_mapM_itemAt (forall₂_of_mem_product hl hr hwide) hcolumns hlaid

theorem mem_columns_naturalJoin (h : naturalJoin left right = .ok joined) {column : Column}
    (hcolumn : column ∈ joined.columns) : column ∈ left.columns ∨ column ∈ right.columns := by
  obtain rfl | ⟨columns, rows, -, hcolumns, -, rfl⟩ := naturalJoin_cases h
  · exact List.mem_append.1 hcolumn
  · obtain ⟨i, -, hitem⟩ := Outcome.exists_of_mem_mapM hcolumns hcolumn
    exact List.mem_append.1 (List.mem_of_getElem? (itemAt_eq_ok.1 hitem))

theorem Each.joinAll {relations : List Relation} (hall : ∀ relation ∈ relations, relation.Each P)
    (h : joinAll relations = .ok (some joined)) : joined.Each P := by
  cases relations with
  | nil => cases h
  | cons first rest =>
      obtain ⟨last, hlast, hsome⟩ := Outcome.map_eq_ok.1 h
      cases hsome
      refine Outcome.foldlM_induction hlast (hall first List.mem_cons_self) ?_
      intro relation hrelation before after hbefore hafter
      exact hbefore.naturalJoin (hall relation (List.mem_cons_of_mem first hrelation)) hafter

theorem mem_columns_joinAll {relations : List Relation} (h : joinAll relations = .ok (some joined))
    {column : Column} (hcolumn : column ∈ joined.columns) :
    ∃ relation ∈ relations, column ∈ relation.columns := by
  cases relations with
  | nil => cases h
  | cons first rest =>
      obtain ⟨last, hlast, hsome⟩ := Outcome.map_eq_ok.1 h
      cases hsome
      have hall : ∀ column ∈ joined.columns,
          ∃ relation ∈ first :: rest, column ∈ relation.columns := by
        refine Outcome.foldlM_induction (P := fun joined => ∀ column ∈ joined.columns,
          ∃ relation ∈ first :: rest, column ∈ relation.columns) hlast
            (fun column hcolumn => ⟨first, List.mem_cons_self, hcolumn⟩) ?_
        intro relation hrelation before after hbefore hafter column hcolumn
        rcases mem_columns_naturalJoin hafter hcolumn with hcolumn | hcolumn
        · exact hbefore column hcolumn
        · exact ⟨relation, List.mem_cons_of_mem first hrelation, hcolumn⟩
      exact hall column hcolumn

/-! ## Headers that are not empty -/

theorem columns_naturalJoin_ne_nil (h : naturalJoin left right = .ok joined)
    (hleft : left.columns ≠ []) : joined.columns ≠ [] := by
  obtain rfl | ⟨columns, rows, hshared, hcolumns, -, rfl⟩ := naturalJoin_cases h
  · exact List.append_ne_nil_of_left_ne_nil hleft right.columns
  · rintro rfl
    -- a shared name has a position on the left, which the layout keeps
    have hlayout := List.forall₂_nil_right_iff.1 (Outcome.mapM_eq_ok.1 hcolumns)
    obtain ⟨name, hname⟩ := List.exists_mem_of_ne_nil _ hshared
    obtain ⟨l, r, hl, hr⟩ := positions_of_mem_sharedNames hname
    have hmem : (l, left.columns.length + r) ∈ sharedPositions left right :=
      List.mem_filterMap.2 ⟨name, hname, by rw [hl, hr]⟩
    rw [joinLayout, List.append_eq_nil_iff, List.map_eq_nil_iff] at hlayout
    rw [hlayout.1] at hmem
    cases hmem

theorem columns_joinAll_ne_nil {relations : List Relation}
    (hall : ∀ relation ∈ relations, relation.columns ≠ [])
    (h : joinAll relations = .ok (some joined)) : joined.columns ≠ [] := by
  cases relations with
  | nil => cases h
  | cons first rest =>
      obtain ⟨last, hlast, hsome⟩ := Outcome.map_eq_ok.1 h
      cases hsome
      refine Outcome.foldlM_induction (P := fun joined => joined.columns ≠ []) hlast
        (hall first List.mem_cons_self) ?_
      intro relation _ before after hbefore hafter
      exact columns_naturalJoin_ne_nil hafter hbefore

/-! ## Selections -/

theorem keepRows_sublist {test : Row → Except Error Bool} {rows kept : List Row}
    (h : keepRows test rows = .ok kept) : kept.Sublist rows := by
  unfold keepRows at h
  induction rows generalizing kept with
  | nil =>
      cases h
      exact List.Sublist.slnil
  | cons row rows ih =>
      rw [List.filterMapM_cons] at h
      obtain ⟨result, hresult, h⟩ := Outcome.bind_eq_ok.1 h
      obtain ⟨passes, -, hresult⟩ := Outcome.bind_eq_ok.1 hresult
      cases hresult
      cases passes with
      | false => exact (ih h).cons row
      | true =>
          obtain ⟨rest, hrest, h⟩ := Outcome.bind_eq_ok.1 h
          cases h
          exact (ih hrest).cons_cons row

theorem select_sublist {conditions : List Condition} {selected : Relation}
    (h : source.select conditions = .ok selected) :
    selected.columns = source.columns ∧ selected.rows.Sublist source.rows := by
  refine Outcome.foldlM_induction (P := fun relation => relation.columns = source.columns ∧
    relation.rows.Sublist source.rows) h ⟨rfl, List.Sublist.refl _⟩ ?_
  rintro condition - before after ⟨hcolumns, hrows⟩ hafter
  obtain ⟨left, -, hafter⟩ := Outcome.bind_eq_ok.1 hafter
  obtain ⟨right, -, hafter⟩ := Outcome.bind_eq_ok.1 hafter
  obtain ⟨kept, hkept, hafter⟩ := Outcome.bind_eq_ok.1 hafter
  cases hafter
  exact ⟨hcolumns, (keepRows_sublist hkept).trans hrows⟩

theorem Each.select {conditions : List Condition} {selected : Relation} (h : source.Each P)
    (hselect : source.select conditions = .ok selected) : selected.Each P := by
  obtain ⟨hcolumns, hrows⟩ := select_sublist hselect
  intro row hrow
  rw [hcolumns]
  exact h row (hrows.subset hrow)

/-! ## Projections -/

theorem Each.targetColumn (h : source.Each P) {name : Text} {column : Column × List Value}
    (hcolumn : targetColumn source (.column name) = .ok column) :
    column.1 ∈ source.columns ∧ ∀ value ∈ column.2, P column.1 value := by
  obtain ⟨i, own, -, hown, rfl⟩ := targetColumn_column_eq_ok.1 hcolumn
  refine ⟨List.mem_of_getElem? hown, fun value hvalue => ?_⟩
  obtain ⟨row, hrow, rfl⟩ := List.mem_map.1 hvalue
  obtain ⟨hi, rfl⟩ := List.getElem?_eq_some_iff.1 hown
  have hi' : i < row.length := h.length_eq hrow ▸ hi
  have hcell : cell row i = row[i] := by simp [cell, hi']
  rw [hcell]
  exact (h row hrow).get hi hi'

theorem each_ofColumns {columns : List (Column × List Value)} {n : Nat}
    (hlength : ∀ column ∈ columns, column.2.length = n)
    (h : ∀ column ∈ columns, ∀ value ∈ column.2, P column.1 value) :
    (ofColumns columns).Each P := by
  intro row hrow
  obtain ⟨i, -, hvalues⟩ := forall₂_of_mem_rows_ofColumns hlength hrow
  rw [columns_ofColumns, List.forall₂_map_left_iff]
  clear hrow hlength
  induction hvalues with
  | nil => exact List.Forall₂.nil
  | @cons column value columns row hvalue _ ih =>
      have hhead := h column List.mem_cons_self value (List.mem_of_getElem? hvalue)
      exact List.Forall₂.cons hhead (ih fun other hother => h other (List.mem_cons_of_mem _ hother))

theorem Each.project {projection : Projection} {projected : Relation} (h : source.Each P)
    (hcomputed : ∀ targets left op right label column, projection = .targets targets →
      .computed left op right label ∈ targets →
        Relation.targetColumn source (.computed left op right label) = .ok column →
          ∀ value ∈ column.2, P column.1 value)
    (hproject : source.project projection = .ok projected) : projected.Each P := by
  cases projection with
  | all =>
      cases hproject
      exact h
  | targets targets =>
      rw [project_targets] at hproject
      obtain ⟨columns, hcolumns, rfl⟩ := Outcome.map_eq_ok.1 hproject
      refine each_ofColumns (n := source.rows.length) ?_ ?_
      · intro column hcolumn
        obtain ⟨target, -, htarget⟩ := Outcome.exists_of_mem_mapM hcolumns hcolumn
        exact length_targetColumn htarget
      · intro column hcolumn
        obtain ⟨target, hmem, htarget⟩ := Outcome.exists_of_mem_mapM hcolumns hcolumn
        cases target with
        | column name => exact (h.targetColumn htarget).2
        | computed left op right label =>
            exact hcomputed targets left op right label column rfl hmem htarget

theorem mem_columns_project {projection : Projection} {projected : Relation}
    (hproject : source.project projection = .ok projected) {column : Column}
    (hcolumn : column ∈ projected.columns) : column ∈ source.columns ∨
      ∃ targets left op right, projection = .targets targets ∧
        .computed left op right column.name ∈ targets := by
  cases projection with
  | all =>
      cases hproject
      exact .inl hcolumn
  | targets targets =>
      rw [project_targets] at hproject
      obtain ⟨columns, hcolumns, rfl⟩ := Outcome.map_eq_ok.1 hproject
      rw [columns_ofColumns] at hcolumn
      obtain ⟨own, hown, rfl⟩ := List.mem_map.1 hcolumn
      obtain ⟨target, hmem, htarget⟩ := Outcome.exists_of_mem_mapM hcolumns hown
      cases target with
      | column name =>
          obtain ⟨i, column, -, hat, rfl⟩ := targetColumn_column_eq_ok.1 htarget
          exact .inl (List.mem_of_getElem? hat)
      | computed left op right label =>
          obtain ⟨i, operand, column, results, -, -, -, -, rfl⟩ :=
            targetColumn_computed_eq_ok.1 htarget
          exact .inr ⟨targets, left, op, right, rfl, hmem⟩

end Relation

end Relata
