import Relata.Proofs.InRange
import Relata.Proofs.Relation.Typing

/-!
# Positions of a select

The positions that a join computes lie within its rows, so that it succeeds, if both
relations have one value per column in every row; their names may repeat. A projection asks
only for columns that there are, and a selection for none by position.
-/

namespace Relata

theorem Column.exists_of_index {columns : List Column} {name : Text} {i : Nat}
    (h : index columns name = .ok i) : ∃ column, columns[i]? = some column := by
  unfold index at h
  split at h
  · rename_i j hj
    cases h
    exact ⟨_, List.getElem?_eq_getElem (index?_lt hj)⟩
  · cases h

namespace Relation

variable {left right : Relation}

/-! ## Joins -/

theorem lt_of_mem_sharedPositions {l r : Nat} (h : (l, r) ∈ sharedPositions left right) :
    l < (left.columns ++ right.columns).length ∧ r < (left.columns ++ right.columns).length := by
  obtain ⟨name, -, hpair⟩ := List.mem_filterMap.1 h
  split at hpair
  · rename_i i j hi hj
    cases hpair
    have hleft := Column.index?_lt hi
    have hright := Column.index?_lt hj
    rw [List.length_append]
    omega
  · cases hpair

theorem lt_of_mem_joinLayout {i : Nat} (h : i ∈ joinLayout left right) :
    i < (left.columns ++ right.columns).length := by
  rcases List.mem_append.1 h with h | h
  · obtain ⟨pair, hpair, rfl⟩ := List.mem_map.1 h
    exact (lt_of_mem_sharedPositions hpair).1
  · exact List.mem_range.1 (List.mem_filter.1 h).1

theorem exists_itemAt {items : List α} {i : Nat} (h : i < items.length) :
    ∃ item, itemAt items i = .ok item :=
  ⟨items[i], itemAt_of_getElem? (List.getElem?_eq_getElem h)⟩

theorem exists_mapM_itemAt {items : List α} {layout : List Nat}
    (h : ∀ i ∈ layout, i < items.length) : ∃ laid, layout.mapM (itemAt items) = .ok laid := by
  obtain ⟨laid, hlaid, -⟩ := Outcome.exists_mapM_of_forall (R := fun _ _ => True) fun i hi =>
    (exists_itemAt (h i hi)).imp fun _ hitem => ⟨hitem, trivial⟩
  exact ⟨laid, hlaid⟩

theorem exists_agrees {row : Row} {pairs : List (Nat × Nat)}
    (h : ∀ pair ∈ pairs, pair.1 < row.length ∧ pair.2 < row.length) :
    ∃ agree, agrees row pairs = .ok agree := by
  induction pairs with
  | nil => exact ⟨true, rfl⟩
  | cons pair pairs ih =>
      obtain ⟨hleft, hright⟩ := h pair List.mem_cons_self
      obtain ⟨l, hl⟩ := exists_itemAt hleft
      obtain ⟨r, hr⟩ := exists_itemAt hright
      simp only [agrees, hl, hr, bind, Except.bind]
      split
      · exact ih fun other hother => h other (List.mem_cons_of_mem pair hother)
      · exact ⟨false, rfl⟩

theorem exists_joinRow {row : Row}
    (hlength : row.length = (left.columns ++ right.columns).length) :
    ∃ joined, joinRow (sharedPositions left right) (joinLayout left right) row = .ok joined := by
  have hpairs : ∀ pair ∈ sharedPositions left right,
      pair.1 < row.length ∧ pair.2 < row.length := by
    intro pair hpair
    rw [hlength]
    exact lt_of_mem_sharedPositions hpair
  have hlayout : ∀ i ∈ joinLayout left right, i < row.length := by
    intro i hi
    rw [hlength]
    exact lt_of_mem_joinLayout hi
  obtain ⟨agree, hagree⟩ := exists_agrees hpairs
  obtain ⟨laid, hlaid⟩ := exists_mapM_itemAt hlayout
  rw [joinRow, hagree]
  cases agree with
  | true => exact ⟨some laid, by simp only [bind, Except.bind, if_true, hlaid]; rfl⟩
  | false => exact ⟨none, rfl⟩

/-- Relations with one value per column in every row can be joined, whatever their names. -/
theorem exists_naturalJoin (hl : left.Shaped) (hr : right.Shaped) :
    ∃ joined, naturalJoin left right = .ok joined := by
  obtain ⟨columns, hcolumns⟩ : ∃ columns,
      (joinLayout left right).mapM (itemAt (left.columns ++ right.columns)) = .ok columns :=
    exists_mapM_itemAt fun i hi => lt_of_mem_joinLayout hi
  obtain ⟨rows, hrows⟩ : ∃ rows,
      joinRows (sharedPositions left right) (joinLayout left right) left.rows right.rows =
        .ok rows := by
    rw [joinRows_eq_product]
    refine Outcome.exists_filterMapM_of_forall fun row hrow => ?_
    exact exists_joinRow (forall₂_of_mem_product hl hr hrow).length_eq.symm
  unfold naturalJoin
  simp only
  split
  · exact ⟨_, rfl⟩
  · rw [hcolumns, hrows]
    exact ⟨_, rfl⟩

theorem exists_joinAll {relations : List Relation}
    (h : ∀ relation ∈ relations, relation.Shaped) :
    ∃ joined, joinAll relations = .ok joined := by
  cases relations with
  | nil => exact ⟨none, rfl⟩
  | cons first rest =>
      have hfirst := h first List.mem_cons_self
      obtain ⟨last, hlast⟩ : ∃ last, joinWith first rest = .ok last := by
        refine Outcome.exists_foldlM_of_forall (P := Shaped) hfirst ?_
        intro relation hrelation before hbefore
        have hshaped := h relation (List.mem_cons_of_mem first hrelation)
        obtain ⟨after, hafter⟩ := exists_naturalJoin hbefore hshaped
        exact ⟨after, hafter, hbefore.naturalJoin hshaped hafter⟩
      exact ⟨some last, Outcome.map_eq_ok.2 ⟨last, hlast, rfl⟩⟩

/-! ## Projections and selections -/

theorem inRange_compute (rows : List Row) (left : Nat) (op : Arithmetic) (right : Operand) :
    InRange (compute rows left op right) :=
  InRange.mapM fun _ _ => Value.inRange_arithmetic _ op _

theorem inRange_addTarget (source relation : Relation) (target : Target) :
    InRange (addTarget source relation target) := by
  cases target with
  | column name =>
      refine (Column.inRange_index source.columns name).bind fun i hi => ?_
      obtain ⟨column, hat⟩ := Column.exists_of_index hi
      rw [copyColumn, hat]
      exact InRange.ok _
  | computed left op right label =>
      refine (Column.inRange_index source.columns left).bind fun i hi => ?_
      obtain ⟨column, hat⟩ := Column.exists_of_index hi
      refine (Operand.inRange_read source.columns right).bind fun operand _ => ?_
      rw [hat]
      exact (inRange_compute source.rows i op operand).bind fun results _ => InRange.ok _

theorem inRange_project (source : Relation) (projection : Projection) :
    InRange (source.project projection) := by
  cases projection with
  | all => exact InRange.ok source
  | targets targets =>
      exact InRange.foldlM (fun target relation => inRange_addTarget source relation target) empty

theorem inRange_selectOne (relation : Relation) (condition : Condition) :
    InRange (relation.selectOne condition) := by
  refine (Column.inRange_index relation.columns condition.left).bind fun left _ => ?_
  refine (Operand.inRange_read relation.columns condition.right).bind fun right _ => ?_
  refine InRange.bind (InRange.filterMapM fun row _ => ?_) fun rows _ => InRange.ok _
  exact (Value.inRange_compare _ condition.op _).bind fun passes _ => InRange.ok _

theorem inRange_select (relation : Relation) (conditions : List Condition) :
    InRange (relation.select conditions) :=
  InRange.foldlM (fun condition before => inRange_selectOne before condition) relation

end Relation

end Relata
