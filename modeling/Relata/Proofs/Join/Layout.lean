import Mathlib.Data.List.Nodup
import Relata.Proofs.Join.Record
import Relata.Proofs.Outcome

/-!
# The layout of a join

The positions that a join computes, read back by name. Where the names of the left relation
are distinct and the rows fill their columns, the join succeeds, and its rows are those
pairs of rows that agree, each with the shared values first, then the other left ones, then
the other right ones.
-/

namespace Relata

namespace Column

theorem index?_cons (column : Column) (columns : List Column) (name : Text) :
    index? (column :: columns) name =
      if column.name = name then some 0 else (index? columns name).map (· + 1) := by
  simp [index?, List.findIdx?_cons]

theorem index?_lt {columns : List Column} {name : Text} {i : Nat}
    (h : index? columns name = some i) : i < columns.length := by
  obtain ⟨hi, -⟩ := List.findIdx?_eq_some_iff_getElem.1 h
  exact hi

theorem index?_isSome_iff {columns : List Column} {name : Text} :
    (index? columns name).isSome ↔ name ∈ columns.map Column.name := by
  simp only [index?, List.findIdx?_isSome, List.any_eq_true, decide_eq_true_eq, List.mem_map]

theorem filterMap_index? {columns : List Column} (distinct : (columns.map name).Nodup)
    (p : Text → Bool) :
    ((columns.map name).filter p).filterMap (index? columns) =
      (List.range columns.length).filter fun i =>
        (columns[i]?).any fun column => p column.name := by
  induction columns with
  | nil => rfl
  | cons column columns ih =>
      rw [List.map_cons, List.nodup_cons] at distinct
      have hrest : ((columns.map name).filter p).filterMap (index? (column :: columns)) =
          (((columns.map name).filter p).filterMap (index? columns)).map (· + 1) := by
        rw [List.map_filterMap]
        apply List.filterMap_congr
        intro other hother
        have hne : column.name ≠ other := by
          rintro rfl
          exact distinct.1 (List.mem_filter.1 hother).1
        rw [index?_cons, if_neg hne]
      have hhead : index? (column :: columns) column.name = some 0 := by
        rw [index?_cons, if_pos rfl]
      rw [List.length_cons, List.range_succ_eq_map, List.map_cons]
      by_cases hp : p column.name
      · rw [List.filter_cons_of_pos hp, List.filterMap_cons_some hhead, hrest, ih distinct.2]
        simp [hp, List.filter_map, Function.comp_def]
      · rw [List.filter_cons_of_neg hp, hrest, ih distinct.2]
        simp [hp, List.filter_map, Function.comp_def]

end Column

namespace Relation

/-- Distinct column names, and in every row one value per column. -/
structure Regular (relation : Relation) : Prop where
  distinct : (relation.columns.map Column.name).Nodup
  filled : ∀ row ∈ relation.rows, row.length = relation.columns.length

instance (relation : Relation) : Decidable relation.Regular :=
  decidable_of_iff ((relation.columns.map Column.name).Nodup ∧
      ∀ row ∈ relation.rows, row.length = relation.columns.length)
    ⟨fun h => ⟨h.1, h.2⟩, fun h => ⟨h.distinct, h.filled⟩⟩

def records (relation : Relation) : List Record :=
  relation.rows.map fun row => relation.columns.zip row

/-- Items of the left and the right columns in the order of a join. -/
def beside (names : List Text) (l r : List (Column × α)) : List (Column × α) :=
  l.filter (fun item => bears names item.1) ++
    (l.filter (fun item => !bears names item.1) ++ r.filter fun item => !bears names item.1)

/-- The columns of a join. -/
def besideColumns (names : List Text) (left right : List Column) : List Column :=
  left.filter (bears names) ++
    (left.filter (fun column => !bears names column) ++
      right.filter fun column => !bears names column)

/-! ## Laying out -/

theorem itemAt_of_getElem? {items : List α} {i : Nat} {item : α} (h : items[i]? = some item) :
    itemAt items i = .ok item := by
  simp [itemAt, h]

/-- The positions of the columns that pass a test lay out the items of those columns. -/
theorem mapM_itemAt_filter_range (p : β → Bool) (columns : List β) (xs rest : List α)
    (hlength : xs.length = columns.length) :
    ((List.range columns.length).filter fun i => (columns[i]?).any p).mapM
        (itemAt (xs ++ rest)) =
      .ok (((columns.zip xs).filter fun item => p item.1).map Prod.snd) := by
  induction columns generalizing xs with
  | nil => rfl
  | cons column columns ih =>
      cases xs with
      | nil => simp at hlength
      | cons x xs =>
          have hsucc : (fun i => itemAt (x :: xs ++ rest) (i + 1)) = itemAt (xs ++ rest) := rfl
          have htail := ih xs (by simpa using hlength)
          rw [List.length_cons, List.range_succ_eq_map, List.filter_cons, List.filter_map,
            List.zip_cons_cons, List.filter_cons]
          simp only [List.getElem?_cons_zero, Option.any_some, Function.comp_def,
            List.getElem?_cons_succ]
          by_cases hp : p column
          · have hhead : itemAt (x :: xs ++ rest) 0 = .ok x := rfl
            simp only [hp, if_true, List.mapM_cons, hhead, List.mapM_map, Function.comp_def,
              hsucc, htail]
            rfl
          · simp only [hp, Bool.false_eq_true, if_false, List.mapM_map, Function.comp_def, hsucc,
              htail]

theorem mem_sharedNames {left right : Relation} {name : Text} :
    name ∈ sharedNames left right ↔
      name ∈ left.columns.map Column.name ∧ name ∈ right.columns.map Column.name := by
  simp only [sharedNames, List.mem_filter, Column.index?_isSome_iff]

theorem bears_sharedNames {left right : Relation} {column : Column} (h : column ∈ left.columns) :
    bears (sharedNames left right) column = (Column.index? right.columns column.name).isSome := by
  rw [Bool.eq_iff_iff, bears, List.contains_iff_mem, mem_sharedNames, Column.index?_isSome_iff]
  exact and_iff_right (List.mem_map_of_mem h)

theorem map_fst_sharedPositions {left right : Relation}
    (distinct : (left.columns.map Column.name).Nodup) :
    (sharedPositions left right).map Prod.fst =
      (List.range left.columns.length).filter fun i =>
        (left.columns[i]?).any (bears (sharedNames left right)) := by
  have hfst : (sharedPositions left right).map Prod.fst =
      (sharedNames left right).filterMap (Column.index? left.columns) := by
    rw [sharedPositions, List.map_filterMap]
    apply List.filterMap_congr
    intro name hname
    obtain ⟨r, hr⟩ := Option.isSome_iff_exists.1
      (Column.index?_isSome_iff.2 (mem_sharedNames.1 hname).2)
    cases hl : Column.index? left.columns name <;> simp [hr]
  rw [hfst, sharedNames, Column.filterMap_index? distinct]
  apply List.filter_congr
  intro i hi
  rw [List.getElem?_eq_getElem (List.mem_range.1 hi), Option.any_some, Option.any_some]
  exact (bears_sharedNames (List.getElem_mem _)).symm

/-- The layout takes items of the left and the right columns to their order in the join. -/
theorem mapM_joinLayout {left right : Relation}
    (distinct : (left.columns.map Column.name).Nodup) {xs ys : List α}
    (hx : xs.length = left.columns.length) (hy : ys.length = right.columns.length) :
    (joinLayout left right).mapM (itemAt (xs ++ ys)) =
      .ok ((beside (sharedNames left right) (left.columns.zip xs) (right.columns.zip ys)).map
        Prod.snd) := by
  have hshared := mapM_itemAt_filter_range (bears (sharedNames left right)) left.columns xs ys hx
  have hothers := mapM_itemAt_filter_range (fun column => !bears (sharedNames left right) column)
    (left.columns ++ right.columns) (xs ++ ys) [] (by simp [hx, hy])
  have hfilter : ((List.range (left.columns ++ right.columns).length).filter fun i =>
        !((left.columns ++ right.columns)[i]?).any (bears (sharedNames left right))) =
      (List.range (left.columns ++ right.columns).length).filter fun i =>
        ((left.columns ++ right.columns)[i]?).any
          fun column => !bears (sharedNames left right) column := by
    apply List.filter_congr
    intro i hi
    rw [List.getElem?_eq_getElem (List.mem_range.1 hi), Option.any_some, Option.any_some]
  rw [List.append_nil, List.zip_append hx.symm, List.filter_append] at hothers
  rw [joinLayout, map_fst_sharedPositions distinct, List.mapM_append, hshared, hfilter, hothers]
  simp [beside, bind, Except.bind, pure, Except.pure]

end Relation

end Relata
