import Relata.Proofs.Projection.Columns

/-!
# Places of values in rows

In a relation built column by column a value stands in its row behind the values of the
earlier columns that reach this row, which is the place of its column if all of them do. All
rows are full, and all columns stand at their own places, exactly if the columns are of one
length.
-/

namespace Relata

namespace Relation

/-- How many columns have a value at a position. -/
def reaching (columns : List (Column × List Value)) (i : Nat) : Nat :=
  columns.countP fun column => i < column.2.length

def OfOneLength (columns : List (Column × List Value)) : Prop :=
  ∃ n, ∀ column ∈ columns, column.2.length = n

variable {columns : List (Column × List Value)} {column : Column × List Value} {i j n : Nat}

theorem longest_eq_max? (columns : List (Column × List Value)) :
    longest columns = ((columns.map fun column => column.2.length).max?).getD 0 := by
  cases columns with
  | nil => rfl
  | cons column columns =>
      simp only [longest, List.foldl_cons, Nat.zero_max, List.map_cons, List.max?_cons',
        List.foldl_map, Option.getD_some]

theorem reaching_eq_length_iff :
    reaching columns i = columns.length ↔ ∀ column ∈ columns, i < column.2.length := by
  simp [reaching, List.countP_eq_length]

theorem length_rowAt (columns : List (Column × List Value)) (i : Nat) :
    (rowAt columns i).length = reaching columns i := by
  rw [rowAt, List.length_filterMap_eq_countP]
  exact List.countP_congr fun column _ => by simp

/-- A value stands behind those of the earlier columns that reach its row. -/
theorem getElem?_rowAt (hcolumn : columns[j]? = some column) (hi : i < column.2.length) :
    (rowAt columns i)[reaching (columns.take j) i]? = column.2[i]? := by
  obtain ⟨hj, rfl⟩ := List.getElem?_eq_some_iff.1 hcolumn
  have hhead : rowAt (columns.drop j) i =
      columns[j].2[i] :: rowAt (columns.drop (j + 1)) i := by
    rw [List.drop_eq_getElem_cons hj]
    exact List.filterMap_cons_some (List.getElem?_eq_getElem hi)
  have hsplit : rowAt columns i = rowAt (columns.take j) i ++ rowAt (columns.drop j) i := by
    rw [rowAt, rowAt, rowAt, ← List.filterMap_append, List.take_append_drop]
  rw [hsplit, hhead, ← length_rowAt, List.getElem?_append_right (Nat.le_refl _), Nat.sub_self,
    List.getElem?_cons_zero, List.getElem?_eq_getElem hi]

theorem getElem?_rowAt_of_forall (hcolumn : columns[j]? = some column)
    (hi : i < column.2.length) (hearlier : ∀ earlier ∈ columns.take j, i < earlier.2.length) :
    (rowAt columns i)[j]? = column.2[i]? := by
  have hj : j < columns.length := (List.getElem?_eq_some_iff.1 hcolumn).1
  have hplace : reaching (columns.take j) i = j := by
    rw [reaching_eq_length_iff.2 hearlier, List.length_take_of_le (Nat.le_of_lt hj)]
  have hvalue := getElem?_rowAt hcolumn hi
  rwa [hplace] at hvalue

theorem map_getElem?_rows_ofColumns (hlength : ∀ column ∈ columns, column.2.length = n)
    (hcolumn : columns[j]? = some column) :
    (ofColumns columns).rows.map (·[j]?) = column.2.map some := by
  have hmem : column ∈ columns := List.mem_of_getElem? hcolumn
  have hn : column.2.length = n := hlength column hmem
  rw [rows_ofColumns_of_length (List.ne_nil_of_mem hmem) hlength, List.map_map]
  apply List.ext_getElem
  · simp [hn]
  · intro i hi hi'
    have hlt : i < column.2.length := by simpa using hi'
    have hvalue : (rowAt columns i)[j]? = column.2[i]? := by
      apply getElem?_rowAt_of_forall hcolumn hlt
      intro earlier hearlier
      rw [hlength earlier (List.mem_of_mem_take hearlier), ← hn]
      exact hlt
    simpa [hlt] using hvalue

theorem forall_full_iff :
    (∀ row ∈ (ofColumns columns).rows, row.length = columns.length) ↔ OfOneLength columns := by
  constructor
  · intro hfull
    refine ⟨longest columns, fun column hcolumn => ?_⟩
    apply Nat.le_antisymm (length_le_longest hcolumn)
    -- else the first row below this column would be short of its value
    apply Nat.le_of_not_lt
    intro hlt
    have hrow : rowAt columns column.2.length ∈ (ofColumns columns).rows := by
      rw [rows_ofColumns]
      exact List.mem_map_of_mem (List.mem_range.2 hlt)
    have hreaching : reaching columns column.2.length = columns.length := by
      rw [← length_rowAt]
      exact hfull _ hrow
    exact Nat.lt_irrefl _ (reaching_eq_length_iff.1 hreaching column hcolumn)
  · rintro ⟨n, hlength⟩ row hrow
    obtain ⟨i, -, hvalues⟩ := forall₂_of_mem_rows_ofColumns hlength hrow
    exact hvalues.length_eq.symm

theorem forall_place_iff :
    (∀ (j : Nat) column, columns[j]? = some column →
      (ofColumns columns).rows.map (·[j]?) = column.2.map some) ↔ OfOneLength columns := by
  constructor
  · intro hplace
    refine ⟨(ofColumns columns).rows.length, fun column hcolumn => ?_⟩
    obtain ⟨j, hj⟩ := List.mem_iff_getElem?.1 hcolumn
    have hlength := congrArg List.length (hplace j column hj)
    simpa using hlength.symm
  · rintro ⟨n, hlength⟩ j column hcolumn
    exact map_getElem?_rows_ofColumns hlength hcolumn

/--
Columns of any lengths make as many rows as the longest of them has values, and a row lists
the values at its position in the columns that have one. Columns of one length, and only
these, fill every row and stand each at its own place.
-/
theorem ofColumns_rowwise (columns : List (Column × List Value)) :
    (ofColumns columns).columns = columns.map Prod.fst ∧
      (ofColumns columns).rows.length =
        ((columns.map fun column => column.2.length).max?).getD 0 ∧
      (∀ (i : Nat) row, (ofColumns columns).rows[i]? = some row →
        row = columns.filterMap fun column => column.2[i]?) ∧
      ((∀ row ∈ (ofColumns columns).rows, row.length = columns.length) ↔
        OfOneLength columns) ∧
      ((∀ (j : Nat) column, columns[j]? = some column →
        (ofColumns columns).rows.map (·[j]?) = column.2.map some) ↔ OfOneLength columns) := by
  refine ⟨columns_ofColumns columns, ?_, ?_, forall_full_iff, forall_place_iff⟩
  · rw [rows_ofColumns, List.length_map, List.length_range, longest_eq_max?]
  · intro i row hrow
    rw [rows_ofColumns, List.getElem?_map, Option.map_eq_some_iff] at hrow
    obtain ⟨place, hplace, rfl⟩ := hrow
    obtain ⟨hi, rfl⟩ := List.getElem?_eq_some_iff.1 hplace
    rw [List.getElem_range, rowAt]

/-- The longest column is neither the first nor the last one, and the third one is empty. -/
def uneven : List (Column × List Value) :=
  [(⟨['a'], .int⟩, [.int 1]), (⟨['b'], .string⟩, [.text ['x'], .noValue, .text ['y']]),
    (⟨['c'], .float⟩, []), (⟨['d'], .int⟩, [.int 4, .nan])]

def paired : List (Column × List Value) :=
  [(⟨['a'], .int⟩, [.int 1, .int 2]), (⟨['b'], .string⟩, [.text ['x'], .text ['y']])]

/-- The values of the last column stand at the third place of one row and the second of another. -/
theorem ofColumns_rowwise_uneven :
    (ofColumns uneven).rows =
        [[.int 1, .text ['x'], .int 4], [.noValue, .nan], [.text ['y']]] ∧
      (ofColumns uneven).rows.length = 3 ∧
      [.noValue, .nan] = uneven.filterMap (fun column => column.2[1]?) ∧
      ¬OfOneLength uneven ∧ OfOneLength paired ∧
      (∀ row ∈ (ofColumns paired).rows, row.length = 2) ∧
      (ofColumns paired).rows.map (·[1]?) = [some (.text ['x']), some (.text ['y'])] := by
  have hrows : (ofColumns uneven).rows =
      [[.int 1, .text ['x'], .int 4], [.noValue, .nan], [.text ['y']]] := by decide
  obtain ⟨-, hheight, hrow, hfull, -⟩ := ofColumns_rowwise uneven
  obtain ⟨-, -, -, hfull', hplace'⟩ := ofColumns_rowwise paired
  have hpaired : OfOneLength paired := ⟨2, by decide⟩
  refine ⟨hrows, hheight, hrow 1 _ (by rw [hrows]; rfl), ?_, hpaired, hfull'.2 hpaired,
    hplace'.2 hpaired 1 _ rfl⟩
  rw [← hfull, hrows]
  decide

end Relation

end Relata
