import Relata.Proofs.Join.Layout

/-!
# The join of two relations

The join of a relation with distinct names succeeds and has the records of the left
relation beside those records of the right one that agree with them, left-major. Read by
name, two records side by side hold the left value where the left one has the name, and
else the right one.
-/

namespace Relata

namespace Relation

/-! ## Agreement by position -/

theorem agrees_filterMap {left right : List Column} {l r : Row}
    (hl : l.length = left.length) (hr : r.length = right.length) (names : List Text) :
    agrees (l ++ r) (names.filterMap fun name =>
        match Column.index? left name, Column.index? right name with
        | some i, some j => some (i, left.length + j)
        | _, _ => none) =
      .ok (names.all fun name => (Labelled.value? (left.zip l) name).all fun v =>
        (Labelled.value? (right.zip r) name).all fun w => v.identical w) := by
  induction names with
  | nil => rfl
  | cons name names ih =>
      rw [List.filterMap_cons, List.all_cons, Labelled.value?_zip, Labelled.value?_zip]
      cases hi : Column.index? left name with
      | none => simpa using ih
      | some i =>
          cases hj : Column.index? right name with
          | none =>
              cases hv : l[i]? <;> simpa [hv] using ih
          | some j =>
              have hlt : i < l.length := hl ▸ Column.index?_lt hi
              have hlt' : j < r.length := hr ▸ Column.index?_lt hj
              have hleft : itemAt (l ++ r) i = .ok l[i] :=
                itemAt_of_getElem? (by simp [List.getElem?_append_left hlt, hlt])
              have hright : itemAt (l ++ r) (left.length + j) = .ok r[j] :=
                itemAt_of_getElem? (by rw [← hl]; simp [hlt'])
              simp only [agrees, hleft, hright, Option.bind_some,
                List.getElem?_eq_getElem hlt, List.getElem?_eq_getElem hlt', Option.all_some]
              by_cases hsame : l[i].identical r[j]
              · simp only [bind, Except.bind, hsame, if_true, ih, Bool.true_and]
              · simp [bind, Except.bind, pure, Except.pure, hsame]

/-- The positions of the shared names agree exactly if the records do. -/
theorem agrees_sharedPositions {left right : Relation} {l r : Row}
    (hl : l.length = left.columns.length) (hr : r.length = right.columns.length) :
    agrees (l ++ r) (sharedPositions left right) =
      .ok (decide (Record.Agree (left.columns.zip l) (right.columns.zip r))) := by
  refine (agrees_filterMap hl hr (sharedNames left right)).trans (congrArg Except.ok ?_)
  rw [Bool.eq_iff_iff, decide_eq_true_eq]
  simp only [List.all_eq_true, Option.all_eq_true]
  constructor
  · intro h name v w hv hw
    have hleft := Labelled.map_name_zip hl ▸ Labelled.mem_names_of_value? hv
    have hright := Labelled.map_name_zip hr ▸ Labelled.mem_names_of_value? hw
    exact h name (mem_sharedNames.2 ⟨hleft, hright⟩) v hv w hw
  · intro h name _ v hv w hw
    exact h name v w hv hw

/-! ## Records side by side -/

section Beside

variable {α : Type} {names : List Text}

theorem map_fst_filter_zip (p : Column → Bool) {columns : List Column} {items : List α}
    (hlength : items.length = columns.length) :
    ((columns.zip items).filter fun item => p item.1).map Prod.fst = columns.filter p := by
  have hfst : (columns.zip items).map Prod.fst = columns :=
    List.map_fst_zip (Nat.le_of_eq hlength.symm)
  conv => rhs; rw [← hfst, List.filter_map]
  rfl

theorem map_fst_beside (names : List Text) {left right : List Column} {xs ys : List α}
    (hx : xs.length = left.length) (hy : ys.length = right.length) :
    (beside names (left.zip xs) (right.zip ys)).map Prod.fst = besideColumns names left right := by
  simp only [beside, besideColumns, List.map_append]
  rw [map_fst_filter_zip (bears names) hx,
    map_fst_filter_zip (fun column => !bears names column) hx,
    map_fst_filter_zip (fun column => !bears names column) hy]

theorem map_snd_beside_self (left right : List Column) :
    (beside names (left.zip left) (right.zip right)).map Prod.snd =
      besideColumns names left right := by
  have hsame (columns : List Column) : ∀ item ∈ columns.zip columns, item.2 = item.1 := by
    intro item hitem
    obtain ⟨i, hi, rfl⟩ := List.getElem_of_mem hitem
    simp
  rw [← map_fst_beside names rfl rfl]
  apply List.map_congr_left
  intro item hitem
  simp only [beside, List.mem_append, List.mem_filter] at hitem
  obtain ⟨h, -⟩ | ⟨h, -⟩ | ⟨h, -⟩ := hitem
  · exact hsame left item h
  · exact hsame left item h
  · exact hsame right item h

theorem value?_filter_bears (items : Labelled α) (name : Text) :
    Labelled.value? (items.filter fun item => bears names item.1) name =
      if names.contains name then items.value? name else none :=
  Labelled.value?_filter (names.contains ·) items name

theorem value?_filter_not_bears (items : Labelled α) (name : Text) :
    Labelled.value? (items.filter fun item => !bears names item.1) name =
      if names.contains name then none else items.value? name := by
  have h := Labelled.value?_filter (fun name => !names.contains name) items name
  rw [show (items.filter fun item => !bears names item.1) =
    items.filter fun item => !names.contains item.1.name from rfl, h]
  cases names.contains name <;> rfl

/-- Side by side the left item of a name wins, if the shared names all stand on the left. -/
theorem value?_beside {l r : Labelled α}
    (hnames : ∀ name ∈ names, (l.value? name).isSome) (name : Text) :
    Labelled.value? (beside names l r) name = (l.value? name).or (r.value? name) := by
  rw [beside, Labelled.value?_append, Labelled.value?_append, value?_filter_bears,
    value?_filter_not_bears, value?_filter_not_bears]
  by_cases hname : name ∈ names
  · obtain ⟨v, hv⟩ := Option.isSome_iff_exists.1 (hnames name hname)
    simp [hname, hv]
  · simp [hname]

end Beside

/-! ## The join -/

/-- Lays two rows out side by side, if they agree. -/
def joinPair (left right : Relation) (l r : Row) : Option Row :=
  if Record.Agree (left.columns.zip l) (right.columns.zip r) then
    some ((beside (sharedNames left right) (left.columns.zip l) (right.columns.zip r)).map Prod.snd)
  else
    none

variable {left right : Relation}

theorem joinPair_of_noneShared (hnone : sharedNames left right = []) {l r : Row}
    (hl : l.length = left.columns.length) (hr : r.length = right.columns.length) :
    joinPair left right l r = some (l ++ r) := by
  have hagree : Record.Agree (left.columns.zip l) (right.columns.zip r) := by
    have h := agrees_sharedPositions hl hr
    rw [sharedPositions, hnone] at h
    simpa [agrees] using h
  have hempty (l r : Record) : beside [] l r = l ++ r := by
    simp [beside, bears]
  rw [joinPair, if_pos hagree, hnone, hempty, List.map_append,
    List.map_snd_zip (Nat.le_of_eq hl), List.map_snd_zip (Nat.le_of_eq hr)]

theorem flatMap_joinPair_of_noneShared (hnone : sharedNames left right = [])
    (hl : ∀ row ∈ left.rows, row.length = left.columns.length)
    (hr : ∀ row ∈ right.rows, row.length = right.columns.length) :
    (left.rows.flatMap fun l => right.rows.filterMap (joinPair left right l)) =
      product left.rows right.rows := by
  apply List.flatMap_congr
  intro l hrow
  rw [← List.filterMap_eq_map]
  exact List.filterMap_congr fun r hrow' =>
    joinPair_of_noneShared hnone (hl l hrow) (hr r hrow')

theorem joinRows_eq (hl : left.Regular)
    (hr : ∀ row ∈ right.rows, row.length = right.columns.length) :
    joinRows (sharedPositions left right) (joinLayout left right) left.rows right.rows =
      .ok (left.rows.flatMap fun l => right.rows.filterMap (joinPair left right l)) := by
  apply Outcome.flatMapM_of_forall
  intro l hrow
  apply Outcome.filterMapM_of_forall
  intro r hrow'
  rw [joinRow, agrees_sharedPositions (hl.filled l hrow) (hr r hrow'),
    mapM_joinLayout hl.distinct (hl.filled l hrow) (hr r hrow'), joinPair]
  by_cases hagree : Record.Agree (left.columns.zip l) (right.columns.zip r) <;>
    simp [hagree, bind, Except.bind, pure, Except.pure]

/-- The join by positions, as it is made where a name is shared. -/
def joinByPositions (left right : Relation) : Except Error Relation := do
  let columns ← (joinLayout left right).mapM (itemAt (left.columns ++ right.columns))
  let rows ← joinRows (sharedPositions left right) (joinLayout left right) left.rows right.rows
  return ⟨[], columns, rows⟩

/-- The positions lay out the pairs that agree in left-major order, also with no shared name. -/
theorem joinByPositions_eq (hl : left.Regular)
    (hr : ∀ row ∈ right.rows, row.length = right.columns.length) :
    joinByPositions left right =
      .ok ⟨[], besideColumns (sharedNames left right) left.columns right.columns,
        left.rows.flatMap fun l => right.rows.filterMap (joinPair left right l)⟩ := by
  have hcolumns : (joinLayout left right).mapM (itemAt (left.columns ++ right.columns)) =
      .ok (besideColumns (sharedNames left right) left.columns right.columns) := by
    rw [mapM_joinLayout hl.distinct rfl rfl, map_snd_beside_self]
  rw [joinByPositions, hcolumns, joinRows_eq hl hr]
  rfl

theorem naturalJoin_eq (hl : left.Regular)
    (hr : ∀ row ∈ right.rows, row.length = right.columns.length) :
    naturalJoin left right =
      .ok ⟨[], besideColumns (sharedNames left right) left.columns right.columns,
        left.rows.flatMap fun l => right.rows.filterMap (joinPair left right l)⟩ := by
  unfold naturalJoin
  simp only
  split
  · rename_i hnone
    rw [flatMap_joinPair_of_noneShared hnone hl.filled hr, hnone]
    simp [besideColumns, bears]
  · exact joinByPositions_eq hl hr

theorem isSome_value?_of_mem_sharedNames {α : Type} {xs : List α}
    (hx : xs.length = left.columns.length) {name : Text} (h : name ∈ sharedNames left right) :
    (Labelled.value? (left.columns.zip xs) name).isSome := by
  rw [Labelled.value?_isSome_iff, Labelled.map_name_zip hx]
  exact (mem_sharedNames.1 h).1

theorem nodup_besideColumns (hl : (left.columns.map Column.name).Nodup)
    (hr : (right.columns.map Column.name).Nodup) :
    ((besideColumns (sharedNames left right) left.columns right.columns).map
      Column.name).Nodup := by
  have hsplit : (left.columns.filter (bears (sharedNames left right)) ++
      left.columns.filter fun column => !bears (sharedNames left right) column).Perm
        left.columns := List.filter_append_perm _ _
  rw [besideColumns, ← List.append_assoc, List.map_append, List.nodup_append']
  refine ⟨(hsplit.map Column.name).nodup_iff.2 hl,
    hr.sublist (List.filter_sublist.map Column.name), ?_⟩
  intro name hleft hright
  obtain ⟨column, hcolumn, rfl⟩ := List.mem_map.1 hright
  rw [List.mem_filter, Bool.not_eq_true', bears] at hcolumn
  have hshared : column.name ∈ sharedNames left right :=
    mem_sharedNames.2 ⟨(hsplit.map Column.name).mem_iff.1 hleft, List.mem_map_of_mem hcolumn.1⟩
  simp [hshared] at hcolumn

/-- The records of the join are the pairs of records that agree, side by side. -/
theorem records_join (hl : ∀ row ∈ left.rows, row.length = left.columns.length)
    (hr : ∀ row ∈ right.rows, row.length = right.columns.length) :
    records ⟨[], besideColumns (sharedNames left right) left.columns right.columns,
        left.rows.flatMap fun l => right.rows.filterMap (joinPair left right l)⟩ =
      left.records.flatMap fun a => (right.records.filter fun b => Record.Agree a b).map
        (beside (sharedNames left right) a) := by
  simp only [records, List.map_flatMap, List.flatMap_map]
  apply List.flatMap_congr
  intro l hrow
  rw [List.map_filterMap, List.filter_map, List.map_map, ← List.filterMap_eq_map,
    List.filterMap_filter]
  apply List.filterMap_congr
  intro r hrow'
  by_cases hagree : Record.Agree (left.columns.zip l) (right.columns.zip r)
  · have hfst := map_fst_beside (sharedNames left right) (hl l hrow) (hr r hrow')
    simp only [joinPair, hagree, if_true, Option.map_some, Function.comp_apply, decide_true]
    rw [← List.zip_of_prod hfst rfl]
  · simp [joinPair, hagree]

theorem naturalJoin_spec (hl : left.Regular) (hr : right.Regular) :
    ∃ joined, naturalJoin left right = .ok joined ∧ joined.Regular ∧
      (∀ name, Column.named? joined.columns name =
        (Column.named? left.columns name).or (Column.named? right.columns name)) ∧
      joined.records = left.records.flatMap fun a =>
        (right.records.filter fun b => Record.Agree a b).map
          (beside (sharedNames left right) a) := by
  refine ⟨_, naturalJoin_eq hl hr.filled, ⟨nodup_besideColumns hl.distinct hr.distinct, ?_⟩, ?_,
    records_join hl.filled hr.filled⟩
  · intro row hrow
    obtain ⟨l, hl', hrow⟩ := List.mem_flatMap.1 hrow
    obtain ⟨r, hr', hrow⟩ := List.mem_filterMap.1 hrow
    unfold joinPair at hrow
    split at hrow
    · cases hrow
      have hfst := congrArg List.length
        (map_fst_beside (sharedNames left right) (hl.filled l hl') (hr.filled r hr'))
      rw [List.length_map] at hfst ⊢
      exact hfst
    · cases hrow
  · intro name
    have hfst : (beside (sharedNames left right) (left.columns.zip left.columns)
        (right.columns.zip right.columns)).map Prod.fst =
          besideColumns (sharedNames left right) left.columns right.columns :=
      map_fst_beside (sharedNames left right) rfl rfl
    have hcolumns := List.zip_of_prod hfst (map_snd_beside_self _ _)
    rw [← Labelled.value?_zip_self, ← hcolumns, ← Labelled.value?_zip_self,
      ← Labelled.value?_zip_self]
    exact value?_beside (fun name h => isSome_value?_of_mem_sharedNames rfl h) name

end Relation

end Relata
