import Relata.Proofs.Join.Pair

/-!
# The join described by names

What a join of two relations with distinct names is, without any position: the columns are
sorted into those whose name the other relation has and those of its own, and a pair of rows
is kept if cells of the same name hold identical values. Without common names that is the
product. The join of a relation with itself gives back its rows, if they differ pairwise.
-/

namespace Relata

namespace Record

/-- Cells of the same name hold identical values. -/
def Matches (a b : Record) : Prop :=
  ∀ x ∈ a, ∀ y ∈ b, x.1.name = y.1.name → x.2.identical y.2 = true

instance (a b : Record) : Decidable (Matches a b) :=
  inferInstanceAs (Decidable (∀ x ∈ a, ∀ y ∈ b, x.1.name = y.1.name →
    x.2.identical y.2 = true))

theorem Matches.symm {a b : Record} (h : Matches a b) : Matches b a :=
  fun y hy x hx hname => Value.identical_symm (h x hx y hy hname.symm)

end Record

namespace Relation

/-- Whether one of the columns has the name of the given one. -/
def hasNameOf (columns : List Column) (column : Column) : Bool :=
  columns.any fun other => other.name = column.name

/-- The values of a row in the columns that pass a test. -/
def valuesIn (p : Column → Bool) (columns : List Column) (row : Row) : Row :=
  ((columns.zip row).filter fun cell => p cell.1).map Prod.snd

/-- The natural join of two relations, by names. -/
def joinByName (left right : Relation) : Relation where
  name := []
  columns :=
    left.columns.filter (hasNameOf right.columns) ++
      left.columns.filter (fun column => !hasNameOf right.columns column) ++
      right.columns.filter fun column => !hasNameOf left.columns column
  rows := left.rows.flatMap fun l =>
    (right.rows.filter fun r =>
        Record.Matches (left.columns.zip l) (right.columns.zip r)).map fun r =>
      valuesIn (hasNameOf right.columns) left.columns l ++
        valuesIn (fun column => !hasNameOf right.columns column) left.columns l ++
        valuesIn (fun column => !hasNameOf left.columns column) right.columns r

variable {left right : Relation}

/-! ## Names and shared names -/

theorem hasNameOf_iff {columns : List Column} {column : Column} :
    hasNameOf columns column = true ↔ column.name ∈ columns.map Column.name := by
  simp only [hasNameOf, List.any_eq_true, decide_eq_true_eq, List.mem_map]

theorem bears_sharedNames_left {column : Column} (h : column ∈ left.columns) :
    bears (sharedNames left right) column = hasNameOf right.columns column := by
  rw [Bool.eq_iff_iff, bears_sharedNames h, hasNameOf_iff, Column.index?_isSome_iff]

theorem bears_sharedNames_right {column : Column} (h : column ∈ right.columns) :
    bears (sharedNames left right) column = hasNameOf left.columns column := by
  rw [Bool.eq_iff_iff, bears, List.contains_iff_mem, mem_sharedNames, hasNameOf_iff]
  exact and_iff_left (List.mem_map_of_mem h)

theorem besideColumns_eq :
    besideColumns (sharedNames left right) left.columns right.columns =
      (joinByName left right).columns := by
  have hshared : left.columns.filter (bears (sharedNames left right)) =
      left.columns.filter (hasNameOf right.columns) :=
    List.filter_congr fun column h => bears_sharedNames_left h
  have hleft : (left.columns.filter fun column => !bears (sharedNames left right) column) =
      left.columns.filter fun column => !hasNameOf right.columns column :=
    List.filter_congr fun column h => by rw [bears_sharedNames_left h]
  have hright : (right.columns.filter fun column => !bears (sharedNames left right) column) =
      right.columns.filter fun column => !hasNameOf left.columns column :=
    List.filter_congr fun column h => by rw [bears_sharedNames_right h]
  rw [besideColumns, hshared, hleft, hright, ← List.append_assoc]
  rfl

theorem valuesIn_congr {p q : Column → Bool} {columns : List Column}
    (h : ∀ column ∈ columns, p column = q column) (row : Row) :
    valuesIn p columns row = valuesIn q columns row := by
  unfold valuesIn
  refine congrArg (List.map Prod.snd) (List.filter_congr fun cell hcell => ?_)
  exact h cell.1 (List.of_mem_zip hcell).1

theorem map_snd_beside (l r : Row) :
    (beside (sharedNames left right) (left.columns.zip l) (right.columns.zip r)).map Prod.snd =
      valuesIn (hasNameOf right.columns) left.columns l ++
        valuesIn (fun column => !hasNameOf right.columns column) left.columns l ++
        valuesIn (fun column => !hasNameOf left.columns column) right.columns r := by
  have hshared : valuesIn (bears (sharedNames left right)) left.columns l =
      valuesIn (hasNameOf right.columns) left.columns l :=
    valuesIn_congr (fun column h => bears_sharedNames_left h) l
  have hleft : valuesIn (fun column => !bears (sharedNames left right) column) left.columns l =
      valuesIn (fun column => !hasNameOf right.columns column) left.columns l :=
    valuesIn_congr (fun column h => by rw [bears_sharedNames_left h]) l
  have hright : valuesIn (fun column => !bears (sharedNames left right) column) right.columns r =
      valuesIn (fun column => !hasNameOf left.columns column) right.columns r :=
    valuesIn_congr (fun column h => by rw [bears_sharedNames_right h]) r
  rw [← hshared, ← hleft, ← hright]
  simp only [beside, valuesIn, List.map_append, List.append_assoc]

/-! ## Agreement and matches -/

theorem exists_of_value? {α : Type} {items : Labelled α} {name : Text} {v : α}
    (h : items.value? name = some v) : ∃ item ∈ items, item.1.name = name ∧ item.2 = v := by
  obtain ⟨item, hfound, rfl⟩ := Option.map_eq_some_iff.1 h
  exact ⟨item, List.mem_of_find?_eq_some hfound, by simpa using List.find?_some hfound, rfl⟩

theorem value?_of_mem {α : Type} {items : Labelled α}
    (distinct : (items.map fun item => item.1.name).Nodup) {item : Column × α}
    (h : item ∈ items) : items.value? item.1.name = some item.2 := by
  cases hvalue : items.value? item.1.name with
  | none => exact absurd (List.mem_map_of_mem h) (Labelled.value?_eq_none_iff.1 hvalue)
  | some v =>
      obtain ⟨other, hother, hname, rfl⟩ := exists_of_value? hvalue
      rw [List.inj_on_of_nodup_map distinct hother h hname]

/-- Where names are distinct, to agree under every name is to match cell by cell. -/
theorem agree_iff_matches {a b : Record} (ha : (a.map fun item => item.1.name).Nodup)
    (hb : (b.map fun item => item.1.name).Nodup) : Record.Agree a b ↔ Record.Matches a b := by
  constructor
  · intro h x hx y hy hname
    exact h x.1.name x.2 y.2 (value?_of_mem ha hx) (hname ▸ value?_of_mem hb hy)
  · intro h name v w hv hw
    obtain ⟨x, hx, rfl, rfl⟩ := exists_of_value? hv
    obtain ⟨y, hy, hname, rfl⟩ := exists_of_value? hw
    exact h x hx y hy hname.symm

theorem nodup_names_zip (h : left.Regular) {row : Row} (hrow : row ∈ left.rows) :
    ((left.columns.zip row).map fun item => item.1.name).Nodup := by
  rw [Labelled.map_name_zip (h.filled row hrow)]
  exact h.distinct

/-! ## The join -/

theorem rows_joinByName (hl : left.Regular) (hr : right.Regular) :
    (left.rows.flatMap fun l => right.rows.filterMap (joinPair left right l)) =
      (joinByName left right).rows := by
  apply List.flatMap_congr
  intro l hrow
  rw [← List.filterMap_eq_map, List.filterMap_filter]
  apply List.filterMap_congr
  intro r hrow'
  have hsame := agree_iff_matches (nodup_names_zip hl hrow) (nodup_names_zip hr hrow')
  simp only [joinPair, hsame, map_snd_beside, decide_eq_true_eq, Function.comp_apply]

theorem joinByName_eq (hl : left.Regular) (hr : right.Regular) :
    (⟨[], besideColumns (sharedNames left right) left.columns right.columns,
        left.rows.flatMap fun l => right.rows.filterMap (joinPair left right l)⟩ : Relation) =
      joinByName left right := by
  rw [besideColumns_eq, rows_joinByName hl hr]
  rfl

theorem naturalJoin_eq_joinByName (hl : left.Regular) (hr : right.Regular) :
    naturalJoin left right = .ok (joinByName left right) := by
  rw [naturalJoin_eq hl hr.filled, joinByName_eq hl hr]

/-- Without a common name the join is the product of the rows, left-major. -/
theorem joinByName_of_noneNamed (hl : left.Regular) (hr : right.Regular)
    (hnone : ∀ a ∈ left.columns, ∀ b ∈ right.columns, a.name ≠ b.name) :
    joinByName left right = ⟨[], left.columns ++ right.columns,
      left.rows.flatMap fun l => right.rows.map fun r => l ++ r⟩ := by
  have hshared : sharedNames left right = [] := by
    rw [List.eq_nil_iff_forall_not_mem]
    intro name hname
    obtain ⟨hleft, hright⟩ := mem_sharedNames.1 hname
    obtain ⟨a, ha, rfl⟩ := List.mem_map.1 hleft
    obtain ⟨b, hb, hsame⟩ := List.mem_map.1 hright
    exact hnone a ha b hb hsame.symm
  rw [← joinByName_eq hl hr, flatMap_joinPair_of_noneShared hshared hl.filled hr.filled, hshared]
  simp [besideColumns, bears, product]

/--
The natural join of two relations has the columns and the rows that their names call for,
whether they share a name or not. Without a common name, where no positions are computed,
that is the product, and the positions would lead to the same.
-/
theorem naturalJoin_byName (hl : left.Regular) (hr : right.Regular) :
    naturalJoin left right = .ok (joinByName left right) ∧
      joinByPositions left right = .ok (joinByName left right) ∧
        ((∀ a ∈ left.columns, ∀ b ∈ right.columns, a.name ≠ b.name) →
          joinByName left right = ⟨[], left.columns ++ right.columns,
            left.rows.flatMap fun l => right.rows.map fun r => l ++ r⟩) := by
  refine ⟨naturalJoin_eq_joinByName hl hr, ?_, joinByName_of_noneNamed hl hr⟩
  rw [joinByPositions_eq hl hr.filled, joinByName_eq hl hr]

/-- Relations that share two names in different orders, zeros of both signs among the values. -/
def crossed : Relation × Relation :=
  (⟨"a".toList, [⟨"w".toList, .int⟩, ⟨"x".toList, .float⟩, ⟨"y".toList, .int⟩],
      [[.int 1, .float (.zero false), .nan], [.int 2, .float (.zero true), .int 9],
        [.int 3, .noValue, .int 9]]⟩,
    ⟨"b".toList, [⟨"y".toList, .string⟩, ⟨"v".toList, .string⟩, ⟨"x".toList, .float⟩],
      [[.int 9, .text "p".toList, .float (.zero false)],
        [.nan, .text "q".toList, .float (.zero true)], [.int 9, .text "r".toList, .noValue],
        [.int 9, .text "s".toList, .float (.zero true)]]⟩)

theorem naturalJoin_byName_crossed :
    crossed.1.Regular ∧ crossed.2.Regular ∧
      naturalJoin crossed.1 crossed.2 = .ok ⟨[],
        [⟨"x".toList, .float⟩, ⟨"y".toList, .int⟩, ⟨"w".toList, .int⟩, ⟨"v".toList, .string⟩],
        [[.float (.zero false), .nan, .int 1, .text "q".toList],
          [.float (.zero true), .int 9, .int 2, .text "p".toList],
          [.float (.zero true), .int 9, .int 2, .text "s".toList],
          [.noValue, .int 9, .int 3, .text "r".toList]]⟩ := by
  have hl : crossed.1.Regular := by decide
  have hr : crossed.2.Regular := by decide
  refine ⟨hl, hr, ?_⟩
  rw [(naturalJoin_byName hl hr).1]
  exact congrArg Except.ok (by decide)

/-! ## The join of a relation with itself -/

theorem valuesIn_of_forall {p : Column → Bool} {columns : List Column} {row : Row}
    (hlength : row.length = columns.length) (h : ∀ column ∈ columns, p column = true) :
    valuesIn p columns row = row := by
  have hall : (columns.zip row).filter (fun cell => p cell.1) = columns.zip row :=
    List.filter_eq_self.2 fun cell hcell => h cell.1 (List.of_mem_zip hcell).1
  rw [valuesIn, hall, List.map_snd_zip (Nat.le_of_eq hlength)]

theorem valuesIn_of_forall_not {p : Column → Bool} {columns : List Column}
    (h : ∀ column ∈ columns, p column = false) (row : Row) : valuesIn p columns row = [] := by
  rw [valuesIn, List.map_eq_nil_iff, List.filter_eq_nil_iff]
  intro cell hcell
  simp [h cell.1 (List.of_mem_zip hcell).1]

theorem flatMap_filter_of_pairwise {R : α → α → Prop} [DecidableRel R] {xs : List α}
    (hself : ∀ x ∈ xs, R x x) (hothers : xs.Pairwise fun x y => ¬R x y ∧ ¬R y x) :
    (xs.flatMap fun x => (xs.filter fun y => R x y).map fun _ => x) = xs := by
  induction xs with
  | nil => rfl
  | cons x xs ih =>
      obtain ⟨hx, hrest⟩ := List.pairwise_cons.1 hothers
      have hnone : (xs.filter fun y => R x y) = [] :=
        List.filter_eq_nil_iff.2 fun y hy => by simpa using (hx y hy).1
      have hhead : ((x :: xs).filter fun y => R x y) = [x] := by
        simp [hself x List.mem_cons_self, hnone]
      have htail : (xs.flatMap fun y => ((x :: xs).filter fun z => R y z).map fun _ => y) =
          xs.flatMap fun y => (xs.filter fun z => R y z).map fun _ => y :=
        List.flatMap_congr fun y hy => by simp [(hx y hy).2]
      rw [List.flatMap_cons, hhead, htail,
        ih (fun y hy => hself y (List.mem_cons_of_mem x hy)) hrest]
      rfl

/-- Rows that hold values that are not identical in some column. -/
def Differ (l r : Row) : Prop :=
  ∃ pair ∈ l.zip r, pair.1.identical pair.2 = false

instance (l r : Row) : Decidable (Differ l r) :=
  inferInstanceAs (Decidable (∃ pair ∈ l.zip r, pair.1.identical pair.2 = false))

variable {relation : Relation}

theorem matches_self (h : relation.Regular) {row : Row} (hrow : row ∈ relation.rows)
    (hnumber : Value.float .nan ∉ row) :
    Record.Matches (relation.columns.zip row) (relation.columns.zip row) := by
  intro x hx y hy hname
  rw [← List.inj_on_of_nodup_map (nodup_names_zip h hrow) hx hy hname]
  refine Value.identical_self fun hnan => hnumber ?_
  exact hnan ▸ (List.of_mem_zip hx).2

theorem not_matches_of_differ {columns : List Column} {l r : Row}
    (hl : l.length = columns.length) (h : Differ l r) :
    ¬Record.Matches (columns.zip l) (columns.zip r) := by
  obtain ⟨pair, hpair, hdiffer⟩ := h
  obtain ⟨i, hi, rfl⟩ := List.getElem_of_mem hpair
  simp only [List.length_zip, List.getElem_zip] at hi hdiffer
  intro hmatch
  have hx : (columns[i], l[i]) ∈ columns.zip l :=
    List.mem_iff_getElem.2 ⟨i, by simp; omega, by simp⟩
  have hy : (columns[i], r[i]) ∈ columns.zip r :=
    List.mem_iff_getElem.2 ⟨i, by simp; omega, by simp⟩
  rw [hmatch _ hx _ hy rfl] at hdiffer
  cases hdiffer

theorem joinByName_self (h : relation.Regular)
    (hnumber : ∀ row ∈ relation.rows, Value.float .nan ∉ row)
    (hdiffer : relation.rows.Pairwise Differ) :
    joinByName relation relation = { relation with name := [] } := by
  have hnamed : ∀ column ∈ relation.columns, hasNameOf relation.columns column = true :=
    fun column hcolumn => hasNameOf_iff.2 (List.mem_map_of_mem hcolumn)
  have hnot : ∀ column ∈ relation.columns, (!hasNameOf relation.columns column) = false :=
    fun column hcolumn => by rw [hnamed column hcolumn, Bool.not_true]
  have hcolumns : (joinByName relation relation).columns = relation.columns := by
    have hshared := List.filter_eq_self.2 hnamed
    have hothers :
        (relation.columns.filter fun column => !hasNameOf relation.columns column) = [] :=
      List.filter_eq_nil_iff.2 fun column hcolumn => by simp [hnot column hcolumn]
    simp only [joinByName, hshared, hothers, List.append_nil]
  have hrows : (joinByName relation relation).rows = relation.rows := by
    have hself : ∀ row ∈ relation.rows,
        Record.Matches (relation.columns.zip row) (relation.columns.zip row) :=
      fun row hrow => matches_self h hrow (hnumber row hrow)
    have hothers : relation.rows.Pairwise fun l r =>
        ¬Record.Matches (relation.columns.zip l) (relation.columns.zip r) ∧
          ¬Record.Matches (relation.columns.zip r) (relation.columns.zip l) := by
      refine hdiffer.imp_of_mem fun {l r} hl _ hdiffer => ?_
      have hnone := not_matches_of_differ (h.filled l hl) hdiffer
      exact ⟨hnone, fun hmatch => hnone hmatch.symm⟩
    refine Eq.trans ?_ (flatMap_filter_of_pairwise hself hothers)
    apply List.flatMap_congr
    intro row hrow
    apply List.map_congr_left
    intro other _
    rw [valuesIn_of_forall (h.filled row hrow) hnamed, valuesIn_of_forall_not hnot,
      valuesIn_of_forall_not hnot, List.append_nil, List.append_nil]
  exact congrArg₂ (Relation.mk []) hcolumns hrows

/--
Joined with itself, a relation whose rows differ pairwise comes back without its name and
otherwise as it is, as long as every float in it is a number.
-/
theorem naturalJoin_self (h : relation.Regular)
    (hnumber : ∀ row ∈ relation.rows, Value.float .nan ∉ row)
    (hdiffer : relation.rows.Pairwise Differ) :
    naturalJoin relation relation = .ok { relation with name := [] } := by
  rw [naturalJoin_eq_joinByName h h, joinByName_self h hnumber hdiffer]

/-- Rows of which some differ only in a text, with a zero of either sign and both markers. -/
def readings : Relation :=
  ⟨"readings".toList, [⟨"x".toList, .float⟩, ⟨"y".toList, .string⟩],
    [[.float (.zero true), .text "p".toList], [.float (.zero false), .text "q".toList],
      [.nan, .noValue], [.noValue, .noValue], [.float (.infinite true), .noValue]]⟩

theorem naturalJoin_self_readings :
    readings.Regular ∧ (∀ row ∈ readings.rows, Value.float .nan ∉ row) ∧
      readings.rows.Pairwise Differ ∧
        naturalJoin readings readings = .ok { readings with name := [] } := by
  have h : readings.Regular := by decide
  have hnumber : ∀ row ∈ readings.rows, Value.float .nan ∉ row := by decide
  have hdiffer : readings.rows.Pairwise Differ := by decide +kernel
  exact ⟨h, hnumber, hdiffer, naturalJoin_self h hnumber hdiffer⟩

end Relation

end Relata
