import Relata.Proofs.Relation.Typing
import Relata.Proofs.World.Tables

/-!
# Which runs keep tables well-typed

Every query keeps all tables well-typed except one that stores a computed column of two
types. Such a column arises where an operand is missing in some rows, so that their results
have the type of the other operand, while the column is declared with the type of the last
result.
-/

namespace Relata

namespace World

/-- The columns of a query that stores the result of a select on targets, and what it stores. -/
def Stores (w : World) (query : Text) (targets : List Target)
    (columns : List (Column × List Value)) (relation : Relation) : Prop :=
  ∃ name tables conditions source,
    Statement.read query = .ok (.createFrom name ⟨.targets targets, tables, conditions⟩) ∧
      w.table? name = none ∧ w.database.catalog.joined tables = .ok source ∧
        targets.mapM (Relation.targetColumn source) = .ok columns ∧
          (Relation.ofColumns columns).select conditions = .ok relation

/--
A query that stores no computed column of two types: in such a column every value that is
kept is a marker or of the type of the last result in the rows of the join.
-/
def Uniform (w : World) (query : Text) : Prop :=
  ∀ targets columns relation, w.Stores query targets columns relation →
    ∀ row ∈ relation.rows, ∀ (j : Nat) left op right label column value,
      targets[j]? = some (.computed left op right label) → columns[j]? = some column →
        row[j]? = some value → value.dataType? = none ∨ value.dataType? = lastType? column.2

def WellTyped (w : World) : Prop :=
  w.Tables fun _ relation => relation.WellTyped

def Shaped (w : World) : Prop :=
  w.Tables fun _ relation => relation.Shaped

variable {w next : World}

/-! ## Shape -/

theorem Effect.shaped {statement : Statement} {output : Output}
    (h : Effect w statement output next) (hw : w.Shaped) : next.Shaped := by
  cases h with
  | createTable free =>
      apply hw.withTable
      intro row hrow
      cases hrow
  | @createFrom name select relation selected free =>
      obtain ⟨source, projected, hsource, hprojected, hselected⟩ := Catalog.select_eq_ok.1 selected
      have hprojection := (Catalog.each_joined hw hsource).project
        (fun _ _ _ _ _ _ _ _ _ _ _ => trivial) hprojected
      have hrelation : relation.Shaped := hprojection.select hselected
      exact hw.withTable hrelation
  | load read => exact hw.withTable (Relation.each_fits_of_ofFile read).shaped
  | store => exact hw
  | drop => exact hw.withoutTable _
  | insert found appended =>
      exact hw.withTable ((hw _ _ found).appendRow appended fun _ _ _ _ _ _ => trivial)
  | print => exact hw
  | select => exact hw

theorem Shaped.execute (hw : w.Shaped) (query : Text) : (w.execute query).2.Shaped := by
  rcases execute_cases w query with hsame | ⟨statement, output, -, heffect⟩
  · rw [hsame]
    exact hw
  · exact heffect.shaped hw

theorem shaped_run (settings : FileSettings) (files : FileTree) (queries : List Text) :
    ((start settings files).run queries).Shaped :=
  run_induction (I := Shaped) (tables_start settings files) (fun _ query h => h.execute query)
    queries

/-! ## Types -/

theorem each_fits (hshaped : w.Shaped) (htyped : w.WellTyped) :
    w.Tables fun _ relation => relation.Each Relation.Fits :=
  fun name relation h => (hshaped name relation h).each_fits_iff.2 (htyped name relation h)

/-- No statement but a create from a select can store a value that does not fit its column. -/
theorem Effect.wellTyped {statement : Statement} {output : Output}
    (h : Effect w statement output next) (hshaped : w.Shaped) (htyped : w.WellTyped)
    (hstatement : ∀ name select, statement ≠ .createFrom name select) : next.WellTyped := by
  cases h with
  | createTable free =>
      apply htyped.withTable
      intro row hrow
      cases hrow
  | @createFrom name select relation selected free => exact absurd rfl (hstatement name select)
  | load read => exact htyped.withTable (Relation.each_fits_of_ofFile read).wellTyped
  | store => exact htyped
  | drop => exact htyped.withoutTable _
  | insert found appended =>
      have hfits := each_fits hshaped htyped _ _ found
      exact htyped.withTable (hfits.fits_of_readRow appended).wellTyped
  | print => exact htyped
  | select => exact htyped

theorem wellTyped_withTable_iff (htyped : w.WellTyped) (name : Text) (relation : Relation) :
    (w.withTable name relation).WellTyped ↔ relation.WellTyped :=
  ⟨fun h => h name relation (table?_withTable_self w name relation), htyped.withTable⟩

theorem Effect.wellTyped_createFrom_iff {query name : Text} {select : Select} {output : Output}
    (h : Effect w (.createFrom name select) output next)
    (hread : Statement.read query = .ok (.createFrom name select)) (hshaped : w.Shaped)
    (htyped : w.WellTyped) : next.WellTyped ↔ w.Uniform query := by
  cases h with
  | @createFrom _ _ relation selected free =>
      obtain ⟨source, projected, hsource, hprojected, hselected⟩ := Catalog.select_eq_ok.1 selected
      have hfits := Catalog.each_joined (each_fits hshaped htyped) hsource
      rw [wellTyped_withTable_iff htyped]
      obtain ⟨projection, tables, conditions⟩ := select
      cases projection with
      | all =>
          cases hprojected
          refine iff_of_true (hfits.select hselected).wellTyped ?_
          rintro targets columns stored ⟨name', tables', conditions', source', hread', -⟩
          rw [hread] at hread'
          cases hread'
      | targets targets =>
          rw [Relation.project_targets] at hprojected
          obtain ⟨columns, hcolumns, rfl⟩ := Outcome.map_eq_ok.1 hprojected
          refine (Relation.wellTyped_select_iff hfits hcolumns hselected).trans ?_
          constructor
          · -- the query determines the targets, the columns and the stored relation
            rintro h targets' columns' stored
              ⟨name', tables', conditions', source', hread', -, hsource', hcolumns', hselected'⟩
            cases hread.symm.trans hread'
            cases hsource.symm.trans hsource'
            cases hcolumns.symm.trans hcolumns'
            cases hselected.symm.trans hselected'
            exact h
          · intro h
            exact h targets columns relation
              ⟨name, tables, conditions, source, hread, free, hsource, hcolumns, hselected⟩

theorem execute_wellTyped_iff (hshaped : w.Shaped) (htyped : w.WellTyped) (query : Text) :
    (w.execute query).2.WellTyped ↔ w.Uniform query := by
  cases h : (w.execute query).1 with
  | error e =>
      have hsame : (w.execute query).2 = w := execute_error (Prod.ext h rfl)
      refine iff_of_true (by rw [hsame]; exact htyped) ?_
      rintro targets columns relation
        ⟨name, tables, conditions, source, hread, hfree, hsource, hcolumns, hselected⟩
      -- a select whose parts all succeed cannot have failed
      have hselect : w.database.catalog.select ⟨.targets targets, tables, conditions⟩ =
          .ok relation := by
        refine Catalog.select_eq_ok.2 ⟨source, _, hsource, ?_, hselected⟩
        rw [Relation.project_targets, hcolumns]
        rfl
      have heffect := (Effect.createFrom hselect hfree).perform_eq
      rw [execute_of_read hread, heffect] at h
      cases h
  | ok output =>
      obtain ⟨statement, hread, heffect⟩ := execute_eq_ok_iff.1 (Prod.ext h rfl)
      by_cases hcreate : ∃ name select, statement = .createFrom name select
      · obtain ⟨name, select, rfl⟩ := hcreate
        exact heffect.wellTyped_createFrom_iff hread hshaped htyped
      · refine iff_of_true (heffect.wellTyped hshaped htyped ?_) ?_
        · rintro name select rfl
          exact hcreate ⟨name, select, rfl⟩
        · rintro targets columns relation ⟨name, tables, conditions, source, hread', -⟩
          cases hread.symm.trans hread'
          exact absurd ⟨name, _, rfl⟩ hcreate

/-- All states of a run are well-typed exactly if none of its queries stores a mixed column. -/
theorem run_wellTyped_iff (settings : FileSettings) (files : FileTree) (queries : List Text) :
    (∀ before, before <+: queries → ((start settings files).run before).WellTyped) ↔
      ∀ before query, before ++ [query] <+: queries →
        ((start settings files).run before).Uniform query := by
  constructor
  · intro h before query hbefore
    have htyped := h before ((List.prefix_append before [query]).trans hbefore)
    rw [← execute_wellTyped_iff (shaped_run settings files before) htyped, ← run_concat]
    exact h (before ++ [query]) hbefore
  · intro h before
    induction before using List.reverseRecOn with
    | nil => exact fun _ => tables_start settings files
    | append_singleton before query ih =>
        intro hbefore
        have htyped := ih ((List.prefix_append before [query]).trans hbefore)
        rw [run_concat, execute_wellTyped_iff (shaped_run settings files before) htyped]
        exact h before query hbefore

def mixedRun : List Text :=
  ["create table t (a int, f float)".toList, "insert into t values 1, NOVALUE".toList,
    "insert into t values NOVALUE, 2.5".toList, "create table u as select a + f as c from t".toList]

/-- The first sum stays an integer, and the second declares the column to be of floats. -/
theorem not_wellTyped_mixedRun : ¬((start .default .empty).run mixedRun).WellTyped := by
  intro h
  have hstored : (((start .default .empty).run mixedRun).table? ['u']).map
      (fun table => (table.columns, table.rows.head?)) =
        some ([⟨['c'], .float⟩], some [.int 1]) := by
    decide +kernel
  obtain ⟨table, htable, hparts⟩ := Option.map_eq_some_iff.1 hstored
  obtain ⟨hcolumns, hrow⟩ := Prod.mk.inj hparts
  have hfits := h ['u'] table htable _ (List.mem_of_head? hrow) 0 ⟨['c'], .float⟩ (.int 1)
    (by rw [hcolumns]; rfl) rfl
  cases hfits

end World

end Relata
