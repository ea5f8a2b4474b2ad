import Relata.Proofs.Storage.Finite
import Relata.Proofs.World.Reload

/-!
# Storing and loading tables of literals

Without a create from a select every cell comes from a literal. A table of such a run that
has been stored can be loaded, and is shown as before, exactly if no float in it is
infinite; a literal that is too large for the format is read as such a float.
-/

namespace Relata

/-- A query that does not create a table from a select. -/
def OfLiterals (query : Text) : Prop :=
  ∀ name select, Statement.read query ≠ .ok (.createFrom name select)

instance (query : Text) : Decidable (OfLiterals query) :=
  let createsFrom : Except Error Statement → Bool
    | .ok (.createFrom _ _) => true
    | _ => false
  decidable_of_iff (createsFrom (Statement.read query) = false) <| by
    unfold OfLiterals
    cases Statement.read query with
    | error e => simp [createsFrom]
    | ok statement => cases statement <;> simp [createsFrom]

namespace World

/-- Every table has names of one word and cells that come from literals. -/
def Entered (w : World) : Prop :=
  w.Tables fun _ relation => relation.Entered

variable {w next : World} {name : Text} {table : Relation}

theorem Effect.entered {query : Text} {statement : Statement} {output : Output}
    (h : Effect w statement output next) (hread : Statement.read query = .ok statement)
    (hstatement : ∀ name select, statement ≠ .createFrom name select) (hw : w.Entered) :
    next.Entered := by
  cases h with
  | createTable free =>
      refine hw.withTable ⟨fun column hcolumn => ?_, fun row hrow => by cases hrow⟩
      exact Text.words_of_isWord (Statement.isWord_of_read_createTable hread column hcolumn)
  | @createFrom name select relation selected free => exact absurd rfl (hstatement name select)
  | load read => exact hw.withTable (Relation.entered_of_ofFile read)
  | store => exact hw
  | drop => exact hw.withoutTable _
  | insert found appended => exact hw.withTable ((hw _ _ found).appendRow appended)
  | print => exact hw
  | select => exact hw

theorem entered_run (settings : FileSettings) (files : FileTree) (queries : List Text)
    (hqueries : ∀ query ∈ queries, OfLiterals query) :
    ((start settings files).run queries).Entered := by
  refine run_induction_of_mem (I := Entered) (tables_start settings files) queries ?_
  intro w query hquery hw
  rcases execute_cases w query with hsame | ⟨statement, output, hread, heffect⟩
  · rw [hsame]
    exact hw
  · refine heffect.entered hread (fun name select hstatement => ?_) hw
    exact hqueries query hquery name select (hstatement ▸ hread)

theorem Sound.load_of_store (hw : w.Sound) (hfound : w.table? name = some table)
    (hstored : (w.execute ("store ".toList ++ name)).1 = .ok .nothing) (next : World) :
    let stored := (w.execute ("store ".toList ++ name)).2
    stored.execute ("load ".toList ++ name) = (.ok .nothing, next) ↔ ∃ read,
      Relation.ofFile (w.database.settings.fileName name) name
        (some (Text.encode table.write)) = .ok read ∧ next = stored.withTable name read := by
  intro stored
  obtain ⟨hdatabase, hfile⟩ := hw.of_store hfound hstored
  rw [load_eq_ok_iff (hw name table hfound).word, hdatabase, hfile]

/--
Without a create from a select, a stored table is loaded with its columns, as many rows and
the same text as before exactly if it holds no infinite float.
-/
theorem store_load_print_iff_finite (settings : FileSettings) (files : FileTree)
    (queries : List Text) (hqueries : ∀ query ∈ queries, OfLiterals query) (name : Text)
    (table : Relation)
    (hfound : ((start settings files).run queries).table? name = some table)
    (hstored : (((start settings files).run queries).execute ("store ".toList ++ name)).1 =
      .ok .nothing) :
    let before := (start settings files).run queries
    let stored := (before.execute ("store ".toList ++ name)).2
    let loaded := stored.execute ("load ".toList ++ name)
    (loaded.1 = .ok .nothing ∧
        (∃ again, loaded.2.table? name = some again ∧ again.columns = table.columns ∧
          again.rows.length = table.rows.length) ∧
        (loaded.2.transact ("print ".toList ++ name)).1 =
          (before.transact ("print ".toList ++ name)).1) ↔ table.Finite := by
  intro before stored loaded
  have hsound : before.Sound := sound_run settings files queries
  have hentered : table.Entered := entered_run settings files queries hqueries name table hfound
  obtain ⟨-, hword, hwritable⟩ := hsound name table hfound
  have hbefore : (before.transact ("print ".toList ++ name)).1 = table.write :=
    print_eq hword hfound
  have hload := hsound.load_of_store hfound hstored
  constructor
  · rintro ⟨hok, -⟩
    obtain ⟨read, hread, -⟩ := (hload loaded.2).1 (Prod.ext hok rfl)
    exact Relation.finite_of_ofFile_write hwritable hread
  · intro hfinite
    obtain ⟨again, hread, hcolumns, hrows, hwrite⟩ := hentered.exists_ofFile_write hwritable hfinite
      (before.database.settings.fileName name) name
    have hloaded : loaded = (.ok .nothing, stored.withTable name again) :=
      (hload _).2 ⟨again, hread, rfl⟩
    have htable : (stored.withTable name again).table? name = some again :=
      table?_withTable_self stored name again
    rw [hloaded, hbefore]
    refine ⟨rfl, ⟨again, htable, hcolumns, hrows⟩, ?_⟩
    exact (print_eq hword htable).trans hwrite

/-- A float with four places, negative zero, a text with a blank in it and a marker. -/
def fourPlaces : List Text :=
  ["create table t (f float, a string)".toList, "insert into t values 2.0005, 'x y'".toList,
    "insert into t values -0.0, NaN".toList]

theorem store_load_print_iff_finite_fourPlaces :
    let before := (start .default .empty).run fourPlaces
    let table : Relation :=
      ⟨['t'], [⟨['f'], .float⟩, ⟨['a'], .string⟩],
        [[.float (Decimal.toBinary64 ⟨false, 20005, -4⟩), .text "x y".toList],
          [.float (Binary64.zero true), .nan]]⟩
    (∀ query ∈ fourPlaces, OfLiterals query) ∧
      before.table? ['t'] = some table ∧ (before.execute "store t".toList).1 = .ok .nothing ∧
        let loaded := (before.execute "store t".toList).2.execute "load t".toList
        loaded.1 = .ok .nothing ∧
          (∃ again, loaded.2.table? ['t'] = some again ∧ again.columns = table.columns ∧
            again.rows.length = table.rows.length) ∧
          (loaded.2.transact "print t".toList).1 = (before.transact "print t".toList).1 := by
  intro before table
  have hqueries : ∀ query ∈ fourPlaces, OfLiterals query := by decide +kernel
  have hfound : before.table? ['t'] = some table := by decide +kernel
  have hstored : (before.execute "store t".toList).1 = .ok .nothing := by decide +kernel
  have hfinite : table.Finite := by decide +kernel
  exact ⟨hqueries, hfound, hstored,
    (store_load_print_iff_finite .default .empty fourPlaces hqueries ['t'] table hfound
      hstored).2 hfinite⟩

def overflowRun : List Text :=
  ["create table t (f float)".toList, "insert into t values 1.0e999".toList]

/-- The table is created and filled from literals and stored, but cannot be loaded. -/
theorem load_error_overflowRun :
    let before := (start .default .empty).run overflowRun
    (∀ query ∈ overflowRun, OfLiterals query) ∧
      (before.table? ['t']).map Relation.rows = some [[.float (.infinite false)]] ∧
        (before.execute "store t".toList).1 = .ok .nothing ∧
          ((before.execute "store t".toList).2.execute "load t".toList).1 =
            .error (.unknownLiteral "inf".toList) := by
  decide +kernel

end World

end Relata
