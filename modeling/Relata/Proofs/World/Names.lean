import Relata.Proofs.Join.Order
import Relata.Proofs.Projection.Targets
import Relata.Proofs.World.Typing

/-!
# Which runs keep column names distinct

Nothing checks the names that a table is made with, and there are three places where they
come from: a list of columns, the header of a file, and the targets of a select. Where these
are distinct every time, all column names of a run are. Joins of such tables, selections and
added rows never repeat a name.
-/

namespace Relata

namespace Target

def name : Target → Text
  | .column name => name
  | .computed _ _ _ label => label

end Target

namespace Relation

def Distinct (relation : Relation) : Prop :=
  (relation.columns.map Column.name).Nodup

variable {source relation : Relation}

theorem Declares.name_eq {results : List Value} {target : Target} {column : Column}
    (h : source.Declares results target column) : column.name = target.name := by
  cases h with
  | column first => simpa [Target.name] using List.find?_some first
  | computed => rfl

theorem map_name_project {targets : List Target}
    (h : source.project (.targets targets) = .ok relation) :
    relation.columns.map Column.name = targets.map Target.name := by
  rw [project_targets] at h
  obtain ⟨columns, hcolumns, rfl⟩ := Outcome.map_eq_ok.1 h
  rw [columns_ofColumns, List.map_map]
  exact (Outcome.map_eq_of_mapM
    (fun _ _ hcolumn => (declares_targetColumn hcolumn).name_eq.symm) hcolumns).symm

/-- The names in the header of a table file: the first words of its parts. -/
def headerNames (header : Text) : List Text :=
  (header.splitOn ',').map fun part : Text => part.words.headD []

theorem map_name_ofLines {file name header : Text} {lines : List Text}
    (h : ofLines file name (header :: lines) = .ok relation) :
    relation.columns.map Column.name = headerNames header := by
  obtain ⟨-, columns, rows, hcolumns, -, rfl⟩ := ofLines_eq_ok.1 h
  refine (Outcome.map_eq_of_mapM (fun part column hcolumn => ?_) hcolumns).symm
  obtain ⟨word, hwords, -⟩ := Column.read_eq_ok.1 hcolumn
  rw [hwords]
  rfl

theorem Distinct.regular (h : relation.Distinct) (hshaped : relation.Shaped) :
    relation.Regular :=
  ⟨h, fun _ hrow => hshaped.length_eq hrow⟩

end Relation

theorem Catalog.distinct_joined {catalog : Catalog} {names : List Text} {source : Relation}
    (hall : ∀ name relation, catalog.find? name = some relation → relation.Regular)
    (h : catalog.joined names = .ok source) : source.Distinct := by
  obtain ⟨-, rfl⟩ | ⟨relations, hrelations, hjoined⟩ := joined_cases h
  · exact List.nodup_nil
  · have hregular : ∀ relation ∈ relations, relation.Regular := by
      intro relation hrelation
      obtain ⟨name, -, hfound⟩ := find?_of_mem_getAll hrelations hrelation
      exact hall name relation hfound
    cases relations with
    | nil => cases hjoined
    | cons first rest =>
        obtain ⟨joined, hsome, hnatural⟩ := Relation.exists_isNaturalJoin hregular
        cases hjoined.symm.trans hsome
        exact hnatural.regular.distinct

namespace World

def Distinct (w : World) : Prop :=
  w.Tables fun _ relation => relation.Distinct

/-- A statement that succeeds in making a table, and the names that it is made with. -/
inductive Heads (w : World) : Statement → List Text → Prop
  | columns {name : Text} {columns : List Column} (free : w.table? name = none) :
      Heads w (.createTable name columns) (columns.map Column.name)
  | file {name t header : Text} {lines : List Text} {relation : Relation}
      (content : (w.files.read (w.database.settings.path name)).bind Text.decode = some t)
      (split : t.lines = header :: lines)
      (read : Relation.ofLines (w.database.settings.fileName name) name (header :: lines) =
        .ok relation) :
      Heads w (.load name) (Relation.headerNames header)
  | targets {name : Text} {targets : List Target} {tables : List Text}
      {conditions : List Condition} {relation : Relation}
      (selected : w.database.catalog.select ⟨.targets targets, tables, conditions⟩ = .ok relation)
      (free : w.table? name = none) :
      Heads w (.createFrom name ⟨.targets targets, tables, conditions⟩) (targets.map Target.name)

/-- A query that makes no table with a name twice. -/
def Unrepeated (w : World) (query : Text) : Prop :=
  ∀ statement names, Statement.read query = .ok statement → Heads w statement names → names.Nodup

variable {w next : World}

theorem Heads.exists_effect {statement : Statement} {names : List Text}
    (h : Heads w statement names) : ∃ name relation,
      Effect w statement .nothing (w.withTable name relation) ∧
        relation.columns.map Column.name = names := by
  cases h with
  | columns free => exact ⟨_, _, .createTable free, rfl⟩
  | @file name t header lines relation content split read =>
      have hread := Relation.ofFile_eq_ok.2 ⟨t, header, lines, content, split, read⟩
      exact ⟨_, _, .load hread, Relation.map_name_ofLines read⟩
  | @targets name targets tables conditions relation selected free =>
      refine ⟨_, _, .createFrom selected free, ?_⟩
      obtain ⟨source, projected, -, hprojected, hselected⟩ := Catalog.select_eq_ok.1 selected
      rw [(Relation.select_sublist hselected).1]
      exact Relation.map_name_project hprojected

/-- A statement can only repeat a name that is repeated where it makes a table. -/
theorem Effect.distinct {statement : Statement} {output : Output}
    (h : Effect w statement output next) (hshaped : w.Shaped) (hdistinct : w.Distinct)
    (hnames : ∀ names, Heads w statement names → names.Nodup) : next.Distinct := by
  cases h with
  | createTable free => exact hdistinct.withTable (hnames _ (.columns free))
  | @createFrom name select relation selected free =>
      apply hdistinct.withTable
      obtain ⟨projection, tables, conditions⟩ := select
      obtain ⟨source, projected, hsource, hprojected, hselected⟩ := Catalog.select_eq_ok.1 selected
      unfold Relation.Distinct
      rw [(Relation.select_sublist hselected).1]
      cases projection with
      | all =>
          cases hprojected
          exact Catalog.distinct_joined
            (fun name relation hfound => (hdistinct name relation hfound).regular
              (hshaped name relation hfound)) hsource
      | targets targets =>
          rw [Relation.map_name_project hprojected]
          exact hnames _ (.targets selected free)
  | load read =>
      apply hdistinct.withTable
      obtain ⟨t, header, lines, content, split, hlines⟩ := Relation.ofFile_eq_ok.1 read
      unfold Relation.Distinct
      rw [Relation.map_name_ofLines hlines]
      exact hnames _ (.file content split hlines)
  | store => exact hdistinct
  | drop => exact hdistinct.withoutTable _
  | @insert name literals relation extended found appended =>
      apply hdistinct.withTable
      unfold Relation.Distinct
      rw [(Relation.appendRow_header appended).2]
      exact hdistinct name relation found
  | print => exact hdistinct
  | select => exact hdistinct

theorem execute_distinct_iff (hshaped : w.Shaped) (hdistinct : w.Distinct) (query : Text) :
    (w.execute query).2.Distinct ↔ w.Unrepeated query := by
  constructor
  · intro h statement names hread hheads
    obtain ⟨name, relation, heffect, rfl⟩ := hheads.exists_effect
    rw [execute_eq_ok_iff.2 ⟨statement, hread, heffect⟩] at h
    exact h name relation (table?_withTable_self w name relation)
  · intro h
    rcases execute_cases w query with hsame | ⟨statement, output, hread, heffect⟩
    · rw [hsame]
      exact hdistinct
    · exact heffect.distinct hshaped hdistinct fun names => h statement names hread

/--
All states of a run have distinct column names in every table exactly if no query of it makes
a table from a list of columns, a header or a list of targets in which a name stands twice.
-/
theorem run_distinct_iff (settings : FileSettings) (files : FileTree) (queries : List Text) :
    (∀ before, before <+: queries → ((start settings files).run before).Distinct) ↔
      ∀ before query, before ++ [query] <+: queries →
        ((start settings files).run before).Unrepeated query :=
  run_prefixes_iff (tables_start settings files) queries fun before query hdistinct =>
    execute_distinct_iff (shaped_run settings files before) hdistinct query

/-- A table with a name twice, and a join that matches the name. -/
def lossyRun : List Text :=
  ["create table t (a int, a int)".toList, "insert into t values 1, 2".toList,
    "create table s (a int)".toList, "insert into s values 1".toList,
    "create table u as select * from t, s".toList]

/-- The table is made with the name twice, and the join shows its first value in both places. -/
theorem not_distinct_lossyRun :
    ¬((start .default .empty).run lossyRun).Distinct ∧
      ((((start .default .empty).run lossyRun).table? ['t']).map Relation.rows =
        some [[.int 1, .int 2]]) ∧
      ((((start .default .empty).run lossyRun).table? ['u']).map Relation.rows =
        some [[.int 1, .int 1]]) := by
  have hstored : ((((start .default .empty).run lossyRun).table? ['t']).map
      fun table => table.columns.map Column.name) = some [['a'], ['a']] := by
    decide +kernel
  refine ⟨fun h => ?_, by decide +kernel, by decide +kernel⟩
  obtain ⟨table, htable, hnames⟩ := Option.map_eq_some_iff.1 hstored
  have hdistinct : (table.columns.map Column.name).Nodup := h ['t'] table htable
  rw [hnames] at hdistinct
  simp at hdistinct

end World

end Relata
