import Relata.Proofs.World.Frame
import Relata.Proofs.World.Tables
import Relata.Proofs.Relation.Rows

/-!
# The history of a table

A table is created or loaded, and from then on only inserts change it. So its rows are
those that it was created or loaded with, followed by the rows of the successful inserts
since then, in their order.
-/

namespace Relata

/-- The table that a statement creates or loads. -/
def Statement.establishes? : Statement → Option Text
  | .createTable name _ => some name
  | .createFrom name _ => some name
  | .load name => some name
  | _ => none

/-- The literals of a statement that inserts into a table. -/
def Statement.literalsFor? (name : Text) : Statement → Option (List Text)
  | .insert table literals => if table = name then some literals else none
  | _ => none

theorem Statement.literalsFor?_of_writes?_ne {statement : Statement} {name : Text}
    (h : statement.writes? ≠ some name) : statement.literalsFor? name = none := by
  cases statement with
  | insert table literals => exact if_neg fun htable => h (congrArg some htable)
  | _ => rfl

namespace Relation

/-- One table is another with the rows of some lists of literals after its own. -/
def Grown (origin : Relation) (inserted : List (List Text)) (table : Relation) : Prop :=
  ∃ added, List.Forall₂ (fun literals row => literals.mapM Value.read = .ok row) inserted added ∧
    table = { origin with rows := origin.rows ++ added }

variable {origin middle table : Relation}

theorem Grown.refl (table : Relation) : Grown table [] table :=
  ⟨[], List.Forall₂.nil, by simp⟩

theorem Grown.trans {first second : List (List Text)} (hfirst : Grown origin first middle)
    (hsecond : Grown middle second table) : Grown origin (first ++ second) table := by
  obtain ⟨earlier, hearlier, rfl⟩ := hfirst
  obtain ⟨later, hlater, rfl⟩ := hsecond
  exact ⟨earlier ++ later, List.rel_append hearlier hlater, by simp⟩

theorem mapM_read_of_readRow {columns : List Column} {literals : List Text} {row : Row}
    (h : readRow columns literals = .ok row) : literals.mapM Value.read = .ok row := by
  obtain ⟨hlength, hcells⟩ := readRow_eq_ok.1 h
  have hliterals : (columns.zip literals).map Prod.snd = literals :=
    List.map_snd_zip (Nat.le_of_eq hlength)
  rw [Outcome.mapM_eq_ok, ← hliterals, List.forall₂_map_left_iff]
  exact hcells.imp fun _ _ hcell => (readCell_eq_ok.1 hcell).1

theorem grown_of_appendRow {literals : List Text}
    (h : (appendRow literals).apply origin = (.ok (), table)) : Grown origin [literals] table := by
  obtain ⟨row, hrow, rfl⟩ := appendRow_eq_ok_iff.1 h
  exact ⟨[row], List.Forall₂.cons (mapM_read_of_readRow hrow) List.Forall₂.nil, rfl⟩

end Relation

namespace World

/-- A query succeeds in creating or loading a table. -/
def Establishes (w : World) (name query : Text) : Prop :=
  ∃ statement output, Statement.read query = .ok statement ∧
    statement.establishes? = some name ∧ (w.execute query).1 = .ok output

/-- The literals of a query that succeeds in inserting into a table. -/
def insertion? (w : World) (name query : Text) : Option (List Text) :=
  match Statement.read query, (w.execute query).1 with
  | .ok statement, .ok _ => statement.literalsFor? name
  | _, _ => none

/-- The literals of the successful inserts into a table during a run, in order. -/
def insertions (w : World) (name : Text) : List Text → List (List Text)
  | [] => []
  | query :: rest => (w.insertion? name query).toList ++ (w.execute query).2.insertions name rest

/-- A split of a run at the last query that succeeds in creating or loading a table. -/
structure LastEstablished (w : World) (name : Text) (queries before : List Text) (query : Text)
    (after : List Text) : Prop where
  split : queries = before ++ query :: after
  establishes : (w.run before).Establishes name query
  last : ∀ middle other rest, after = middle ++ other :: rest →
    ¬(w.run (before ++ query :: middle)).Establishes name other

variable {w next : World} {name query : Text} {queries : List Text} {table : Relation}

/-! ## One query -/

theorem insertion?_of_error {e : Error} (h : (w.execute query).1 = .error e) :
    w.insertion? name query = none := by
  unfold insertion?
  rw [h]
  cases Statement.read query <;> rfl

theorem insertion?_of_ok {statement : Statement} {output : Output}
    (hread : Statement.read query = .ok statement) (h : (w.execute query).1 = .ok output) :
    w.insertion? name query = statement.literalsFor? name := by
  unfold insertion?
  rw [hread, h]

/-- A statement that does not establish a table keeps it, with the row that it inserts. -/
theorem Effect.exists_grown {statement : Statement} {output : Output}
    (h : Effect w statement output next) (hnot : statement.establishes? ≠ some name)
    (hfound : next.table? name = some table) :
    ∃ origin, w.table? name = some origin ∧
      Relation.Grown origin (statement.literalsFor? name).toList table := by
  by_cases hwrites : statement.writes? = some name
  · cases h with
    | createTable => exact absurd hwrites hnot
    | createFrom => exact absurd hwrites hnot
    | load => exact absurd hwrites hnot
    | drop =>
        cases hwrites
        rw [table?, withoutTable, Catalog.find?_without, if_pos rfl] at hfound
        cases hfound
    | insert found appended =>
        cases hwrites
        rw [table?_withTable_self, Option.some.injEq] at hfound
        rw [Statement.literalsFor?, if_pos rfl, ← hfound]
        exact ⟨_, found, Relation.grown_of_appendRow appended⟩
    | store => cases hwrites
    | print => cases hwrites
    | select => cases hwrites
  · rw [h.frame.tables name hwrites] at hfound
    rw [Statement.literalsFor?_of_writes?_ne hwrites]
    exact ⟨table, hfound, Relation.Grown.refl table⟩

theorem exists_grown_of_execute (hnot : ¬w.Establishes name query)
    (hfound : (w.execute query).2.table? name = some table) :
    ∃ origin, w.table? name = some origin ∧
      Relation.Grown origin (w.insertion? name query).toList table := by
  cases h : (w.execute query).1 with
  | error e =>
      have hsame : (w.execute query).2 = w := execute_error (Prod.ext h rfl)
      rw [hsame] at hfound
      rw [insertion?_of_error h]
      exact ⟨table, hfound, Relation.Grown.refl table⟩
  | ok output =>
      obtain ⟨statement, hread, heffect⟩ := execute_eq_ok_iff.1 (Prod.ext h rfl)
      rw [insertion?_of_ok hread h]
      refine heffect.exists_grown (fun hestablishes => ?_) hfound
      exact hnot ⟨statement, output, hread, hestablishes, h⟩

/-! ## Runs -/

theorem run_cons (w : World) (query : Text) (queries : List Text) :
    w.run (query :: queries) = (w.execute query).2.run queries := by
  rw [← transact_snd]
  rfl

/-- In a run that does not establish a table, the table grows by the inserted rows. -/
theorem exists_grown_of_run
    (hlast : ∀ middle other rest, queries = middle ++ other :: rest →
      ¬(w.run middle).Establishes name other)
    (hfound : (w.run queries).table? name = some table) :
    ∃ origin, w.table? name = some origin ∧
      Relation.Grown origin (w.insertions name queries) table := by
  induction queries generalizing w with
  | nil => exact ⟨table, hfound, Relation.Grown.refl table⟩
  | cons query queries ih =>
      rw [run_cons] at hfound
      obtain ⟨middle, hmiddle, hlater⟩ := ih (fun before other rest hsplit => by
        rw [← run_cons]
        exact hlast (query :: before) other rest (by rw [hsplit]; rfl)) hfound
      obtain ⟨origin, horigin, hgrown⟩ :=
        exists_grown_of_execute (hlast [] query queries rfl) hmiddle
      exact ⟨origin, horigin, hgrown.trans hlater⟩

theorem LastEstablished.cons {before after : List Text} {other : Text}
    (h : (w.execute query).2.LastEstablished name queries before other after) :
    w.LastEstablished name (query :: queries) (query :: before) other after where
  split := congrArg (query :: ·) h.split
  establishes := by
    rw [run_cons]
    exact h.establishes
  last middle later rest hsplit := by
    rw [List.cons_append, run_cons]
    exact h.last middle later rest hsplit

theorem exists_lastEstablished (w : World) (name : Text) (queries : List Text) :
    (∃ before query after, w.LastEstablished name queries before query after) ∨
      ∀ middle other rest, queries = middle ++ other :: rest →
        ¬(w.run middle).Establishes name other := by
  induction queries generalizing w with
  | nil =>
      right
      intro middle other rest h
      cases middle <;> cases h
  | cons query queries ih =>
      rcases ih (w.execute query).2 with ⟨before, other, after, hlast⟩ | hnone
      · exact .inl ⟨query :: before, other, after, hlast.cons⟩
      -- no later query establishes the table, so the first one is the last if it does
      · by_cases hquery : w.Establishes name query
        · left
          refine ⟨[], query, queries, rfl, hquery, fun middle other rest hsplit => ?_⟩
          rw [List.nil_append, run_cons]
          exact hnone middle other rest hsplit
        · right
          intro middle other rest hsplit
          cases middle with
          | nil =>
              cases hsplit
              exact hquery
          | cons first middle =>
              cases hsplit
              rw [run_cons]
              exact hnone middle other rest rfl

/--
A table at the end of a run was created or loaded in it, and is what that left, with the
rows of the successful inserts since then after its own.
-/
theorem run_table_grown (settings : FileSettings) (files : FileTree) (queries : List Text)
    (name : Text) (table : Relation)
    (hfound : ((start settings files).run queries).table? name = some table) :
    (∃ before query after,
      (start settings files).LastEstablished name queries before query after) ∧
    ∀ before query after,
      (start settings files).LastEstablished name queries before query after →
        let established := (start settings files).run (before ++ [query])
        ∃ origin, established.table? name = some origin ∧
          Relation.Grown origin (established.insertions name after) table := by
  constructor
  · refine (exists_lastEstablished _ name queries).resolve_right fun hnone => ?_
    -- without a query that establishes it, the table would be there from the start
    obtain ⟨origin, horigin, -⟩ := exists_grown_of_run hnone hfound
    cases horigin
  · intro before query after hlast established
    have hsplit : queries = (before ++ [query]) ++ after := by simp [hlast.split]
    rw [hsplit, run_append] at hfound
    refine exists_grown_of_run (fun middle other rest h => ?_) hfound
    rw [← run_append, List.append_assoc]
    exact hlast.last middle other rest h

/-- Inserts that fail, other tables, and a load that goes back to an earlier state. -/
def interleavedRun : List Text :=
  ["create table t (a int)".toList, "insert into t values 1".toList, "store t".toList,
    "insert into t values 2".toList, "load t".toList, "create table s (a int)".toList,
    "insert into t values 3".toList, "insert into s values 9".toList,
    "insert into t values 'x'".toList, "create table t (b int)".toList, "drop table s".toList,
    "insert into t values NOVALUE".toList]

theorem run_table_grown_interleavedRun :
    let w := start .default .empty
    let table : Relation := ⟨['t'], [⟨['a'], .int⟩], [[.int 1], [.int 3], [.noValue]]⟩
    (w.run interleavedRun).table? ['t'] = some table ∧
      ∃ before query after, w.LastEstablished ['t'] interleavedRun before query after ∧
        let established := w.run (before ++ [query])
        ∃ origin, established.table? ['t'] = some origin ∧
          Relation.Grown origin (established.insertions ['t'] after) table := by
  intro w table
  have hfound : (w.run interleavedRun).table? ['t'] = some table := by decide +kernel
  obtain ⟨⟨before, query, after, hlast⟩, hgrown⟩ :=
    run_table_grown .default .empty interleavedRun ['t'] table hfound
  exact ⟨hfound, before, query, after, hlast, hgrown before query after hlast⟩

end World

end Relata
