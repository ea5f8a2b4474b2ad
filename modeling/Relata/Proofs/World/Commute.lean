import Relata.Proofs.World.Entries
import Relata.Proofs.World.Frame

/-!
# Queries that commute

What a statement that needs no file answers and what it leaves under the name that it writes
depend on no other table than those that it names. So two of them, neither of which writes a
table that the other names, can be asked in either order.
-/

namespace Relata

/-! ## The tables that a statement names -/

namespace Statement

/-- The tables that a statement shows or takes rows from. -/
def reads : Statement → List Text
  | .createFrom _ query => query.tables
  | .print name => [name]
  | .select query => query.tables
  | .createTable _ _ => []
  | .load _ => []
  | .store _ => []
  | .drop _ => []
  | .insert _ _ => []

def names (statement : Statement) : List Text :=
  statement.writes?.toList ++ statement.reads

def needsFile : Statement → Bool
  | .load _ => true
  | .store _ => true
  | _ => false

/-- Two statements without files, neither of which writes a table that the other names. -/
structure Independent (first second : Statement) : Prop where
  first_memory : first.needsFile = false
  second_memory : second.needsFile = false
  first_apart : ∀ name ∈ first.writes?, name ∉ second.names
  second_apart : ∀ name ∈ second.writes?, name ∉ first.names

variable {first second statement : Statement} {name : Text}

instance (first second : Statement) : Decidable (first.Independent second) :=
  decidable_of_iff ((first.needsFile = false ∧ second.needsFile = false) ∧
      (∀ name ∈ first.writes?, name ∉ second.names) ∧ ∀ name ∈ second.writes?, name ∉ first.names)
    ⟨fun h => ⟨h.1.1, h.1.2, h.2.1, h.2.2⟩,
      fun h => ⟨⟨h.first_memory, h.second_memory⟩, h.first_apart, h.second_apart⟩⟩

theorem Independent.symm (h : Independent first second) : Independent second first :=
  ⟨h.second_memory, h.first_memory, h.second_apart, h.first_apart⟩

theorem mem_names_of_writes? (h : name ∈ statement.writes?) : name ∈ statement.names :=
  List.mem_append_left _ (Option.mem_toList.2 h)

theorem mem_names_of_reads (h : name ∈ statement.reads) : name ∈ statement.names :=
  List.mem_append_right _ h

end Statement

/-! ## What a change of the tables depends on -/

namespace Catalog

variable {catalog other : Catalog} {name : Text}

/-- What a change of the tables yields, and what it leaves under a name. -/
def leaves (name : Text) (change : Change Catalog α) (catalog : Catalog) :
    Except Error α × Option Relation :=
  ((change.apply catalog).1, (change.apply catalog).2.find? name)

theorem leaves_add (catalog : Catalog) (relation : Relation) :
    leaves relation.name (add relation) catalog =
      match catalog.find? relation.name with
      | some found => (.error (.tableExists relation.name), some found)
      | none => (.ok (), some relation) := by
  rw [leaves, apply_add]
  cases h : catalog.find? relation.name with
  | some found => exact congrArg (Prod.mk _) h
  | none => exact congrArg (Prod.mk _) (find?_put_self catalog relation.name relation)

theorem leaves_drop (catalog : Catalog) (name : Text) :
    leaves name (drop name) catalog = (catalog.get name, none) := by
  rw [leaves, apply_drop, find?_without, if_pos rfl]

theorem leaves_within (catalog : Catalog) (name : Text) (change : Change Relation α) :
    leaves name (within name change) catalog =
      match catalog.find? name with
      | some relation => ((change.apply relation).1, some (change.apply relation).2)
      | none => (.error (.unknownTable name), none) := by
  rw [leaves, apply_within, get]
  cases h : catalog.find? name with
  | some relation => exact congrArg (Prod.mk _) (find?_put_self catalog name _)
  | none => exact congrArg (Prod.mk _) h

theorem get_congr (h : other.find? name = catalog.find? name) :
    other.get name = catalog.get name := by
  rw [get, get, h]

theorem leaves_add_congr (relation : Relation)
    (h : other.find? relation.name = catalog.find? relation.name) :
    leaves relation.name (add relation) other = leaves relation.name (add relation) catalog := by
  rw [leaves_add, leaves_add, h]

theorem leaves_drop_congr (h : other.find? name = catalog.find? name) :
    leaves name (drop name) other = leaves name (drop name) catalog := by
  rw [leaves_drop, leaves_drop, get_congr h]

theorem leaves_within_congr (change : Change Relation α)
    (h : other.find? name = catalog.find? name) :
    leaves name (within name change) other = leaves name (within name change) catalog := by
  rw [leaves_within, leaves_within, h]

theorem select_congr {query : Select}
    (h : ∀ name ∈ query.tables, other.find? name = catalog.find? name) :
    other.select query = catalog.select query := by
  have hall : query.tables.reverse.mapM other.get = query.tables.reverse.mapM catalog.get :=
    Outcome.mapM_congr fun name hname => get_congr (h name (List.mem_reverse.1 hname))
  rw [select, select, getAll, getAll, hall]

theorem leaves_createFrom_congr {query : Select}
    (hreads : ∀ name ∈ query.tables, other.find? name = catalog.find? name)
    (h : other.find? name = catalog.find? name) :
    leaves name (createFrom name query) other = leaves name (createFrom name query) catalog := by
  rw [leaves, leaves, apply_createFrom, apply_createFrom, select_congr hreads]
  cases catalog.select query with
  | error e => exact congrArg (Prod.mk _) h
  | ok relation => exact leaves_add_congr { relation with name } h

end Catalog

namespace World

variable {w v : World} {statement first second : Statement} {name : Text}

/-! ## What a statement depends on -/

/-- A change that leaves the same under a name answers alike, and leaves the same there. -/
theorem change_silently_congr {change : Change Catalog α}
    (h : Catalog.leaves name change v.database.catalog =
      Catalog.leaves name change w.database.catalog) :
    (v.change change.silently).1 = (w.change change.silently).1 ∧
      ∀ written ∈ some name, (v.change change.silently).2.table? written =
        (w.change change.silently).2.table? written := by
  obtain ⟨hresult, hleft⟩ := Prod.mk.inj h
  constructor
  · rw [change_fst, change_fst, Change.apply_silently, Change.apply_silently, hresult]
  · intro written hwritten
    cases hwritten
    rw [table?, table?, change_catalog, change_catalog, Change.apply_silently,
      Change.apply_silently]
    exact hleft

theorem change_showing_congr {read : Catalog → Except Error Relation}
    (h : read v.database.catalog = read w.database.catalog) :
    (v.change (Catalog.showing read)).1 = (w.change (Catalog.showing read)).1 := by
  rw [change_showing, change_showing, h]

theorem perform_congr (hmemory : statement.needsFile = false)
    (h : ∀ name ∈ statement.names, v.table? name = w.table? name) :
    (v.perform statement).1 = (w.perform statement).1 ∧
      ∀ name ∈ statement.writes?,
        (v.perform statement).2.table? name = (w.perform statement).2.table? name := by
  have hwrites : ∀ name ∈ statement.writes?, v.table? name = w.table? name :=
    fun name hname => h name (Statement.mem_names_of_writes? hname)
  have hreads : ∀ name ∈ statement.reads, v.table? name = w.table? name :=
    fun name hname => h name (Statement.mem_names_of_reads hname)
  cases statement with
  | createTable name columns =>
      exact change_silently_congr (Catalog.leaves_add_congr ⟨name, columns, []⟩ (hwrites name rfl))
  | createFrom name query =>
      exact change_silently_congr (Catalog.leaves_createFrom_congr hreads (hwrites name rfl))
  | drop name => exact change_silently_congr (Catalog.leaves_drop_congr (hwrites name rfl))
  | insert name literals =>
      exact change_silently_congr (Catalog.leaves_within_congr _ (hwrites name rfl))
  | print name =>
      have hname := hreads name (List.mem_singleton.2 rfl)
      exact ⟨change_showing_congr (Catalog.get_congr hname), nofun⟩
  | select query => exact ⟨change_showing_congr (Catalog.select_congr hreads), nofun⟩
  | load name => cases hmemory
  | store name => cases hmemory

theorem files_perform (w : World) (hmemory : statement.needsFile = false) :
    (w.perform statement).2.files = w.files := by
  rcases perform_spec w statement with ⟨e, he⟩ | ⟨output, next, heffect⟩
  · rw [he]
  · rw [heffect.perform_eq]
    cases heffect with
    | store => cases hmemory
    | _ => rfl

theorem Ordered.perform (hw : w.Ordered) (statement : Statement) :
    (w.perform statement).2.Ordered := by
  rcases perform_spec w statement with ⟨e, he⟩ | ⟨output, next, heffect⟩
  · rw [he]
    exact hw
  · rw [heffect.perform_eq]
    exact heffect.ordered hw

/-! ## Statements in either order -/

/-- A statement answers, and writes, after an independent one as it does before it. -/
theorem perform_after (h : first.Independent second) (w : World) :
    ((w.perform first).2.perform second).1 = (w.perform second).1 ∧
      ∀ name ∈ second.writes?,
        ((w.perform first).2.perform second).2.table? name = (w.perform second).2.table? name :=
  perform_congr h.second_memory fun name hname =>
    (perform_frame w first).tables name fun hwrites => h.first_apart name hwrites hname

theorem table?_perform_comm (h : first.Independent second) (w : World) (name : Text) :
    ((w.perform first).2.perform second).2.table? name =
      ((w.perform second).2.perform first).2.table? name := by
  -- a table that one of them writes is as that one leaves it, any other one as before
  have hfirstFrame := (perform_frame (w.perform second).2 first).tables name
  have hsecondFrame := (perform_frame (w.perform first).2 second).tables name
  by_cases hfirst : first.writes? = some name
  · have hsecond : second.writes? ≠ some name := fun hwrites =>
      h.second_apart name hwrites (Statement.mem_names_of_writes? hfirst)
    rw [hsecondFrame hsecond, (perform_after h.symm w).2 name hfirst]
  · rw [hfirstFrame hfirst]
    by_cases hsecond : second.writes? = some name
    · rw [(perform_after h w).2 name hsecond]
    · rw [hsecondFrame hsecond, (perform_frame w first).tables name hfirst,
        (perform_frame w second).tables name hsecond]

theorem eq_of_parts (hsettings : v.database.settings = w.database.settings)
    (hcatalog : v.database.catalog = w.database.catalog) (hfiles : v.files = w.files) : v = w := by
  obtain ⟨⟨settings, catalog⟩, files⟩ := v
  cases hsettings
  cases hcatalog
  cases hfiles
  rfl

theorem perform_comm (h : first.Independent second) (hw : w.Ordered) :
    ((w.perform first).2.perform second).2 = ((w.perform second).2.perform first).2 := by
  refine eq_of_parts ?_ ?_ ?_
  · rw [(perform_frame _ second).settings, (perform_frame _ first).settings,
      (perform_frame _ first).settings, (perform_frame _ second).settings]
  · exact ((hw.perform first).perform second).ext ((hw.perform second).perform first)
      (table?_perform_comm h w)
  · rw [files_perform _ h.second_memory, files_perform _ h.first_memory,
      files_perform _ h.first_memory, files_perform _ h.second_memory]

/-! ## Queries in either order -/

variable {query other : Text}

theorem transact_of_read (h : Statement.read query = .ok statement) (w : World) :
    w.transact query = (Output.told (w.perform statement).1, (w.perform statement).2) := by
  rw [transact_eq, execute_of_read h]

theorem transact_of_read_error {e : Error} (h : Statement.read query = .error e) (w : World) :
    w.transact query = (e.message, w) := by
  rw [transact_eq, execute_of_read_error h]
  rfl

/--
Two queries, neither of which loads, stores or writes a table that the other one names, are
answered alike in either order and leave the same tables; kept in order, the same world.
-/
theorem transact_comm (query other : Text)
    (h : ∀ first second, Statement.read query = .ok first → Statement.read other = .ok second →
      first.Independent second) (w : World) :
    ((w.transact other).2.transact query).1 = (w.transact query).1 ∧
      ((w.transact query).2.transact other).1 = (w.transact other).1 ∧
      (∀ name, ((w.transact query).2.transact other).2.table? name =
        ((w.transact other).2.transact query).2.table? name) ∧
      (w.Ordered → ((w.transact query).2.transact other).2 =
        ((w.transact other).2.transact query).2) := by
  cases hquery : Statement.read query with
  | error e =>
      have htold := transact_of_read_error hquery
      simp only [htold, implies_true, and_self]
  | ok first =>
      cases hother : Statement.read other with
      | error e =>
          have htold := transact_of_read_error hother
          simp only [htold, implies_true, and_self]
      | ok second =>
          have hindependent := h first second hquery hother
          simp only [transact_of_read hquery, transact_of_read hother]
          exact ⟨congrArg Output.told (perform_after hindependent.symm w).1,
            congrArg Output.told (perform_after hindependent w).1,
            table?_perform_comm hindependent w, perform_comm hindependent⟩

def twoTablesRun : List Text :=
  ["create table t (a int)".toList, "insert into t values 1".toList,
    "create table u (b string)".toList]

theorem transact_comm_twoTablesRun :
    let w := (start .default .empty).run twoTablesRun
    let query := "create table v as select a + 1 as c from t, t".toList
    let other := "insert into u values 'x'".toList
    w.Ordered ∧ ((w.transact other).2.transact query).1 = (w.transact query).1 ∧
      ((w.transact query).2.transact other).2 = ((w.transact other).2.transact query).2 ∧
      ((w.transact other).2.transact query).2.table? ['u'] =
        some ⟨['u'], [⟨['b'], .string⟩], [[.text ['x']]]⟩ := by
  intro w query other
  have hordered : w.Ordered := ordered_run .default .empty twoTablesRun
  have hquery : Statement.read query =
      .ok (.createFrom ['v']
        ⟨.targets [.computed ['a'] .add ['1'] ['c']], [['t'], ['t']], []⟩) := by
    decide +kernel
  have hother : Statement.read other = .ok (.insert ['u'] ["'x'".toList]) := by decide +kernel
  have hindependent : ∀ first second, Statement.read query = .ok first →
      Statement.read other = .ok second → first.Independent second := by
    intro first second hfirst hsecond
    rw [hquery] at hfirst
    rw [hother] at hsecond
    cases hfirst
    cases hsecond
    decide
  obtain ⟨hbefore, -, -, hsame⟩ := transact_comm query other hindependent w
  exact ⟨hordered, hbefore, hsame hordered, by decide +kernel⟩

end World

end Relata
