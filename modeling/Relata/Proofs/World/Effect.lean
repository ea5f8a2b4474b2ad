import Relata.Proofs.Change
import Relata.Proofs.Outcome
import Relata.Proofs.Storage.Tree
import Relata.Proofs.World.Lookup
import Relata.World

/-!
# What a statement does

The effect of every statement, as a relation between the world before and the world after.
A statement succeeds exactly if it has an effect, and then leaves the world of that effect;
if it fails, the world is as before. Invariants of runs are proved by cases on effects.
-/

namespace Relata

/-! ## Changes of the tables -/

namespace Relation

/-- A row is added only once all of it has been read. -/
theorem atomic_appendRow (literals : List Text) : (appendRow literals).Atomic :=
  Change.steady_get.bind_atomic fun relation =>
    (Change.steady_lift (readRow relation.columns literals)).bind_atomic fun _ =>
      Change.atomic_modify _

end Relation

namespace Catalog

variable {catalog next : Catalog} {name : Text} {relation : Relation}

theorem add_eq_ok_iff :
    (add relation).apply catalog = (.ok (), next) ↔
      catalog.find? relation.name = none ∧ next = catalog.put relation.name relation := by
  rw [apply_add]
  cases catalog.find? relation.name <;> simp [eq_comm]

theorem atomic_add (relation : Relation) : (add relation).Atomic := by
  refine Change.steady_get.bind_atomic fun catalog => ?_
  cases catalog.find? relation.name with
  | some found => exact (Change.steady_throw _).atomic
  | none => exact Change.atomic_modify _

theorem drop_eq_ok_iff :
    (drop name).apply catalog = (.ok relation, next) ↔
      catalog.find? name = some relation ∧ next = catalog.without name := by
  rw [apply_drop, Prod.mk.injEq, get_eq_ok_iff, eq_comm (b := next)]

/-- Taking out a table that is not there leaves all tables. -/
theorem atomic_drop (name : Text) : (drop name).Atomic := by
  intro catalog e he
  rw [apply_drop] at he ⊢
  apply without_of_find?_eq_none
  unfold get at he
  cases hfound : catalog.find? name with
  | none => rfl
  | some relation => rw [hfound] at he; cases he

theorem within_eq_ok_iff {change : Change Relation α} {a : α} :
    (within name change).apply catalog = (.ok a, next) ↔ ∃ relation changed,
      catalog.find? name = some relation ∧ change.apply relation = (.ok a, changed) ∧
        next = catalog.put name changed := by
  rw [apply_within, get]
  cases catalog.find? name with
  | none => simp
  | some relation => simp [Prod.ext_iff, eq_comm]

theorem atomic_within (name : Text) {change : Change Relation α} (h : change.Atomic) :
    (within name change).Atomic := by
  intro catalog e he
  rw [apply_within] at he ⊢
  cases hget : catalog.get name with
  | error e' => rfl
  | ok relation =>
      rw [hget] at he
      have hkept : (change.apply relation).2 = relation := h relation e he
      change catalog.put name (change.apply relation).2 = catalog
      rw [hkept, put_of_find? (get_eq_ok_iff.1 hget)]

theorem atomic_insert (name : Text) (literals : List Text) : (insert name literals).Atomic :=
  atomic_within name (Relation.atomic_appendRow literals)

theorem replace_eq_ok_iff {read : Except Error Relation} :
    (replace name read).apply catalog = (.ok (), next) ↔
      ∃ relation, read = .ok relation ∧ next = catalog.put name relation := by
  rw [apply_replace]
  cases read <;> simp [eq_comm]

theorem atomic_replace (name : Text) (read : Except Error Relation) :
    (replace name read).Atomic :=
  (Change.steady_lift read).bind_atomic fun _ => Change.atomic_modify _

theorem createFrom_eq_ok_iff {select : Select} :
    (createFrom name select).apply catalog = (.ok (), next) ↔ ∃ relation,
      catalog.select select = .ok relation ∧ catalog.find? name = none ∧
        next = catalog.put name { relation with name } := by
  rw [apply_createFrom]
  cases catalog.select select with
  | error e => simp
  | ok relation => simp [add_eq_ok_iff]

theorem atomic_createFrom (name : Text) (select : Select) : (createFrom name select).Atomic :=
  Change.steady_get.bind_atomic fun catalog =>
    (Change.steady_lift (catalog.select select)).bind_atomic fun relation =>
      atomic_add { relation with name }

end Catalog

namespace World

def withTable (w : World) (name : Text) (relation : Relation) : World :=
  { w with database := { w.database with catalog := w.database.catalog.put name relation } }

def withoutTable (w : World) (name : Text) : World :=
  { w with database := { w.database with catalog := w.database.catalog.without name } }

def table? (w : World) (name : Text) : Option Relation :=
  w.database.catalog.find? name

/-- Whether the file of a table can be written, and the files that are left. -/
def stored (w : World) (relation : Relation) : Bool × FileTree :=
  w.files.write (w.database.settings.path relation.name) (Text.encode relation.write)

/-- What a statement that succeeds shows, and the world that it leaves. -/
inductive Effect (w : World) : Statement → Output → World → Prop
  | createTable {name : Text} {columns : List Column} (free : w.table? name = none) :
      Effect w (.createTable name columns) .nothing (w.withTable name ⟨name, columns, []⟩)
  | createFrom {name : Text} {select : Select} {relation : Relation}
      (selected : w.database.catalog.select select = .ok relation) (free : w.table? name = none) :
      Effect w (.createFrom name select) .nothing (w.withTable name { relation with name })
  | load {name : Text} {relation : Relation}
      (read : Relation.ofFile (w.database.settings.fileName name) name
        (w.files.read (w.database.settings.path name)) = .ok relation) :
      Effect w (.load name) .nothing (w.withTable name relation)
  | store {name : Text} {relation : Relation} {files : FileTree}
      (found : w.table? name = some relation)
      (written : w.stored relation = (true, files)) :
      Effect w (.store name) .nothing { w with files }
  | drop {name : Text} {relation : Relation} (found : w.table? name = some relation) :
      Effect w (.drop name) .nothing (w.withoutTable name)
  | insert {name : Text} {literals : List Text} {relation extended : Relation}
      (found : w.table? name = some relation)
      (appended : (Relation.appendRow literals).apply relation = (.ok (), extended)) :
      Effect w (.insert name literals) .nothing (w.withTable name extended)
  | print {name : Text} {relation : Relation} (found : w.table? name = some relation) :
      Effect w (.print name) (.table relation) w
  | select {select : Select} {relation : Relation}
      (selected : w.database.catalog.select select = .ok relation) :
      Effect w (.select select) (.table relation) w

/-! ## Changes of the tables -/

def change (w : World) (change : Change Catalog Output) : Except Error Output × World :=
  w.answer (.done (w.database.answer change))

variable {w next : World} {statement : Statement} {output : Output}

theorem change_eq {change : Change Catalog Output} {result : Except Error Output}
    {catalog : Catalog} (h : change.apply w.database.catalog = (result, catalog)) :
    w.change change = (result, { w with database := { w.database with catalog } }) := by
  rw [World.change, Database.answer, h]
  rfl

theorem change_fst (w : World) (change : Change Catalog Output) :
    (w.change change).1 = (change.apply w.database.catalog).1 := rfl

theorem change_catalog (w : World) (change : Change Catalog Output) :
    (w.change change).2.database.catalog = (change.apply w.database.catalog).2 := rfl

theorem change_silently {change : Change Catalog α} {a : α} {catalog : Catalog}
    (h : change.apply w.database.catalog = (.ok a, catalog)) :
    w.change change.silently =
      (.ok .nothing, { w with database := { w.database with catalog } }) := by
  apply change_eq
  rw [Change.apply_silently, h]
  rfl

theorem change_showing (w : World) (read : Catalog → Except Error Relation) :
    w.change (Catalog.showing read) = ((read w.database.catalog).map .table, w) :=
  change_eq (Catalog.apply_showing read w.database.catalog)

theorem change_silently_error {change : Change Catalog α} (h : change.Atomic) {e : Error}
    (he : (change.apply w.database.catalog).1 = .error e) :
    w.change change.silently = (.error e, w) := by
  apply change_eq
  rw [Change.apply_silently, he, h w.database.catalog e he]
  rfl

theorem change_silently_cases (w : World) {change : Change Catalog α} (h : change.Atomic) :
    (∃ e, w.change change.silently = (.error e, w)) ∨
      ∃ a catalog, change.apply w.database.catalog = (.ok a, catalog) := by
  cases hresult : (change.apply w.database.catalog).1 with
  | ok a => exact .inr ⟨a, _, Prod.ext hresult rfl⟩
  | error e => exact .inl ⟨e, change_silently_error h hresult⟩

theorem perform_load (w : World) (name : Text) :
    w.perform (.load name) = w.change (Catalog.replace name
      (Relation.ofFile (w.database.settings.fileName name) name
        (w.files.read (w.database.settings.path name)))).silently := rfl

theorem perform_store {name : Text} {relation : Relation}
    (hfound : w.table? name = some relation) :
    w.perform (.store name) =
      (if (w.stored relation).1 then .ok .nothing else .error (.cannotWrite relation.name),
        { w with files := (w.stored relation).2 }) := by
  rw [perform, Database.perform, Database.store, Catalog.get_eq_ok_iff.2 hfound, stored]
  simp only [Relation.store, answer, FileRequest.map, FileRequest.answer]
  split <;> rfl

/-! ## Statements -/

theorem Effect.perform_eq (h : Effect w statement output next) :
    w.perform statement = (.ok output, next) := by
  cases h with
  | createTable free => exact change_silently (Catalog.add_eq_ok_iff.2 ⟨free, rfl⟩)
  | createFrom selected free =>
      exact change_silently (Catalog.createFrom_eq_ok_iff.2 ⟨_, selected, free, rfl⟩)
  | load read => exact change_silently (Catalog.replace_eq_ok_iff.2 ⟨_, read, rfl⟩)
  | drop found => exact change_silently (Catalog.drop_eq_ok_iff.2 ⟨found, rfl⟩)
  | insert found appended =>
      exact change_silently (Catalog.within_eq_ok_iff.2 ⟨_, _, found, appended, rfl⟩)
  | print found =>
      refine (change_showing w _).trans ?_
      rw [Catalog.get_eq_ok_iff.2 found]
      rfl
  | select selected =>
      refine (change_showing w _).trans ?_
      rw [selected]
      rfl
  | store found written =>
      rw [perform_store found, written]
      rfl

theorem perform_store_cases (w : World) (name : Text) :
    (∃ e, w.perform (.store name) = (.error e, w)) ∨
      ∃ output next, Effect w (.store name) output next := by
  cases hfound : w.table? name with
  | none =>
      left
      refine ⟨.unknownTable name, ?_⟩
      rw [table?] at hfound
      rw [perform, Database.perform, Database.store, Catalog.get, hfound]
      rfl
  | some relation =>
      cases hwritten : (w.stored relation).1 with
      | true => exact .inr ⟨_, _, .store hfound (Prod.ext hwritten rfl)⟩
      | false =>
          left
          have hkept : (w.stored relation).2 = w.files := FileTree.laws.failed _ _ _ hwritten
          refine ⟨.cannotWrite relation.name, ?_⟩
          rw [perform_store hfound, hwritten, hkept]
          rfl

theorem perform_showing_cases (w : World) (read : Catalog → Except Error Relation) :
    (∃ e, w.change (Catalog.showing read) = (.error e, w)) ∨
      ∃ relation, read w.database.catalog = .ok relation := by
  rw [change_showing]
  cases read w.database.catalog with
  | error e => exact .inl ⟨e, rfl⟩
  | ok relation => exact .inr ⟨relation, rfl⟩

/-- A statement that succeeds has an effect, and one that fails leaves the world as it was. -/
theorem perform_spec (w : World) (statement : Statement) :
    (∃ e, w.perform statement = (.error e, w)) ∨
      ∃ output next, Effect w statement output next := by
  cases statement with
  | createTable name columns =>
      refine (change_silently_cases w (Catalog.atomic_add ⟨name, columns, []⟩)).imp_right ?_
      rintro ⟨_, _, h⟩
      exact ⟨_, _, .createTable (Catalog.add_eq_ok_iff.1 h).1⟩
  | createFrom name select =>
      refine (change_silently_cases w (Catalog.atomic_createFrom name select)).imp_right ?_
      rintro ⟨_, _, h⟩
      obtain ⟨relation, hselected, hfree, -⟩ := Catalog.createFrom_eq_ok_iff.1 h
      exact ⟨_, _, .createFrom hselected hfree⟩
  | load name =>
      refine (change_silently_cases w (Catalog.atomic_replace name _)).imp_right ?_
      rintro ⟨_, _, h⟩
      obtain ⟨relation, hread, -⟩ := Catalog.replace_eq_ok_iff.1 h
      exact ⟨_, _, .load hread⟩
  | store name => exact perform_store_cases w name
  | drop name =>
      refine (change_silently_cases w (Catalog.atomic_drop name)).imp_right ?_
      rintro ⟨relation, _, h⟩
      exact ⟨_, _, .drop (Catalog.drop_eq_ok_iff.1 h).1⟩
  | insert name literals =>
      refine (change_silently_cases w (Catalog.atomic_insert name literals)).imp_right ?_
      rintro ⟨_, _, h⟩
      obtain ⟨relation, extended, hfound, happended, -⟩ := Catalog.within_eq_ok_iff.1 h
      exact ⟨_, _, .insert hfound happended⟩
  | print name =>
      refine (perform_showing_cases w fun catalog => catalog.get name).imp_right ?_
      rintro ⟨relation, h⟩
      exact ⟨_, _, .print (Catalog.get_eq_ok_iff.1 h)⟩
  | select select =>
      refine (perform_showing_cases w fun catalog => catalog.select select).imp_right ?_
      rintro ⟨relation, h⟩
      exact ⟨_, _, .select h⟩

theorem perform_eq_ok_iff {w next : World} {statement : Statement} {output : Output} :
    w.perform statement = (.ok output, next) ↔ Effect w statement output next := by
  refine ⟨fun h => ?_, Effect.perform_eq⟩
  rcases perform_spec w statement with ⟨e, he⟩ | ⟨output', next', heffect⟩
  · rw [he] at h
    cases h
  · have heq := heffect.perform_eq.symm.trans h
    cases heq
    exact heffect

theorem perform_error {w next : World} {statement : Statement} {e : Error}
    (h : w.perform statement = (.error e, next)) : next = w := by
  rcases perform_spec w statement with ⟨e', he⟩ | ⟨output, next', heffect⟩
  · rw [he] at h
    cases h
    rfl
  · rw [heffect.perform_eq] at h
    cases h

/-! ## Queries -/

theorem execute_of_read {w : World} {query : Text} {statement : Statement}
    (h : Statement.read query = .ok statement) : w.execute query = w.perform statement := by
  rw [execute, Database.execute, h]
  rfl

theorem execute_of_read_error {w : World} {query : Text} {e : Error}
    (h : Statement.read query = .error e) : w.execute query = (.error e, w) := by
  rw [execute, Database.execute, h]
  rfl

theorem execute_eq_ok_iff {w next : World} {query : Text} {output : Output} :
    w.execute query = (.ok output, next) ↔
      ∃ statement, Statement.read query = .ok statement ∧ Effect w statement output next := by
  cases h : Statement.read query with
  | error e =>
      rw [execute_of_read_error h]
      simp
  | ok statement => simp [execute_of_read h, perform_eq_ok_iff]

theorem execute_error {w next : World} {query : Text} {e : Error}
    (h : w.execute query = (.error e, next)) : next = w := by
  cases hread : Statement.read query with
  | error e' =>
      rw [execute_of_read_error hread] at h
      cases h
      rfl
  | ok statement =>
      rw [execute_of_read hread] at h
      exact perform_error h

end World

end Relata
