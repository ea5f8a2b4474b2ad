import Relata.Catalog
import Relata.Query.Grammar
import Relata.Storage.TableFile

/-!
# Databases

A database holds tables and knows where their files are. A query succeeds or fails, and
leaves a database in either case.
-/

namespace Relata

/-- Tables, and where to load them from and store them. -/
structure Database where
  settings : FileSettings
  catalog : Catalog
  deriving DecidableEq

/-- What a query shows. -/
inductive Output where
  | nothing
  | table (relation : Relation)
  deriving DecidableEq

def Output.write : Output → Text
  | .nothing => []
  | .table relation => relation.write

/-- The text that answers a query: what it shows, or the message of its failure. -/
def Output.told : Except Error Output → Text
  | .ok output => output.write
  | .error e => e.message

/-- Shows nothing of what a change yields. -/
def Change.silently (change : Change σ α) : Change σ Output := do
  let _ ← change
  return .nothing

theorem Change.apply_silently (change : Change σ α) (state : σ) :
    change.silently.apply state =
      ((change.apply state).1.map fun _ => .nothing, (change.apply state).2) := by
  rw [silently, apply_bind]
  rcases change.apply state with ⟨result, after⟩
  cases result <;> rfl

/-- Shows a table that the catalog yields, and changes none. -/
def Catalog.showing (read : Catalog → Except Error Relation) : Change Catalog Output := do
  return .table (← read (← MonadState.get))

theorem Catalog.apply_showing (read : Catalog → Except Error Relation) (catalog : Catalog) :
    (showing read).apply catalog = ((read catalog).map .table, catalog) := by
  simp only [showing, Change.apply_bind, Change.apply_get, Change.apply_lift]
  cases read catalog <;> rfl

namespace Database

def empty (settings : FileSettings) : Database :=
  ⟨settings, Catalog.empty⟩

/-- Answers by a change of the tables. -/
def answer (db : Database) (change : Change Catalog Output) : Except Error Output × Database :=
  let (result, catalog) := change.apply db.catalog
  (result, { db with catalog })

/-- Puts the table of a file under its name, in lieu of one of that name. -/
def load (db : Database) (name : Text) : FileRequest (Except Error Output × Database) :=
  (Relation.load db.settings name).map fun read =>
    db.answer (Catalog.replace name read).silently

def store (db : Database) (name : Text) : FileRequest (Except Error Output × Database) :=
  match db.catalog.get name with
  | .error e => .done (.error e, db)
  | .ok relation =>
      (Relation.store db.settings relation).map fun written =>
        (written.map fun _ => .nothing, db)

def perform (db : Database) : Statement → FileRequest (Except Error Output × Database)
  | .createTable name columns => .done (db.answer (Catalog.create name columns).silently)
  | .createFrom name select => .done (db.answer (Catalog.createFrom name select).silently)
  | .load name => db.load name
  | .store name => db.store name
  | .drop name => .done (db.answer (Catalog.drop name).silently)
  | .insert table literals => .done (db.answer (Catalog.insert table literals).silently)
  | .print name => .done (db.answer (Catalog.showing fun catalog => catalog.get name))
  | .select select => .done (db.answer (Catalog.showing fun catalog => catalog.select select))

def execute (db : Database) (query : Text) : FileRequest (Except Error Output × Database) :=
  match Statement.read query with
  | .error e => .done (.error e, db)
  | .ok statement => db.perform statement

def transact (db : Database) (query : Text) : FileRequest (Text × Database) :=
  (db.execute query).map fun (result, next) => (Output.told result, next)

end Database

end Relata
