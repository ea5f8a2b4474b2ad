import Relata.Relation.Join
import Relata.Relation.Projection
import Relata.Relation.Selection

/-!
# The tables of a database

Tables are kept under their names, in the order of the names. Looking a table up sees the
last table put under its name and no other. The changes of a catalog are those of its tables:
one is added, taken out, or changed in its place.
-/

namespace Relata

/-- Tables by name. -/
structure Catalog where
  entries : List (Text × Relation)
  deriving DecidableEq

namespace Catalog

def empty : Catalog :=
  ⟨[]⟩

def find? (catalog : Catalog) (name : Text) : Option Relation :=
  (catalog.entries.find? fun entry => entry.1 = name).map Prod.snd

/-- The table under a name, which must exist. -/
def get (catalog : Catalog) (name : Text) : Except Error Relation :=
  match catalog.find? name with
  | some relation => .ok relation
  | none => .error (.unknownTable name)

/-- Puts a table in the place of the first one with its name. -/
def replaceEntry (name : Text) (relation : Relation) :
    List (Text × Relation) → List (Text × Relation)
  | [] => []
  | entry :: rest =>
      if entry.1 = name then (name, relation) :: rest
      else entry :: replaceEntry name relation rest

/-- Puts a table before the first one with a greater name. -/
def insertEntry (name : Text) (relation : Relation) :
    List (Text × Relation) → List (Text × Relation)
  | [] => [(name, relation)]
  | entry :: rest =>
      if Text.order name entry.1 = .lt then (name, relation) :: entry :: rest
      else entry :: insertEntry name relation rest

/-- Puts a table under a name, in lieu of one that stands there. -/
def put (catalog : Catalog) (name : Text) (relation : Relation) : Catalog :=
  match catalog.find? name with
  | some _ => ⟨replaceEntry name relation catalog.entries⟩
  | none => ⟨insertEntry name relation catalog.entries⟩

def without (catalog : Catalog) (name : Text) : Catalog :=
  ⟨catalog.entries.filter fun entry => entry.1 ≠ name⟩

/-! ## Changes -/

/-- Adds a table under its own name, which must be free. -/
def add (relation : Relation) : Change Catalog Unit := do
  match (← MonadState.get).find? relation.name with
  | some _ => throw (.tableExists relation.name)
  | none => modify fun catalog => catalog.put relation.name relation

theorem apply_add (catalog : Catalog) (relation : Relation) :
    (add relation).apply catalog =
      match catalog.find? relation.name with
      | some _ => (.error (.tableExists relation.name), catalog)
      | none => (.ok (), catalog.put relation.name relation) := by
  simp only [add, Change.apply_bind, Change.apply_get]
  cases catalog.find? relation.name <;> rfl

def create (name : Text) (columns : List Column) : Change Catalog Unit :=
  add ⟨name, columns, []⟩

/-- Takes the table of a name out; whether there was one counts only then. -/
def drop (name : Text) : Change Catalog Relation := do
  let found := (← MonadState.get).get name
  modify fun catalog => catalog.without name
  found

theorem apply_drop (catalog : Catalog) (name : Text) :
    (drop name).apply catalog = (catalog.get name, catalog.without name) := by
  simp only [drop, Change.apply_bind, Change.apply_get, Change.apply_modify, Change.apply_lift]

/-- Changes a table in its place, where what the change leaves stays, also if it fails. -/
def within (name : Text) (change : Change Relation α) : Change Catalog α := do
  let relation ← (← MonadState.get).get name
  let (result, changed) := change.apply relation
  modify fun catalog => catalog.put name changed
  result

theorem apply_within (catalog : Catalog) (name : Text) (change : Change Relation α) :
    (within name change).apply catalog =
      match catalog.get name with
      | .ok relation => ((change.apply relation).1, catalog.put name (change.apply relation).2)
      | .error e => (.error e, catalog) := by
  simp only [within, Change.apply_bind, Change.apply_get, Change.apply_lift, Change.apply_modify]
  cases catalog.get name <;> rfl

/-- Puts a table under a name once it has been read. -/
def replace (name : Text) (read : Except Error Relation) : Change Catalog Unit := do
  let relation ← read
  modify fun catalog => catalog.put name relation

theorem apply_replace (catalog : Catalog) (name : Text) (read : Except Error Relation) :
    (replace name read).apply catalog =
      match read with
      | .ok relation => (.ok (), catalog.put name relation)
      | .error e => (.error e, catalog) := by
  cases read <;> rfl

def insert (name : Text) (literals : List Text) : Change Catalog Unit :=
  within name (Relation.appendRow literals)

/-! ## Selects -/

/-- The tables with the given names; of several that are missing the last is reported. -/
def getAll (catalog : Catalog) (names : List Text) : Except Error (List Relation) :=
  List.reverse <$> names.reverse.mapM catalog.get

/-- The result of a select: joined, then projected, then reduced to some rows. -/
def select (catalog : Catalog) (select : Select) : Except Error Relation := do
  let relations ← catalog.getAll select.tables
  let joined ← Relation.joinAll relations
  let projected ← (joined.getD Relation.empty).project select.projection
  projected.select select.conditions

def createFrom (name : Text) (select : Select) : Change Catalog Unit := do
  let relation ← (← MonadState.get).select select
  add { relation with name }

theorem apply_createFrom (catalog : Catalog) (name : Text) (select : Select) :
    (createFrom name select).apply catalog =
      match catalog.select select with
      | .ok relation => (add { relation with name }).apply catalog
      | .error e => (.error e, catalog) := by
  simp only [createFrom, Change.apply_bind, Change.apply_get, Change.apply_lift]
  cases catalog.select select <;> rfl

end Catalog

end Relata
