import Relata.Proofs.Query.Offsets
import Relata.Proofs.Relation.Positions
import Relata.Proofs.World.Typing

/-!
# No query goes out of range

In every state of a run every row fills its columns. So no query, whatever its text, cuts it
or takes a value of a row or a column at a position that does not exist, and no integers are
divided where they have no quotient.
-/

namespace Relata

namespace Catalog

variable {catalog : Catalog}

theorem inRange_get (catalog : Catalog) (name : Text) : InRange (catalog.get name) := by
  unfold get
  split <;> nofun

theorem inRange_add (catalog : Catalog) (relation : Relation) :
    InRange ((add relation).apply catalog).1 := by
  rw [apply_add]
  split <;> nofun

theorem inRange_drop (catalog : Catalog) (name : Text) : InRange ((drop name).apply catalog).1 := by
  rw [apply_drop]
  exact inRange_get catalog name

theorem inRange_replace (catalog : Catalog) (name : Text) {read : Except Error Relation}
    (h : InRange read) : InRange ((replace name read).apply catalog).1 := by
  rw [apply_replace]
  cases read with
  | error e => exact InRange.error h
  | ok relation => exact InRange.ok ()

theorem inRange_insert (catalog : Catalog) (name : Text) (literals : List Text) :
    InRange ((insert name literals).apply catalog).1 := by
  have hget := inRange_get catalog name
  rw [insert, apply_within]
  cases h : catalog.get name with
  | error e => exact InRange.error (h ▸ hget)
  | ok relation => exact relation.inRange_appendRow literals

section Shaped

variable (h : ∀ name relation, catalog.find? name = some relation → relation.Shaped)

include h

theorem exists_joinAll_of_getAll {names : List Text} {relations : List Relation}
    (hrelations : catalog.getAll names = .ok relations) :
    ∃ joined, Relation.joinAll relations = .ok joined := by
  apply Relation.exists_joinAll
  intro relation hrelation
  obtain ⟨name, -, hfound⟩ := find?_of_mem_getAll hrelations hrelation
  exact h name relation hfound

theorem inRange_select (select : Select) : InRange (catalog.select select) := by
  have hall : InRange (catalog.getAll select.tables) :=
    InRange.map _ (InRange.mapM fun name _ => inRange_get catalog name)
  refine hall.bind fun relations hrelations => ?_
  obtain ⟨joined, hjoined⟩ := exists_joinAll_of_getAll h hrelations
  rw [hjoined]
  refine (Relation.inRange_project (joined.getD Relation.empty) select.projection).bind ?_
  exact fun projected _ => projected.inRange_select select.conditions

theorem inRange_createFrom (name : Text) (select : Select) :
    InRange ((createFrom name select).apply catalog).1 := by
  have hselect := inRange_select h select
  rw [apply_createFrom]
  cases hselected : catalog.select select with
  | error e => exact InRange.error (hselected ▸ hselect)
  | ok relation => exact inRange_add catalog { relation with name }

end Shaped

end Catalog

namespace World

variable {w : World}

theorem inRange_silently {change : Change Catalog α}
    (h : InRange (change.apply w.database.catalog).1) : InRange (w.change change.silently).1 := by
  rw [change_fst, Change.apply_silently]
  exact h.map _

theorem inRange_showing {read : Catalog → Except Error Relation}
    (h : InRange (read w.database.catalog)) : InRange (w.change (Catalog.showing read)).1 := by
  rw [change_showing]
  exact h.map _

theorem inRange_store (w : World) (name : Text) : InRange (w.perform (.store name)).1 := by
  cases hfound : w.table? name with
  | none =>
      rw [table?] at hfound
      rw [perform, Database.perform, Database.store, Catalog.get, hfound]
      intro hrange
      cases hrange
  | some relation =>
      rw [perform_store hfound]
      split
      · exact InRange.ok Output.nothing
      · intro hrange
        cases hrange

theorem inRange_perform (hw : w.Shaped) (statement : Statement) :
    InRange (w.perform statement).1 := by
  cases statement with
  | createTable name columns => exact inRange_silently (Catalog.inRange_add _ _)
  | createFrom name select => exact inRange_silently (Catalog.inRange_createFrom hw name select)
  | load name =>
      exact inRange_silently (Catalog.inRange_replace _ _ (Relation.inRange_ofFile _ _ _))
  | store name => exact inRange_store w name
  | drop name => exact inRange_silently (Catalog.inRange_drop _ name)
  | insert name literals => exact inRange_silently (Catalog.inRange_insert _ _ _)
  | print name => exact inRange_showing (Catalog.inRange_get _ name)
  | select select => exact inRange_showing (Catalog.inRange_select hw select)

theorem inRange_execute (hw : w.Shaped) (query : Text) : InRange (w.execute query).1 := by
  cases h : Statement.read query with
  | error e =>
      have hread := Statement.inRange_read query
      rw [h] at hread
      rw [execute, Database.execute, h]
      exact InRange.error hread
  | ok statement =>
      rw [execute_of_read h]
      exact inRange_perform hw statement

/--
In no state of a run does a query fail with a position out of range: it can be scanned by
cuts, and cut at its tokens; the tables that there are can be joined, and integers are divided
only where they have a quotient.
-/
theorem run_execute_inRange (settings : FileSettings) (files : FileTree) (queries : List Text)
    (query : Text) :
    let w := (start settings files).run queries
    InRange (w.execute query).1 ∧
      Scan.read query.collapse = .ok (Scan.ofText query.collapse) ∧
      (Scan.ofText query.collapse).Sliceable query.collapse ∧
      (∀ names relations, w.database.catalog.getAll names = .ok relations →
        ∃ joined, Relation.joinAll relations = .ok joined) ∧
      ∀ a b : Int64,
        ((b = 0 ∨ a = Int64.minValue ∧ b = -1) ∧
            Value.arithmetic (.int a) .divide (.int b) = .ok .nan) ∨
          (b ≠ 0 ∧ ∃ q : Int64, Value.arithmetic (.int a) .divide (.int b) = .ok (.int q) ∧
            q.toInt = a.toInt.tdiv b.toInt) := by
  intro w
  have hshaped : w.Shaped := shaped_run settings files queries
  refine ⟨inRange_execute hshaped query, Scan.read_eq query.collapse,
    Scan.sliceable_ofText query.collapse, ?_, Value.divide_int⟩
  intro names relations hrelations
  exact Catalog.exists_joinAll_of_getAll hshaped hrelations

end World

end Relata
