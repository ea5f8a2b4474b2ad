import Relata.Proofs.Relation.Cells
import Relata.Proofs.World.Effect

/-!
# Properties of all tables

A select joins tables of the catalog, so what holds of the cells or of the columns of all
tables holds in the join. A change of one table keeps what holds of all tables, if the new
table has it.
-/

namespace Relata

namespace Catalog

def joined (catalog : Catalog) (names : List Text) : Except Error Relation := do
  let relations ← catalog.getAll names
  let joined ← Relation.joinAll relations
  return joined.getD Relation.empty

theorem select_eq (catalog : Catalog) (query : Select) :
    catalog.select query = (do
      let source ← catalog.joined query.tables
      let projected ← source.project query.projection
      projected.select query.conditions) := by
  unfold select joined
  cases catalog.getAll query.tables with
  | error e => rfl
  | ok relations =>
      simp only [bind, Except.bind]
      cases Relation.joinAll relations <;> rfl

theorem select_eq_ok {catalog : Catalog} {query : Select} {relation : Relation} :
    catalog.select query = .ok relation ↔ ∃ source projected,
      catalog.joined query.tables = .ok source ∧
        source.project query.projection = .ok projected ∧
          projected.select query.conditions = .ok relation := by
  rw [select_eq]
  simp only [Outcome.bind_eq_ok]
  constructor
  · rintro ⟨source, hsource, projected, hprojected, hselected⟩
    exact ⟨source, projected, hsource, hprojected, hselected⟩
  · rintro ⟨source, projected, hsource, hprojected, hselected⟩
    exact ⟨source, hsource, projected, hprojected, hselected⟩

variable {catalog : Catalog} {names : List Text}

theorem getAll_eq_ok {relations : List Relation} :
    catalog.getAll names = .ok relations ↔
      List.Forall₂ (fun name relation => catalog.find? name = some relation) names relations := by
  have hreverse : names.reverse.mapM catalog.get = .ok relations.reverse ↔
      List.Forall₂ (fun name relation => catalog.find? name = some relation)
        names.reverse relations.reverse := by
    simp only [Outcome.mapM_eq_ok, get_eq_ok_iff]
  rw [← List.forall₂_reverse_iff, ← hreverse, getAll, Outcome.map_eq_ok]
  constructor
  · rintro ⟨reversed, h, rfl⟩
    rw [h, List.reverse_reverse]
  · intro h
    exact ⟨relations.reverse, h, List.reverse_reverse relations⟩

theorem find?_of_mem_getAll {relations : List Relation} (h : catalog.getAll names = .ok relations)
    {relation : Relation} (hrelation : relation ∈ relations) :
    ∃ name ∈ names, catalog.find? name = some relation := by
  have hfound := getAll_eq_ok.1 h
  clear h
  induction hfound with
  | nil => cases hrelation
  | @cons name first names rest hfirst _ ih =>
      rcases List.mem_cons.1 hrelation with rfl | hrelation
      · exact ⟨name, List.mem_cons_self, hfirst⟩
      · obtain ⟨other, hother, hfound⟩ := ih hrelation
        exact ⟨other, List.mem_cons_of_mem name hother, hfound⟩

theorem joined_cases {source : Relation} (h : catalog.joined names = .ok source) :
    names = [] ∧ source = Relation.empty ∨ ∃ relations,
      catalog.getAll names = .ok relations ∧ Relation.joinAll relations = .ok (some source) := by
  obtain ⟨relations, hrelations, h⟩ := Outcome.bind_eq_ok.1 h
  obtain ⟨joined, hjoined, h⟩ := Outcome.bind_eq_ok.1 h
  cases h
  cases relations with
  | nil =>
      left
      cases hjoined
      exact ⟨List.forall₂_nil_right_iff.1 (getAll_eq_ok.1 hrelations), rfl⟩
  | cons first rest =>
      right
      obtain ⟨last, hlast, rfl⟩ := Outcome.map_eq_ok.1 hjoined
      exact ⟨first :: rest, hrelations, Outcome.map_eq_ok.2 ⟨last, hlast, rfl⟩⟩

theorem each_joined {P : Column → Value → Prop} {source : Relation}
    (hall : ∀ name relation, catalog.find? name = some relation → relation.Each P)
    (h : catalog.joined names = .ok source) : source.Each P := by
  obtain ⟨-, rfl⟩ | ⟨relations, hrelations, hjoined⟩ := joined_cases h
  · intro row hrow
    cases hrow
  · refine Relation.Each.joinAll (fun relation hrelation => ?_) hjoined
    obtain ⟨name, -, hfound⟩ := find?_of_mem_getAll hrelations hrelation
    exact hall name relation hfound

theorem mem_columns_joined {source : Relation} (h : catalog.joined names = .ok source)
    {column : Column} (hcolumn : column ∈ source.columns) :
    ∃ name ∈ names, ∃ relation, catalog.find? name = some relation ∧ column ∈ relation.columns := by
  obtain ⟨-, rfl⟩ | ⟨relations, hrelations, hjoined⟩ := joined_cases h
  · cases hcolumn
  · obtain ⟨relation, hrelation, hmem⟩ := Relation.mem_columns_joinAll hjoined hcolumn
    obtain ⟨name, hname, hfound⟩ := find?_of_mem_getAll hrelations hrelation
    exact ⟨name, hname, relation, hfound, hmem⟩

end Catalog

namespace World

/-- A property of every table and its name. -/
def Tables (P : Text → Relation → Prop) (w : World) : Prop :=
  ∀ name relation, w.table? name = some relation → P name relation

variable {P : Text → Relation → Prop} {w next : World}

theorem tables_start (settings : FileSettings) (files : FileTree) :
    (start settings files).Tables P := by
  intro name relation h
  cases h

theorem Tables.withTable (h : w.Tables P) {name : Text} {relation : Relation}
    (hrelation : P name relation) : (w.withTable name relation).Tables P := by
  intro other table htable
  rw [table?, World.withTable, Catalog.find?_put] at htable
  by_cases hother : other = name
  · rw [if_pos hother, Option.some.injEq] at htable
    rw [hother, ← htable]
    exact hrelation
  · rw [if_neg hother] at htable
    exact h other table htable

theorem table?_withTable_self (w : World) (name : Text) (relation : Relation) :
    (w.withTable name relation).table? name = some relation :=
  Catalog.find?_put_self w.database.catalog name relation

theorem Tables.withoutTable (h : w.Tables P) (name : Text) : (w.withoutTable name).Tables P := by
  intro other table htable
  rw [table?, World.withoutTable, Catalog.find?_without] at htable
  by_cases hother : other = name
  · rw [if_pos hother] at htable
    cases htable
  · rw [if_neg hother] at htable
    exact h other table htable

/-- A query leaves the world as it is, or has the effect of the statement that it reads as. -/
theorem execute_cases (w : World) (query : Text) :
    (w.execute query).2 = w ∨ ∃ statement output, Statement.read query = .ok statement ∧
      Effect w statement output (w.execute query).2 := by
  cases h : (w.execute query).1 with
  | error e => exact .inl (execute_error (Prod.ext h rfl))
  | ok output =>
      obtain ⟨statement, hread, heffect⟩ := execute_eq_ok_iff.1 (Prod.ext h rfl)
      exact .inr ⟨statement, output, hread, heffect⟩

theorem transact_snd (w : World) (query : Text) : (w.transact query).2 = (w.execute query).2 := by
  rw [transact_eq]

theorem run_concat (w : World) (queries : List Text) (query : Text) :
    w.run (queries ++ [query]) = ((w.run queries).execute query).2 := by
  rw [run_append, ← transact_snd]
  rfl

theorem run_induction_of_mem {I : World → Prop} (hstart : I w) (queries : List Text)
    (hstep : ∀ w, ∀ query ∈ queries, I w → I (w.execute query).2) : I (w.run queries) := by
  induction queries using List.reverseRecOn with
  | nil => exact hstart
  | append_singleton queries query ih =>
      rw [run_concat]
      have hbefore := ih fun w other hother => hstep w other (List.mem_append_left [query] hother)
      exact hstep _ query (List.mem_append_right queries List.mem_cons_self) hbefore

/-- What every query keeps, a run keeps. -/
theorem run_induction {I : World → Prop} (hstart : I w)
    (hstep : ∀ w query, I w → I (w.execute query).2) (queries : List Text) : I (w.run queries) :=
  run_induction_of_mem hstart queries fun w query _ => hstep w query

/-- All states of a run have a property exactly if every query of it meets what keeps it. -/
theorem run_prefixes_iff {I : World → Prop} {Q : World → Text → Prop} (hstart : I w)
    (queries : List Text)
    (hstep : ∀ before query, I (w.run before) →
      (I ((w.run before).execute query).2 ↔ Q (w.run before) query)) :
    (∀ before, before <+: queries → I (w.run before)) ↔
      ∀ before query, before ++ [query] <+: queries → Q (w.run before) query := by
  constructor
  · intro h before query hbefore
    have hkept := h before ((List.prefix_append before [query]).trans hbefore)
    rw [← hstep before query hkept, ← run_concat]
    exact h (before ++ [query]) hbefore
  · intro h before
    induction before using List.reverseRecOn with
    | nil => exact fun _ => hstart
    | append_singleton before query ih =>
        intro hbefore
        have hkept := ih ((List.prefix_append before [query]).trans hbefore)
        rw [run_concat, hstep before query hkept]
        exact h before query hbefore

end World

end Relata
