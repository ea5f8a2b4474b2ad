import Relata.Proofs.Query.Moved
import Relata.Proofs.World.Reload

/-!
# Tables from selects

A select can be asked by itself, or in a create that keeps its result. Both are read alike,
both fail alike, and the table that the create leaves is printed as the select is shown.
-/

namespace Relata

namespace Error

theorem head?_message (e : Error) : e.message.head? = some 'E' ∨ e.message.head? = some 'M' := by
  cases e with
  | malformed command text => exact .inr rfl
  | _ => exact .inl rfl

/-- No failure is told by the empty text, which a query that shows nothing answers. -/
theorem message_ne_nil (e : Error) : e.message ≠ [] := by
  intro h
  have hhead := e.head?_message
  rw [h] at hhead
  rcases hhead with h | h <;> cases h

end Error

namespace Statement

variable {query name : Text} {select : Select} {e : Error}

theorem read_createText_eq_ok_iff (hname : Scan.isWord name = true)
    (hquery : "select ".toList <+: query.collapse) :
    read (createText name query) = .ok (.createFrom name select) ↔
      read query = .ok (.select select) := by
  obtain ⟨t, ht⟩ := hquery
  rw [read_createText hname ht.symm, read_select ht.symm]
  cases Select.read t <;> simp [Except.mapError]

theorem read_createText_of_error (hname : Scan.isWord name = true)
    (hquery : "select ".toList <+: query.collapse) (h : read query = .error e) :
    read (createText name query) = .error (e.within name) := by
  obtain ⟨t, ht⟩ := hquery
  rw [read_select ht.symm] at h
  rw [read_createText hname ht.symm]
  cases hselect : Select.read t with
  | error e' =>
      rw [hselect] at h
      cases h
      rfl
  | ok select =>
      rw [hselect] at h
      cases h

theorem read_select_cases (hquery : "select ".toList <+: query.collapse) :
    (∃ e, read query = .error e) ∨ ∃ select, read query = .ok (.select select) := by
  obtain ⟨t, ht⟩ := hquery
  rw [read_select ht.symm]
  cases Select.read t with
  | error e => exact .inl ⟨e, rfl⟩
  | ok select => exact .inr ⟨select, rfl⟩

end Statement

namespace World

variable {w : World} {query name : Text} {select : Select} {e : Error}

theorem execute_select (h : Statement.read query = .ok (.select select)) :
    w.execute query =
      match w.database.catalog.select select with
      | .ok relation => (.ok (.table relation), w)
      | .error e => (.error e, w) := by
  rw [execute_of_read h]
  refine (change_showing w fun catalog => catalog.select select).trans ?_
  cases w.database.catalog.select select <;> rfl

theorem execute_createFrom (h : Statement.read query = .ok (.createFrom name select))
    (free : w.table? name = none) :
    w.execute query =
      match w.database.catalog.select select with
      | .ok relation => (.ok .nothing, w.withTable name { relation with name })
      | .error e => (.error e, w) := by
  rw [execute_of_read h]
  cases hselected : w.database.catalog.select select with
  | ok relation => exact (Effect.createFrom hselected free).perform_eq
  | error e =>
      refine change_silently_error (Catalog.atomic_createFrom name select) ?_
      rw [Catalog.apply_createFrom, hselected]

theorem transact_ne_nil_of_error {next : World} (h : w.execute query = (.error e, next)) :
    (w.transact query).1 ≠ [] := by
  rw [transact_eq, h]
  exact e.message_ne_nil

/--
Either the select is shown and the create keeps what it shows, or both fail, and with the
same error if the select was read.
-/
theorem execute_createText_cases (hname : Scan.isWord name = true)
    (hquery : "select ".toList <+: query.collapse) (free : w.table? name = none) :
    (∃ relation, w.execute query = (.ok (.table relation), w) ∧
      w.execute (Statement.createText name query) =
        (.ok .nothing, w.withTable name { relation with name })) ∨
    ∃ e e', w.execute query = (.error e, w) ∧
      w.execute (Statement.createText name query) = (.error e', w) ∧
        ∀ select, Statement.read query = .ok (.select select) → e' = e := by
  rcases Statement.read_select_cases hquery with ⟨e, hread⟩ | ⟨select, hread⟩
  · right
    refine ⟨e, e.within name, execute_of_read_error hread,
      execute_of_read_error (Statement.read_createText_of_error hname hquery hread), ?_⟩
    intro select hselect
    rw [hread] at hselect
    cases hselect
  · rw [execute_select hread,
      execute_createFrom ((Statement.read_createText_eq_ok_iff hname hquery).2 hread) free]
    cases w.database.catalog.select select with
    | ok relation => exact .inl ⟨relation, rfl, rfl⟩
    | error e => exact .inr ⟨e, e, rfl, rfl, fun _ _ => rfl⟩

/-- The two ways into a select agree, in what is read, in what is shown and in what fails. -/
theorem createText_agrees (hname : Scan.isWord name = true)
    (hquery : "select ".toList <+: query.collapse) :
    (∀ select, Statement.read (Statement.createText name query) = .ok (.createFrom name select) ↔
      Statement.read query = .ok (.select select)) ∧
    (∀ e, Statement.read query = .error e →
      Statement.read (Statement.createText name query) = .error (e.within name)) ∧
    ∀ w : World, w.table? name = none →
      let created := w.transact (Statement.createText name query)
      (created.1 = [] ↔ ∃ output, (w.execute query).1 = .ok output) ∧
      (created.1 = [] →
        (created.2.transact ("print ".toList ++ name)).1 = (w.transact query).1) ∧
      ∀ select e, Statement.read query = .ok (.select select) → (w.execute query).1 = .error e →
        w.execute (Statement.createText name query) = (.error e, w) := by
  refine ⟨fun select => Statement.read_createText_eq_ok_iff hname hquery,
    fun e => Statement.read_createText_of_error hname hquery, fun w free => ?_⟩
  intro created
  rcases execute_createText_cases hname hquery free with
    ⟨relation, hshown, hkept⟩ | ⟨e, e', hfailed, hcreate, hsame⟩
  · have hcreated : created = ([], w.withTable name { relation with name }) := by
      change w.transact _ = _
      rw [transact_eq, hkept]
      rfl
    have hprint := print_eq hname (table?_withTable_self w name { relation with name })
    refine ⟨⟨fun _ => ⟨_, congrArg Prod.fst hshown⟩, fun _ => congrArg Prod.fst hcreated⟩,
      fun _ => ?_, fun select e _ herror => ?_⟩
    · rw [hcreated, hprint, transact_eq, hshown]
      rfl
    · rw [hshown] at herror
      cases herror
  · have hne : created.1 ≠ [] := transact_ne_nil_of_error hcreate
    refine ⟨⟨fun h => absurd h hne, fun ⟨output, h⟩ => ?_⟩, fun h => absurd h hne,
      fun select e hread herror => ?_⟩
    · rw [hfailed] at h
      cases h
    · rw [hfailed] at herror
      cases herror
      rw [hcreate, hsame select hread]

def pickedRun : List Text :=
  ["create table t (a int)".toList, "insert into t values 1".toList,
    "insert into t values 2".toList]

theorem createText_agrees_pickedRun :
    let w := (start .default .empty).run pickedRun
    let query := "  select a from  t where a > 1".toList
    Scan.isWord ['u'] = true ∧ "select ".toList <+: Text.collapse query ∧ w.table? ['u'] = none ∧
      (w.transact (Statement.createText ['u'] query)).1 = [] ∧
        ((w.transact (Statement.createText ['u'] query)).2.transact "print u".toList).1 =
          (w.transact query).1 := by
  intro w query
  have hname : Scan.isWord ['u'] = true := by decide
  have hquery : "select ".toList <+: Text.collapse query := by decide +kernel
  have free : w.table? ['u'] = none := by decide +kernel
  obtain ⟨-, -, hagree⟩ := createText_agrees hname hquery
  obtain ⟨hempty, hprint, -⟩ := hagree w free
  have hshown : ∃ output, (w.execute query).1 = .ok output :=
    ⟨.table ⟨[], [⟨['a'], .int⟩], [[.int 2]]⟩, by decide +kernel⟩
  exact ⟨hname, hquery, free, hempty.2 hshown, hprint (hempty.2 hshown)⟩

end World

end Relata
