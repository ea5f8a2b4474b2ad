import Relata.Proofs.Query.Forms
import Relata.Proofs.Storage.Tree
import Relata.Proofs.World.Sound

/-!
# Storing a table and loading it again

A table without a column of floats that has been stored can be loaded, and is shown as
before, exactly if each of its column names is one word and each of its cells fits its
column. An alias of several words breaks the first, a computed column of two types the
second.
-/

namespace Relata

namespace World

variable {w next : World} {name : Text} {table : Relation}

theorem Sound.of_store (hw : w.Sound) (hfound : w.table? name = some table)
    (hstored : (w.execute ("store ".toList ++ name)).1 = .ok .nothing) :
    (w.execute ("store ".toList ++ name)).2.database = w.database ∧
      (w.execute ("store ".toList ++ name)).2.files.read (w.database.settings.path name) =
        some (Text.encode table.write) := by
  have hexecute : w.execute ("store ".toList ++ name) =
      (.ok .nothing, (w.execute ("store ".toList ++ name)).2) := Prod.ext hstored rfl
  obtain ⟨statement, hread, heffect⟩ := execute_eq_ok_iff.1 hexecute
  rw [Statement.read_store (hw name table hfound).word, Except.ok.injEq] at hread
  subst hread
  obtain ⟨after, hafter⟩ : ∃ after, (w.execute ("store ".toList ++ name)).2 = after := ⟨_, rfl⟩
  rw [hafter] at heffect ⊢
  cases heffect with
  | @store _ relation files found written =>
      cases hfound.symm.trans found
      rw [stored, (hw name table hfound).named] at written
      exact ⟨rfl, FileTree.read_write written⟩

theorem load_eq_ok_iff (hword : Scan.isWord name = true) :
    w.execute ("load ".toList ++ name) = (.ok .nothing, next) ↔ ∃ read,
      Relation.ofFile (w.database.settings.fileName name) name
        (w.files.read (w.database.settings.path name)) = .ok read ∧
          next = w.withTable name read := by
  rw [execute_of_read (Statement.read_load hword), perform_eq_ok_iff]
  constructor
  · intro heffect
    cases heffect with
    | @load _ read hread => exact ⟨read, hread, rfl⟩
  · rintro ⟨read, hread, rfl⟩
    exact .load hread

theorem print_eq (hword : Scan.isWord name = true) (hfound : w.table? name = some table) :
    (w.transact ("print ".toList ++ name)).1 = table.write := by
  rw [transact_eq, execute_of_read (Statement.read_print hword),
    (Effect.print hfound).perform_eq]
  rfl

/-- A stored table is loaded and shown as before exactly if it reloads. -/
theorem store_load_print_iff (settings : FileSettings) (files : FileTree) (queries : List Text)
    (name : Text) (table : Relation)
    (hfound : ((start settings files).run queries).table? name = some table)
    (hfloat : ∀ column ∈ table.columns, column.type ≠ .float)
    (hstored : (((start settings files).run queries).execute ("store ".toList ++ name)).1 =
      .ok .nothing) :
    let before := (start settings files).run queries
    let stored := (before.execute ("store ".toList ++ name)).2
    let loaded := stored.execute ("load ".toList ++ name)
    (loaded.1 = .ok .nothing ∧
        (loaded.2.transact ("print ".toList ++ name)).1 =
          (before.transact ("print ".toList ++ name)).1) ↔ table.Reloads := by
  intro before stored loaded
  have hsound : before.Sound := sound_run settings files queries
  obtain ⟨hnamed, hword, hwritable⟩ := hsound name table hfound
  have hfile : stored.database = before.database ∧
      stored.files.read (before.database.settings.path name) = some (Text.encode table.write) :=
    hsound.of_store hfound hstored
  have hbefore : (before.transact ("print ".toList ++ name)).1 = table.write :=
    print_eq hword hfound
  have hprint (read : Relation) :
      ((stored.withTable name read).transact ("print ".toList ++ name)).1 = read.write :=
    print_eq hword (table?_withTable_self stored name read)
  -- the file holds the text of the table, so the load depends on that text alone
  have hload (next : World) : loaded = (.ok .nothing, next) ↔ ∃ read,
      Relation.ofFile (before.database.settings.fileName name) name
        (some (Text.encode table.write)) = .ok read ∧ next = stored.withTable name read := by
    change stored.execute ("load ".toList ++ name) = (.ok .nothing, next) ↔ _
    rw [load_eq_ok_iff hword, hfile.1, hfile.2]
  rw [hbefore]
  constructor
  · rintro ⟨hok, hsame⟩
    obtain ⟨read, hread, hnext⟩ := (hload loaded.2).1 (Prod.ext hok rfl)
    rw [hnext, hprint] at hsame
    exact Relation.reloads_of_ofFile_write hwritable hfloat hread hsame
  · intro hreloads
    have hread := hreloads.ofFile_write hwritable hfloat
      (before.database.settings.fileName name) name
    have hloaded := (hload _).2 ⟨_, hread, rfl⟩
    rw [hloaded]
    exact ⟨rfl, (hprint _).trans (Relation.write_map_reread table name)⟩

def missingRun : List Text :=
  ["create table t (a string, b int)".toList, "insert into t values 'x y', NOVALUE".toList]

theorem store_load_print_iff_missingRun :
    let before := (start .default .empty).run missingRun
    let table : Relation :=
      ⟨['t'], [⟨['a'], .string⟩, ⟨['b'], .int⟩], [[.text "x y".toList, .noValue]]⟩
    before.table? ['t'] = some table ∧ (∀ column ∈ table.columns, column.type ≠ .float) ∧
      (before.execute "store t".toList).1 = .ok .nothing ∧
        let loaded := (before.execute "store t".toList).2.execute "load t".toList
        loaded.1 = .ok .nothing ∧
          (loaded.2.transact "print t".toList).1 = (before.transact "print t".toList).1 := by
  intro before table
  have hfound : before.table? ['t'] = some table := by decide +kernel
  have hfloat : ∀ column ∈ table.columns, column.type ≠ .float := by decide
  have hstored : (before.execute "store t".toList).1 = .ok .nothing := by decide +kernel
  have hreloads : table.Reloads := by
    refine ⟨by decide, fun row hrow => ?_⟩
    cases List.mem_singleton.1 hrow
    exact .cons (.inl rfl) (.cons (.inl rfl) .nil)
  exact ⟨hfound, hfloat, hstored,
    (store_load_print_iff .default .empty missingRun ['t'] table hfound hfloat hstored).2 hreloads⟩

def unreadableRun : List Text :=
  ["create table t (a string, b int)".toList, "insert into t values 'x', NOVALUE".toList,
    "insert into t values NOVALUE, 5".toList,
    "create table mixed as select a + b as c from t".toList,
    "create table total as select b + b as grand total from t".toList]

/-- Neither table has a column of floats, both are stored, and neither can be loaded. -/
theorem load_error_unreadableRun :
    let before := (start .default .empty).run unreadableRun
    ((before.table? "total".toList).map Relation.columns = some [⟨"grand total".toList, .int⟩] ∧
      (before.execute "store total".toList).1 = .ok .nothing ∧
        ((before.execute "store total".toList).2.execute "load total".toList).1 =
          .error .malformedColumn) ∧
    ((before.table? "mixed".toList).map Relation.columns = some [⟨['c'], .int⟩] ∧
      (before.execute "store mixed".toList).1 = .ok .nothing ∧
        ((before.execute "store mixed".toList).2.execute "load mixed".toList).1 =
          .error (.wrongType "'x'".toList .int)) := by
  decide +kernel

end World

end Relata
