import Mathlib.Data.List.Sort
import Relata.Proofs.Text.Order
import Relata.Proofs.World.Sound

/-!
# The entries of a catalog

Entries stand in the order of their names, so each name has one entry and a lookup finds
it. In every state of a run each entry stands under the name of its table, which has columns
and fills them in every row.
-/

namespace Relata

namespace Catalog

/-- Entries in the strict order of their names. -/
def Ordered (catalog : Catalog) : Prop :=
  catalog.entries.Pairwise fun first second => first.1 < second.1

variable {catalog : Catalog} {name : Text} {relation : Relation}

theorem names_replaceEntry (name : Text) (relation : Relation) (entries : List (Text × Relation)) :
    (replaceEntry name relation entries).map Prod.fst = entries.map Prod.fst := by
  induction entries with
  | nil => rfl
  | cons entry entries ih => by_cases h : entry.1 = name <;> simp [replaceEntry, h, ih]

theorem ordered_iff : catalog.Ordered ↔ (catalog.entries.map Prod.fst).Pairwise (· < ·) :=
  List.pairwise_map.symm

theorem mem_insertEntry {entries : List (Text × Relation)} {entry : Text × Relation}
    (h : entry ∈ insertEntry name relation entries) :
    entry = (name, relation) ∨ entry ∈ entries := by
  induction entries with
  | nil => exact .inl (List.mem_singleton.1 h)
  | cons first rest ih =>
      rw [insertEntry] at h
      split at h
      · exact List.mem_cons.1 h
      · rcases List.mem_cons.1 h with rfl | h
        · exact .inr List.mem_cons_self
        · exact (ih h).imp_right (List.mem_cons_of_mem first)

theorem Ordered.insertEntry {entries : List (Text × Relation)} (h : Ordered ⟨entries⟩)
    (hfree : find? ⟨entries⟩ name = none) (relation : Relation) :
    Ordered ⟨insertEntry name relation entries⟩ := by
  induction entries with
  | nil => exact List.pairwise_singleton _ _
  | cons first rest ih =>
      obtain ⟨hfirst, hrest⟩ := List.pairwise_cons.1 h
      have hne : first.1 ≠ name := by
        intro hname
        simp [find?_cons, hname] at hfree
      rw [find?_cons, if_neg hne] at hfree
      rw [Catalog.insertEntry]
      split
      · rename_i horder
        -- what comes first in the order comes before all that follows the first entry
        have hlt : name < first.1 := Text.order_lt_iff.1 horder
        refine List.pairwise_cons.2 ⟨fun entry hentry => ?_, h⟩
        rcases List.mem_cons.1 hentry with rfl | hentry
        · exact hlt
        · exact List.lt_trans hlt (hfirst entry hentry)
      · rename_i horder
        refine List.pairwise_cons.2 ⟨fun entry hentry => ?_, ih hrest hfree⟩
        rcases mem_insertEntry hentry with rfl | hentry
        · cases hgt : Text.order name first.1 with
          | lt => exact absurd hgt horder
          | eq => exact absurd (Text.order_eq_iff.1 hgt).symm hne
          | gt => exact Text.order_gt_iff.1 hgt
        · exact hfirst entry hentry

theorem Ordered.put (h : catalog.Ordered) (name : Text) (relation : Relation) :
    (catalog.put name relation).Ordered := by
  unfold Catalog.put
  cases hfound : catalog.find? name with
  | none => exact h.insertEntry hfound relation
  | some found =>
      rw [ordered_iff] at h ⊢
      exact (names_replaceEntry name relation catalog.entries).symm ▸ h

theorem Ordered.without (h : catalog.Ordered) (name : Text) : (catalog.without name).Ordered :=
  List.Pairwise.filter _ h

theorem Ordered.find?_of_mem (h : catalog.Ordered) (hmem : (name, relation) ∈ catalog.entries) :
    catalog.find? name = some relation := by
  obtain ⟨entries⟩ := catalog
  unfold Ordered find? at *
  induction entries with
  | nil => cases hmem
  | cons first rest ih =>
      obtain ⟨hfirst, hrest⟩ := List.pairwise_cons.1 h
      rcases List.mem_cons.1 hmem with rfl | hmem
      · simp
      · have hne : first.1 ≠ name := by
          rintro rfl
          exact List.lt_irrefl first.1 (hfirst (first.1, relation) hmem)
        rw [List.find?_cons_of_neg (by simpa using hne)]
        exact ih hrest hmem

theorem mem_of_find? (h : catalog.find? name = some relation) :
    (name, relation) ∈ catalog.entries := by
  obtain ⟨entry, hentry, rfl⟩ := Option.map_eq_some_iff.1 h
  have hname : entry.1 = name := by simpa using List.find?_some hentry
  exact hname ▸ List.mem_of_find?_eq_some hentry

/-- Catalogs in order are the same if every lookup finds the same in both. -/
theorem Ordered.ext {other : Catalog} (h : catalog.Ordered) (hother : other.Ordered)
    (hfind : ∀ name, catalog.find? name = other.find? name) : catalog = other := by
  obtain ⟨entries⟩ := catalog
  obtain ⟨entries'⟩ := other
  have hmem (entry : Text × Relation) : entry ∈ entries ↔ entry ∈ entries' :=
    ⟨fun hentry => mem_of_find? ((hfind entry.1).symm.trans (h.find?_of_mem hentry)),
      fun hentry => mem_of_find? ((hfind entry.1).trans (hother.find?_of_mem hentry))⟩
  have hirrefl : Std.Irrefl fun first second : Text × Relation => first.1 < second.1 :=
    ⟨fun entry => List.lt_irrefl entry.1⟩
  have hantisymm : Std.Antisymm fun first second : Text × Relation => first.1 < second.1 :=
    ⟨fun first second hlt hgt => absurd (List.lt_trans hlt hgt) (List.lt_irrefl first.1)⟩
  exact congrArg Catalog.mk (List.Pairwise.eq_of_mem_iff h hother hmem)

end Catalog

namespace World

def Ordered (w : World) : Prop :=
  w.database.catalog.Ordered

variable {w next : World}

theorem Effect.ordered {statement : Statement} {output : Output}
    (h : Effect w statement output next) (hw : w.Ordered) : next.Ordered := by
  cases h with
  | createTable => exact Catalog.Ordered.put hw _ _
  | createFrom => exact Catalog.Ordered.put hw _ _
  | load => exact Catalog.Ordered.put hw _ _
  | insert => exact Catalog.Ordered.put hw _ _
  | drop => exact Catalog.Ordered.without hw _
  | store => exact hw
  | print => exact hw
  | select => exact hw

theorem Ordered.execute (hw : w.Ordered) (query : Text) : (w.execute query).2.Ordered := by
  rcases execute_cases w query with hsame | ⟨statement, output, -, heffect⟩
  · rw [hsame]
    exact hw
  · exact heffect.ordered hw

theorem ordered_start (settings : FileSettings) (files : FileTree) :
    (start settings files).Ordered :=
  List.Pairwise.nil

theorem ordered_run (settings : FileSettings) (files : FileTree) (queries : List Text) :
    ((start settings files).run queries).Ordered :=
  run_induction (I := Ordered) (ordered_start settings files) (fun _ query h => h.execute query)
    queries

/-- Every entry is the table of its name, with columns and one value per column in each row. -/
theorem entries_run (settings : FileSettings) (files : FileTree) (queries : List Text)
    (name : Text) (table : Relation)
    (hentry : (name, table) ∈ ((start settings files).run queries).database.catalog.entries) :
    ((start settings files).run queries).table? name = some table ∧ table.name = name ∧
      table.columns ≠ [] ∧ ∀ row ∈ table.rows, row.length = table.columns.length := by
  have hfound : ((start settings files).run queries).table? name = some table :=
    (ordered_run settings files queries).find?_of_mem hentry
  obtain ⟨hname, -, hwritable⟩ := sound_run settings files queries name table hfound
  exact ⟨hfound, hname, hwritable.columns_ne_nil, fun row hrow => hwritable.cells.length_eq hrow⟩

/-- A join on a name that the left table has twice, and a row that does not fit. -/
def repeatedNameRun : List Text :=
  ["create table t (a int, a int)".toList, "insert into t values 1, 2".toList,
    "create table s (b string, a int)".toList, "insert into s values 'x', 1".toList,
    "insert into s values 'y'".toList, "create table u as select * from t, s".toList]

theorem entries_run_repeatedNameRun :
    let w := (start .default .empty).run repeatedNameRun
    let table : Relation := ⟨['u'], [⟨['a'], .int⟩, ⟨['a'], .int⟩, ⟨['b'], .string⟩],
      [[.int 1, .int 1, .text ['x']]]⟩
    (['u'], table) ∈ w.database.catalog.entries ∧
      w.table? ['u'] = some table ∧ table.name = ['u'] ∧ table.columns ≠ [] ∧
        ∀ row ∈ table.rows, row.length = table.columns.length := by
  intro w table
  have hentry : (['u'], table) ∈ w.database.catalog.entries := by decide +kernel
  exact ⟨hentry, entries_run .default .empty repeatedNameRun ['u'] table hentry⟩

end World

end Relata
