import Relata.Proofs.Query.Forms
import Relata.Proofs.Query.Parts
import Relata.Proofs.World.Effect

/-!
# Loading lines and inserting them

A table can be loaded from a file, or created and filled by inserting the lines of that file
one after the other. Both ways leave the same world, and both fail at the same line with the
same error.
-/

namespace Relata

namespace Catalog

theorem replaceEntry_replaceEntry (name : Text) (first second : Relation)
    (entries : List (Text × Relation)) :
    replaceEntry name second (replaceEntry name first entries) =
      replaceEntry name second entries := by
  induction entries with
  | nil => rfl
  | cons entry entries ih => by_cases h : entry.1 = name <;> simp [replaceEntry, h, ih]

theorem replaceEntry_insertEntry {name : Text} {entries : List (Text × Relation)}
    (h : find? ⟨entries⟩ name = none) (first second : Relation) :
    replaceEntry name second (insertEntry name first entries) =
      insertEntry name second entries := by
  induction entries with
  | nil => simp [insertEntry, replaceEntry]
  | cons entry entries ih =>
      have hentry : entry.1 ≠ name := by
        intro hentry
        simp [find?_cons, hentry] at h
      rw [find?_cons, if_neg hentry] at h
      by_cases horder : Text.order name entry.1 = .lt
      · simp [insertEntry, replaceEntry, horder]
      · simp [insertEntry, replaceEntry, horder, hentry, ih h]

theorem put_put (catalog : Catalog) (name : Text) (first second : Relation) :
    (catalog.put name first).put name second = catalog.put name second := by
  rw [put, find?_put_self]
  unfold put
  cases h : catalog.find? name with
  | none => exact congrArg mk (replaceEntry_insertEntry h first second)
  | some found => exact congrArg mk (replaceEntry_replaceEntry name first second catalog.entries)

end Catalog

namespace Text

variable {line : Text}

theorem IsPhrase.isLine (h : IsPhrase line) : line.IsLine where
  ne_nil := h.ne_nil
  lineFeed hmem := absurd (h.tidy.space _ hmem (by decide)) (by decide)
  last := h.tidy.last

end Text

theorem Relation.ofFile_lines {columns : List Column} {lines : List Text} (hne : columns ≠ [])
    (hnames : ∀ column ∈ columns, Scan.isWord column.name = true)
    (hlines : ∀ line ∈ lines, line.IsLine) (file name : Text) :
    ofFile file name (some (Text.encode (['\n'].intercalate (Column.header columns :: lines)))) =
      appendRows ⟨name, columns, []⟩ (lines.map Text.fields) := by
  have hfields : ∀ column ∈ columns, column.name.InField := fun column hcolumn =>
    Text.inField_of_isWord (hnames column hcolumn)
  have hheader : (Column.header columns).IsLine := Column.isLine_header hne hfields
  have hread : (columns.map Column.write).mapM Column.read = .ok columns := by
    rw [List.mapM_map]
    exact Column.mapM_read_write fun column hcolumn => Text.words_of_isWord (hnames column hcolumn)
  rw [ofFile_intercalate hheader hlines, Column.splitOn_header hne hfields, hread]
  rfl

namespace World

variable {w : World} {name : Text} {columns : List Column} {lines : List Text}

theorem withTable_withTable (w : World) (name : Text) (first second : Relation) :
    (w.withTable name first).withTable name second = w.withTable name second := by
  simp only [withTable, Catalog.put_put]

/-- Executes queries one after the other; the first failure counts. -/
def executeAll (w : World) (queries : List Text) : Except Error World :=
  queries.foldlM (fun w query =>
    match w.execute query with
    | (.ok _, next) => .ok next
    | (.error e, _) => .error e) w

theorem execute_load (hname : Scan.isWord name = true) :
    w.execute ("load ".toList ++ name) =
      match Relation.ofFile (w.database.settings.fileName name) name
        (w.files.read (w.database.settings.path name)) with
      | .ok relation => (.ok .nothing, w.withTable name relation)
      | .error e => (.error e, w) := by
  rw [execute_of_read (Statement.read_load hname)]
  cases h : Relation.ofFile (w.database.settings.fileName name) name
      (w.files.read (w.database.settings.path name)) with
  | ok relation => exact (Effect.load h).perform_eq
  | error e =>
      rw [perform_load, h]
      exact change_silently_error (Catalog.atomic_replace name (.error e)) rfl

theorem execute_insertText {line : Text} (hname : Scan.isWord name = true)
    (hline : Text.IsPhrase line) (hquotes : Even (line.count '\'')) (relation : Relation) :
    (w.withTable name relation).execute (Statement.insertText name line) =
      match (Relation.appendRow line.fields).apply relation with
      | (.ok (), extended) => (.ok .nothing, w.withTable name extended)
      | (.error e, _) => (.error e, w.withTable name relation) := by
  have hfound : (w.withTable name relation).table? name = some relation :=
    Catalog.find?_put_self w.database.catalog name relation
  rw [execute_of_read (Statement.read_insertText hname hline hquotes)]
  rcases happend : (Relation.appendRow line.fields).apply relation with ⟨result, extended⟩
  cases result with
  | ok _ => rw [(Effect.insert hfound happend).perform_eq, withTable_withTable]
  | error e =>
      refine change_silently_error (Catalog.atomic_insert name line.fields) ?_
      rw [Catalog.insert, Catalog.apply_within, Catalog.get_eq_ok_iff.2 hfound]
      exact congrArg Prod.fst happend

/-- Lines that are inserted are the rows that the table gains. -/
theorem executeAll_insertText (hname : Scan.isWord name = true)
    (hlines : ∀ line ∈ lines, Text.IsPhrase line ∧ Even (line.count '\'')) (relation : Relation) :
    (w.withTable name relation).executeAll (lines.map (Statement.insertText name)) =
      (relation.appendRows (lines.map Text.fields)).map (w.withTable name) := by
  induction lines generalizing relation with
  | nil => simp [executeAll, Relation.appendRows, Except.map, pure, Except.pure, bind, Except.bind]
  | cons line lines ih =>
      obtain ⟨⟨hline, hquotes⟩, hlines⟩ := List.forall_mem_cons.1 hlines
      rw [List.map_cons, List.map_cons, Relation.appendRows_cons, executeAll, List.foldlM_cons,
        execute_insertText hname hline hquotes]
      rcases (Relation.appendRow line.fields).apply relation with ⟨_ | _, extended⟩
      · rfl
      · exact ih hlines extended

/-- A load leaves what creating the table and inserting the lines of its file leaves. -/
theorem execute_load_eq_executeAll (hname : Scan.isWord name = true) (free : w.table? name = none)
    (hne : columns ≠ []) (hnames : ∀ column ∈ columns, Scan.isWord column.name = true)
    (hlines : ∀ line ∈ lines,
      line ≠ [] ∧ Text.collapse line = line ∧ Even (line.count '\''))
    (hfile : w.files.read (w.database.settings.path name) =
      some (Text.encode (['\n'].intercalate (Column.header columns :: lines)))) :
    ∃ created, w.execute (Statement.write (.createTable name columns)) = (.ok .nothing, created) ∧
      w.execute ("load ".toList ++ name) =
        match created.executeAll (lines.map (Statement.insertText name)) with
        | .ok final => (.ok .nothing, final)
        | .error e => (.error e, w) := by
  have hphrases : ∀ line ∈ lines, Text.IsPhrase line ∧ Even (line.count '\'') := by
    intro line hline
    obtain ⟨hfull, hcollapse, hquotes⟩ := hlines line hline
    exact ⟨⟨Text.tidy_iff.2 hcollapse, hfull⟩, hquotes⟩
  refine ⟨w.withTable name ⟨name, columns, []⟩, ?_, ?_⟩
  · rw [execute_of_read (Statement.read_createTable hname hne hnames)]
    exact (Effect.createTable free).perform_eq
  · rw [execute_load hname, hfile, executeAll_insertText hname hphrases,
      Relation.ofFile_lines hne hnames fun line hline => (hphrases line hline).1.isLine]
    cases Relation.appendRows ⟨name, columns, []⟩ (lines.map Text.fields) <;> rfl

def twoLineFiles : FileTree :=
  ⟨[(["t.tbl".toList], .file (Text.encode "a int,b string\n1, 'x y'\nNOVALUE,'z'".toList))], []⟩

theorem execute_load_eq_executeAll_twoLines :
    let w := start .default twoLineFiles
    let columns : List Column := [⟨['a'], .int⟩, ⟨['b'], .string⟩]
    let lines : List Text := ["1, 'x y'".toList, "NOVALUE,'z'".toList]
    (Scan.isWord ['t'] = true ∧ w.table? ['t'] = none ∧ columns ≠ [] ∧
      (∀ column ∈ columns, Scan.isWord column.name = true) ∧
      (∀ line ∈ lines, line ≠ [] ∧ Text.collapse line = line ∧ Even (line.count '\'')) ∧
      w.files.read (w.database.settings.path ['t']) =
        some (Text.encode (['\n'].intercalate (Column.header columns :: lines)))) ∧
    ∃ created final, w.execute "create table t (a int, b string)".toList = (.ok .nothing, created) ∧
      created.executeAll ["insert into t values 1, 'x y'".toList,
        "insert into t values NOVALUE,'z'".toList] = .ok final ∧
      w.execute "load t".toList = (.ok .nothing, final) ∧
        final.table? ['t'] =
          some ⟨['t'], columns, [[.int 1, .text "x y".toList], [.noValue, .text ['z']]]⟩ := by
  intro w columns lines
  have hname : Scan.isWord ['t'] = true := by decide
  have free : w.table? ['t'] = none := by decide
  have hne : columns ≠ [] := by decide
  have hnames : ∀ column ∈ columns, Scan.isWord column.name = true := by decide
  have hlines : ∀ line ∈ lines, line ≠ [] ∧ Text.collapse line = line ∧ Even (line.count '\'') := by
    decide
  have hfile : w.files.read (w.database.settings.path ['t']) =
      some (Text.encode (['\n'].intercalate (Column.header columns :: lines))) := by
    decide +kernel
  refine ⟨⟨hname, free, hne, hnames, hlines, hfile⟩, ?_⟩
  obtain ⟨created, hcreated, hload⟩ :=
    execute_load_eq_executeAll hname free hne hnames hlines hfile
  have hloaded : w.execute ("load ".toList ++ ['t']) = (.ok .nothing, w.withTable ['t']
      ⟨['t'], columns, [[.int 1, .text "x y".toList], [.noValue, .text ['z']]]⟩) := by
    decide +kernel
  refine ⟨created, _, hcreated, ?_, hloaded, by decide +kernel⟩
  rw [hloaded] at hload
  change created.executeAll (lines.map (Statement.insertText ['t'])) = _
  cases hall : created.executeAll (lines.map (Statement.insertText ['t'])) with
  | ok final =>
      rw [hall] at hload
      cases hload
      rfl
  | error e =>
      rw [hall] at hload
      cases hload

end World

end Relata
