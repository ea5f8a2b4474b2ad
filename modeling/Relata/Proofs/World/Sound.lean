import Relata.Proofs.Query.WellFormed
import Relata.Proofs.Storage.RoundTrip
import Relata.Proofs.World.Tables

/-!
# What holds of all stored tables

Every table of a run stands under its own name, which is a plain word, has columns and in
every row one value per column, and its names and texts can be told apart in its file.
-/

namespace Relata

/-- A table that stands under a plain word as its name and can be written. -/
structure Relation.Stored (name : Text) (relation : Relation) : Prop where
  named : relation.name = name
  word : Scan.isWord name = true
  writable : relation.Writable

namespace Relation

/-! ## Tables from selects -/

variable {source relation : Relation}

theorem clean_cell (h : source.Each fun _ value => value.Clean) {row : Row}
    (hrow : row ∈ source.rows) (i : Nat) : (cell row i).Clean := by
  unfold cell
  cases hat : row[i]? with
  | none => exact Value.clean_noValue
  | some value => exact h.of_mem hrow (List.mem_of_getElem? hat)

theorem clean_operand (h : source.Each fun _ value => value.Clean) {row : Row}
    (hrow : row ∈ source.rows) {t : Text} (ht : t.InField) {operand : Operand}
    (hoperand : Operand.read source.columns t = .ok operand) : (operand.value row).Clean := by
  unfold Operand.read at hoperand
  split at hoperand
  · cases hoperand
    exact clean_cell h hrow _
  · obtain ⟨value, hvalue, rfl⟩ := Outcome.map_eq_ok.1 hoperand
    exact Value.clean_of_read ht hvalue

theorem clean_of_targetColumn (h : source.Each fun _ value => value.Clean)
    {left right label : Text} {op : Arithmetic} (hright : right.InField)
    {column : Column × List Value}
    (hcolumn : targetColumn source (.computed left op right label) = .ok column) :
    ∀ value ∈ column.2, value.Clean := by
  obtain ⟨i, operand, own, results, -, hoperand, -, hresults, rfl⟩ :=
    targetColumn_computed_eq_ok.1 hcolumn
  intro value hvalue
  obtain ⟨row, hrow, hresult⟩ := Outcome.exists_of_mem_mapM hresults hvalue
  exact Value.clean_of_arithmetic (clean_cell h hrow i) (clean_operand h hrow hright hoperand)
    hresult

theorem columns_project_ne_nil {projection : Projection} {projected : Relation}
    (hproject : source.project projection = .ok projected) (hsource : source.columns ≠ [])
    (htargets : ∀ targets, projection = .targets targets → targets ≠ []) :
    projected.columns ≠ [] := by
  cases projection with
  | all =>
      cases hproject
      exact hsource
  | targets targets =>
      rw [project_targets] at hproject
      obtain ⟨columns, hcolumns, rfl⟩ := Outcome.map_eq_ok.1 hproject
      rw [columns_ofColumns]
      intro hnil
      rw [List.map_eq_nil_iff.1 hnil] at hcolumns
      exact htargets targets rfl (List.forall₂_nil_right_iff.1 (Outcome.mapM_eq_ok.1 hcolumns))

theorem columns_joined_ne_nil {catalog : Catalog} {names : List Text} (hne : names ≠ [])
    (hall : ∀ name relation, catalog.find? name = some relation → relation.columns ≠ [])
    (h : catalog.joined names = .ok source) : source.columns ≠ [] := by
  obtain ⟨hnil, -⟩ | ⟨relations, hrelations, hjoined⟩ := Catalog.joined_cases h
  · exact absurd hnil hne
  · refine columns_joinAll_ne_nil (fun relation hrelation => ?_) hjoined
    obtain ⟨name, -, hfound⟩ := Catalog.find?_of_mem_getAll hrelations hrelation
    exact hall name relation hfound

theorem writable_of_select {catalog : Catalog} {query : Select} (hquery : query.WellFormed)
    (hall : ∀ name relation, catalog.find? name = some relation → relation.Writable)
    (h : catalog.select query = .ok relation) : relation.Writable := by
  obtain ⟨source, projected, hsource, hprojected, hselected⟩ := Catalog.select_eq_ok.1 h
  have hclean := Catalog.each_joined (fun name relation hfound => (hall name relation hfound).cells)
    hsource
  have hne := columns_joined_ne_nil hquery.tables
    (fun name relation hfound => (hall name relation hfound).columns_ne_nil) hsource
  have hcells : projected.Each fun _ value => value.Clean := by
    refine hclean.project (fun targets left op right label column hprojection hmem => ?_) hprojected
    exact clean_of_targetColumn hclean ((hquery.targets targets hprojection).2 _ hmem).1
  have hcolumns := (select_sublist hselected).1
  refine ⟨?_, ?_, hcells.select hselected⟩
  · rw [hcolumns]
    exact columns_project_ne_nil hprojected hne fun targets h => (hquery.targets targets h).1
  · rw [hcolumns]
    intro column hcolumn
    obtain hcolumn | ⟨targets, left, op, right, hprojection, hmem⟩ :=
      mem_columns_project hprojected hcolumn
    · obtain ⟨name, -, relation, hfound, hmem⟩ := Catalog.mem_columns_joined hsource hcolumn
      exact (hall name relation hfound).names column hmem
    · exact ((hquery.targets targets hprojection).2 _ hmem).2

/-! ## Tables from files and literals -/

/-- Whatever a file holds, a table that is read from it can be written. -/
theorem writable_of_ofFile {file name : Text} {content : Option Bytes}
    (h : ofFile file name content = .ok relation) : relation.name = name ∧ relation.Writable := by
  obtain ⟨t, header, lines, -, hlines, hread⟩ := ofFile_eq_ok.1 h
  have hfeed : ∀ line ∈ header :: lines, '\n' ∉ line := fun line hline =>
    Text.lineFeed_not_mem_of_mem_lines (hlines ▸ hline)
  have hcells : relation.Each fun _ value => value.Clean := by
    apply each_of_ofLines hread
    intro column _ line hline literal hliteral value hvalue
    exact Value.clean_of_read (Text.inField_of_mem_fields
      (hfeed line (List.mem_cons_of_mem header hline)) hliteral) (readCell_eq_ok.1 hvalue).1
  obtain ⟨-, columns, rows, hcolumns, -, rfl⟩ := ofLines_eq_ok.1 hread
  refine ⟨rfl, ?_, ?_, hcells⟩
  · rintro rfl
    exact List.splitOn_ne_nil ',' header
      (List.forall₂_nil_right_iff.1 (Outcome.mapM_eq_ok.1 hcolumns))
  · intro column hcolumn
    obtain ⟨definition, hdefinition, hcolumn⟩ := Outcome.exists_of_mem_mapM hcolumns hcolumn
    exact Column.inField_name (Text.not_mem_of_mem_splitOn hdefinition) hcolumn

theorem Writable.appendRow (h : relation.Writable) {literals : List Text} {extended : Relation}
    (hliterals : ∀ literal ∈ literals, literal.InField)
    (happend : (appendRow literals).apply relation = (.ok (), extended)) : extended.Writable := by
  have hcolumns := (appendRow_header happend).2
  refine ⟨hcolumns ▸ h.columns_ne_nil, hcolumns ▸ h.names, ?_⟩
  apply h.cells.appendRow happend
  intro column _ literal hliteral value hvalue
  exact Value.clean_of_read (hliterals literal hliteral) (readCell_eq_ok.1 hvalue).1

end Relation

namespace World

/-- Every table can be found under its own name and written. -/
def Sound (w : World) : Prop :=
  w.Tables Relation.Stored

variable {w next : World}

theorem Effect.sound {statement : Statement} {output : Output}
    (h : Effect w statement output next) (hstatement : statement.WellFormed) (hw : w.Sound) :
    next.Sound := by
  cases h with
  | createTable free =>
      obtain ⟨hword, hne, hnames⟩ := hstatement
      refine hw.withTable ⟨rfl, hword, hne, hnames, fun row hrow => ?_⟩
      cases hrow
  | createFrom selected free =>
      obtain ⟨hword, hquery⟩ := hstatement
      have hwritable := Relation.writable_of_select hquery
        (fun name relation hfound => (hw name relation hfound).writable) selected
      exact hw.withTable ⟨rfl, hword, hwritable.columns_ne_nil, hwritable.names, hwritable.cells⟩
  | load read =>
      obtain ⟨hname, hwritable⟩ := Relation.writable_of_ofFile read
      exact hw.withTable ⟨hname, hstatement, hwritable⟩
  | store => exact hw
  | drop => exact hw.withoutTable _
  | insert found appended =>
      have hstored := hw _ _ found
      have hname := (Relation.appendRow_header appended).1.trans hstored.named
      exact hw.withTable ⟨hname, hstored.word, hstored.writable.appendRow hstatement.2 appended⟩
  | print => exact hw
  | select => exact hw

theorem Sound.execute (hw : w.Sound) (query : Text) : (w.execute query).2.Sound := by
  rcases execute_cases w query with hsame | ⟨statement, output, hread, heffect⟩
  · rw [hsame]
    exact hw
  · exact heffect.sound (Statement.wellFormed_read hread) hw

theorem sound_run (settings : FileSettings) (files : FileTree) (queries : List Text) :
    ((start settings files).run queries).Sound :=
  run_induction (I := Sound) (tables_start settings files) (fun _ query h => h.execute query)
    queries

/--
In every state of a run texts can stand in a field and have no quote at their ends. So a cell
that is no float is read from its text as it was, and a row has a field for each column.
-/
theorem cells_run (settings : FileSettings) (files : FileTree) (queries : List Text) (name : Text)
    (table : Relation) (hfound : ((start settings files).run queries).table? name = some table) :
    ∀ row ∈ table.rows,
      (∀ t, .text t ∈ row →
        ',' ∉ t ∧ '\n' ∉ t ∧ t.head? ≠ some '\'' ∧ t.getLast? ≠ some '\'') ∧
      (∀ value ∈ row, (∀ x, value ≠ .float x) → Value.read value.write.trim = .ok value) ∧
      (Relation.writeRow row).splitOn ',' = row.map Value.write ∧
        ((Relation.writeRow row).splitOn ',').length = table.columns.length := by
  intro row hrow
  obtain ⟨-, -, hwritable⟩ := sound_run settings files queries name table hfound
  have hclean : ∀ value ∈ row, value.Clean := fun _ hvalue => hwritable.cells.of_mem hrow hvalue
  have hfields := hwritable.splitOn_writeRow hrow
  refine ⟨fun t ht => ?_, fun value hvalue hfloat => ?_, hfields, ?_⟩
  · obtain ⟨⟨hcomma, hfeed⟩, hhead, hlast⟩ := hclean _ ht t rfl
    exact ⟨hcomma, hfeed, hhead, hlast⟩
  · rw [(hclean value hvalue).isWritten.trim]
    exact (hclean value hvalue).read_write hfloat
  · rw [hfields, List.length_map, hwritable.cells.length_eq hrow]

/-- A file with quotes inside a text, blanks around one and a carriage return in one. -/
def quotedFiles : FileTree :=
  ⟨[(["t.tbl".toList], .file (Text.encode
    "a string,b string\n''it's' , ' x\r '\n'',7'7".toList))], []⟩

def quotedRun : List Text :=
  ["load t".toList, "create table u as select a, b, a + b as c from t".toList]

theorem cells_run_quotedRun :
    let w := (start .default quotedFiles).run quotedRun
    let table : Relation :=
      ⟨['u'], [⟨['a'], .string⟩, ⟨['b'], .string⟩, ⟨['c'], .string⟩],
        [[.text "it's".toList, .text " x\r ".toList, .text "its x\r ".toList],
          [.text [], .text "7'7".toList, .text "77".toList]]⟩
    w.table? ['u'] = some table ∧ ∀ row ∈ table.rows,
      (∀ t, .text t ∈ row →
        ',' ∉ t ∧ '\n' ∉ t ∧ t.head? ≠ some '\'' ∧ t.getLast? ≠ some '\'') ∧
      (∀ value ∈ row, (∀ x, value ≠ .float x) → Value.read value.write.trim = .ok value) ∧
      (Relation.writeRow row).splitOn ',' = row.map Value.write ∧
        ((Relation.writeRow row).splitOn ',').length = table.columns.length := by
  intro w table
  have hfound : w.table? ['u'] = some table := by decide +kernel
  exact ⟨hfound, cells_run .default quotedFiles quotedRun ['u'] table hfound⟩

end World

end Relata
