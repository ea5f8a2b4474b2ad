import Mathlib.Data.List.TakeWhile
import Relata.Proofs.Relation.Rows
import Relata.Proofs.Value.Rendering

/-!
# Reading a written table back

The file of a table is read definition by definition and cell by cell. Where no column is
of floats, reading succeeds and the table is written as before exactly if every column name
is one word and every cell fits its column, or is a float that is not a number.
-/

namespace Relata

/-! ## Lines -/

namespace Text

/-- A text that is a line of its own: it has no line feed and does not end with a blank. -/
structure IsLine (t : Text) : Prop where
  ne_nil : t ≠ []
  lineFeed : '\n' ∉ t
  last : ∀ c, t.getLast? = some c → isBlank c = false

variable {t : Text}

theorem IsLine.exists_last (h : t.IsLine) : ∃ c, t.getLast? = some c ∧ isBlank c = false := by
  have hlast := List.getLast?_eq_some_getLast h.ne_nil
  exact ⟨t.getLast h.ne_nil, hlast, h.last _ hlast⟩

theorem IsLine.not_return (h : t.IsLine) : t.getLast? ≠ some '\r' :=
  fun hreturn => absurd (h.last _ hreturn) (by decide)

theorem IsLine.not_isBlankOnly (h : t.IsLine) : t.isBlankOnly = false := by
  obtain ⟨c, hc, hblank⟩ := h.exists_last
  rw [isBlankOnly, List.all_eq_false]
  exact ⟨c, List.mem_of_getLast? hc, by simp [hblank]⟩

theorem IsLine.append {s : Text} (hfeed : '\n' ∉ s) (h : t.IsLine) : (s ++ t).IsLine where
  ne_nil := List.append_ne_nil_of_right_ne_nil s h.ne_nil
  lineFeed := fun hc => (List.mem_append.1 hc).elim hfeed h.lineFeed
  last c hc := by
    rw [List.getLast?_append_of_ne_nil s h.ne_nil] at hc
    exact h.last c hc

theorem isLine_intercalate {pieces : List Text} (hne : pieces ≠ [])
    (h : ∀ piece ∈ pieces, piece.IsLine) : IsLine ([','].intercalate pieces) := by
  induction pieces with
  | nil => exact absurd rfl hne
  | cons piece pieces ih =>
      cases pieces with
      | nil =>
          rw [List.intercalate_singleton]
          exact h piece List.mem_cons_self
      | cons next pieces =>
          have hrest := ih (List.cons_ne_nil next pieces) fun other hother =>
            h other (List.mem_cons_of_mem piece hother)
          rw [List.intercalate_cons_cons]
          refine IsLine.append ?_ hrest
          simp [(h piece List.mem_cons_self).lineFeed]

end Text

theorem Value.IsWritten.isLine {t : Text} (h : Value.IsWritten t) : t.IsLine :=
  ⟨h.ne_nil, h.inField.lineFeed, h.last⟩

theorem Value.type_of_fits_float {x : Binary64} {type : DataType}
    (h : Value.fits (.float x) type = true) : type = .float := by
  cases type with
  | int => cases h
  | float => rfl
  | string => cases h

/-! ## Definitions -/

namespace Column

theorem isWritten_word (type : DataType) : Value.IsWritten type.word := by
  refine Value.isWritten_of_plain ?_ ?_
  · cases type <;> decide
  · cases type <;> decide

theorem inField_write {column : Column} (h : column.name.InField) : column.write.InField := by
  have hspace : Text.InField [' '] := ⟨by decide, by decide⟩
  have hword := (isWritten_word column.type).inField
  exact h.append (Text.InField.append hspace hword)

theorem isLine_write {column : Column} (h : column.name.InField) : column.write.IsLine := by
  have hword := (isWritten_word column.type).isLine
  have hspace : Text.IsLine (' ' :: column.type.word) :=
    Text.IsLine.append (s := [' ']) (by decide) hword
  exact Text.IsLine.append h.lineFeed hspace

theorem isLine_header {columns : List Column} (hne : columns ≠ [])
    (h : ∀ column ∈ columns, column.name.InField) : (header columns).IsLine := by
  apply Text.isLine_intercalate (by simp [hne])
  intro piece hpiece
  obtain ⟨column, hcolumn, rfl⟩ := List.mem_map.1 hpiece
  exact isLine_write (h column hcolumn)

theorem splitOn_header {columns : List Column} (hne : columns ≠ [])
    (h : ∀ column ∈ columns, column.name.InField) :
    (header columns).splitOn ',' = columns.map write := by
  refine List.splitOn_intercalate ',' (fun piece hpiece => ?_) (by simp [hne])
  obtain ⟨column, hcolumn, rfl⟩ := List.mem_map.1 hpiece
  exact (inField_write (h column hcolumn)).comma

theorem words_write (column : Column) :
    column.write.words = column.name.words ++ [column.type.word] := by
  have hword : column.type.word.words = [column.type.word] := by
    cases column.type <;> decide
  rw [write, Text.words_append_blank column.name column.type.word (by decide), hword]

theorem read_write_eq_ok {column read : Column} :
    Column.read column.write = .ok read ↔
      column.name.words = [read.name] ∧ read.type = column.type := by
  rw [read_eq_ok, words_write]
  constructor
  · rintro ⟨word, hwords, htype⟩
    have hsplit : column.name.words ++ [column.type.word] = [read.name] ++ [word] := hwords
    obtain ⟨hname, hword⟩ := List.append_inj' hsplit rfl
    cases hword
    rw [DataType.ofWord?_word, Option.some.injEq] at htype
    exact ⟨hname, htype.symm⟩
  · rintro ⟨hname, htype⟩
    exact ⟨column.type.word, by rw [hname]; rfl, by rw [DataType.ofWord?_word, htype]⟩

theorem mapM_read_write {columns : List Column}
    (h : ∀ column ∈ columns, column.name.words = [column.name]) :
    columns.mapM (fun column => Column.read column.write) = .ok columns := by
  have hread := Outcome.mapM_of_forall (g := id) fun column hcolumn =>
    read_write_eq_ok.2 ⟨h column hcolumn, rfl⟩
  rw [hread, List.map_id]

end Column

namespace Relation

variable {relation : Relation}

/-- A relation whose header and rows can be told apart in its file. -/
structure Writable (relation : Relation) : Prop where
  columns_ne_nil : relation.columns ≠ []
  names : ∀ column ∈ relation.columns, column.name.InField
  cells : relation.Each fun _ value => value.Clean

theorem Writable.header_isLine (h : relation.Writable) :
    (Column.header relation.columns).IsLine :=
  Column.isLine_header h.columns_ne_nil h.names

theorem Writable.isWritten (h : relation.Writable) {row : Row} (hrow : row ∈ relation.rows) :
    row ≠ [] ∧ ∀ value ∈ row, Value.IsWritten value.write := by
  constructor
  · rintro rfl
    exact h.columns_ne_nil (List.forall₂_nil_right_iff.1 (h.cells [] hrow))
  · intro value hvalue
    exact Value.Clean.isWritten (h.cells.of_mem hrow hvalue)

theorem Writable.splitOn_writeRow (h : relation.Writable) {row : Row}
    (hrow : row ∈ relation.rows) : (writeRow row).splitOn ',' = row.map Value.write := by
  obtain ⟨hne, hwritten⟩ := h.isWritten hrow
  refine List.splitOn_intercalate ',' (fun piece hpiece => ?_) (by simp [hne])
  obtain ⟨value, hvalue, rfl⟩ := List.mem_map.1 hpiece
  exact (hwritten value hvalue).inField.comma

theorem Writable.row_isLine (h : relation.Writable) {row : Row} (hrow : row ∈ relation.rows) :
    (writeRow row).IsLine := by
  obtain ⟨hne, hwritten⟩ := h.isWritten hrow
  apply Text.isLine_intercalate (by simp [hne])
  intro piece hpiece
  obtain ⟨value, hvalue, rfl⟩ := List.mem_map.1 hpiece
  exact (hwritten value hvalue).isLine

theorem ofFile_intercalate {header : Text} {lines : List Text} (hheader : header.IsLine)
    (hlines : ∀ line ∈ lines, line.IsLine) (file name : Text) :
    ofFile file name (some (Text.encode (['\n'].intercalate (header :: lines)))) = (do
      let columns ← (header.splitOn ',').mapM Column.read
      appendRows ⟨name, columns, []⟩ (lines.map Text.fields)) := by
  have hall : ∀ line ∈ header :: lines, line.IsLine := List.forall_mem_cons.2 ⟨hheader, hlines⟩
  have hsplit := Text.lines_intercalate (fun line hline => (hall line hline).lineFeed)
    (fun line hline => (hall line hline).not_return) (fun line hline => (hall line hline).ne_nil)
    (List.cons_ne_nil _ _)
  have hfull : lines.filter (fun line => !line.isBlankOnly) = lines :=
    List.filter_eq_self.2 fun line hline => by rw [(hlines line hline).not_isBlankOnly]; rfl
  rw [ofFile_encode, hsplit]
  simp only [ofLines, hheader.not_isBlankOnly, Bool.false_eq_true, if_false,
    Column.readAll_eq_mapM, appendLines, hfull]

/-- The file of a table is read definition by definition and cell by cell. -/
theorem Writable.ofFile_write (h : relation.Writable) (file name : Text) :
    ofFile file name (some (Text.encode relation.write)) = (do
      let columns ← relation.columns.mapM fun column => Column.read column.write
      let rows ← relation.rows.mapM fun row => readRow columns (row.map Value.write)
      return ⟨name, columns, rows⟩) := by
  have hheader := Column.splitOn_header h.columns_ne_nil h.names
  have hlines : ∀ line ∈ relation.rows.map writeRow, line.IsLine := by
    intro line hline
    obtain ⟨row, hrow, rfl⟩ := List.mem_map.1 hline
    exact h.row_isLine hrow
  have hfields : (relation.rows.map writeRow).map Text.fields =
      relation.rows.map fun row => row.map Value.write := by
    rw [List.map_map]
    apply List.map_congr_left
    intro row hrow
    rw [Function.comp_apply, Text.fields, h.splitOn_writeRow hrow, List.map_map]
    exact List.map_congr_left fun value hvalue => ((h.isWritten hrow).2 value hvalue).trim
  rw [write, ofFile_intercalate h.header_isLine hlines, hheader, hfields]
  simp only [List.mapM_map, appendRows, List.nil_append]
  rfl

/-! ## Cells -/

/-- What is read in place of a value: a float that is not a number becomes the marker. -/
def reread (value : Value) : Value :=
  if value = .float .nan then .nan else value

theorem write_reread (value : Value) : (reread value).write = value.write := by
  unfold reread
  split
  · rename_i hnan
    rw [hnan]
    rfl
  · rfl

section Cell

variable {column : Column} {value : Value}

theorem readCell_write (hclean : value.Clean) (hfloat : column.type ≠ .float)
    (h : value.fits column.type = true ∨ value = .float .nan) :
    readCell column value.write = .ok (reread value) := by
  rw [readCell_eq_ok]
  rcases h with hfits | rfl
  · cases value with
    | int n => exact ⟨Value.read_write_int n, hfits⟩
    | float x => exact absurd (Value.type_of_fits_float hfits) hfloat
    | text t => exact ⟨Value.read_write_text (hclean t rfl), hfits⟩
    | nan => exact ⟨rfl, hfits⟩
    | noValue => exact ⟨rfl, hfits⟩
  · exact ⟨rfl, rfl⟩

theorem fits_of_readCell_write (hclean : value.Clean) (hfloat : column.type ≠ .float) {read : Value}
    (h : readCell column value.write = .ok read) :
    value.fits column.type = true ∨ value = .float .nan := by
  obtain ⟨hread, hfits⟩ := readCell_eq_ok.1 h
  cases value with
  | int n =>
      cases (Value.read_write_int n).symm.trans hread
      exact .inl hfits
  | float x =>
      rcases Value.read_write_float hread with ⟨rfl, -⟩ | ⟨y, rfl⟩
      · exact .inr rfl
      · exact absurd (Value.type_of_fits_float hfits) hfloat
  | text t =>
      cases (Value.read_write_text (hclean t rfl)).symm.trans hread
      exact .inl hfits
  | nan => exact .inl rfl
  | noValue => exact .inl rfl

end Cell

/-! ## Rows -/

theorem readRow_write {again : Value → Value} {columns : List Column} {row : Row}
    (h : List.Forall₂ (fun column value => readCell column value.write = .ok (again value))
      columns row) : readRow columns (row.map Value.write) = .ok (row.map again) := by
  rw [readRow_eq_ok, List.length_map]
  refine ⟨h.length_eq.symm, ?_⟩
  induction h with
  | nil => exact List.Forall₂.nil
  | cons hcell _ ih => exact List.Forall₂.cons hcell ih

theorem forall₂_of_readRow_write {columns : List Column} {row read : Row}
    (h : readRow columns (row.map Value.write) = .ok read) :
    List.Forall₂ (fun column value => ∃ v, readCell column value.write = .ok v) columns row := by
  obtain ⟨hlength, hcells⟩ := readRow_eq_ok.1 h
  clear h
  induction columns generalizing row read with
  | nil =>
      rw [List.length_map] at hlength
      rw [List.eq_nil_of_length_eq_zero hlength]
      exact List.Forall₂.nil
  | cons column columns ih =>
      cases row with
      | nil => cases hlength
      | cons value row =>
          cases hcells with
          | cons hcell hrest =>
              exact List.Forall₂.cons ⟨_, hcell⟩ (ih (Nat.succ.inj hlength) hrest)

/-- One word as the name of every column, and in every cell what fits the column. -/
structure Reloads (relation : Relation) : Prop where
  names : ∀ column ∈ relation.columns, column.name.words = [column.name]
  cells : relation.Each fun column value => value.fits column.type = true ∨ value = .float .nan

theorem Reloads.ofFile_write (h : relation.Reloads) (hwritable : relation.Writable)
    (hfloat : ∀ column ∈ relation.columns, column.type ≠ .float) (file name : Text) :
    ofFile file name (some (Text.encode relation.write)) =
      .ok ⟨name, relation.columns, relation.rows.map (List.map reread)⟩ := by
  have hrows : relation.rows.mapM (fun row => readRow relation.columns (row.map Value.write)) =
      .ok (relation.rows.map (List.map reread)) := by
    refine Outcome.mapM_of_forall fun row hrow => readRow_write ?_
    exact forall₂_mp_of_mem (fun column hcolumn value hclean hcell =>
      readCell_write hclean (hfloat column hcolumn) hcell) (hwritable.cells row hrow)
        (h.cells row hrow)
  rw [hwritable.ofFile_write, Column.mapM_read_write h.names]
  simp only [hrows, bind, Except.bind, pure, Except.pure]

theorem write_map_reread (relation : Relation) (name : Text) :
    write ⟨name, relation.columns, relation.rows.map (List.map reread)⟩ = relation.write := by
  have hrow (row : Row) : writeRow (row.map reread) = writeRow row := by
    rw [writeRow, List.map_map]
    exact congrArg _ (List.map_congr_left fun value _ => write_reread value)
  have hrows : (relation.rows.map (List.map reread)).map writeRow = relation.rows.map writeRow := by
    rw [List.map_map]
    exact List.map_congr_left fun row _ => hrow row
  rw [write, hrows]
  rfl

/-! ## Tables that are read back -/

/-- Two tables that are written alike have the same header. -/
theorem header_eq_of_write_eq {other : Relation} (h : (Column.header relation.columns).IsLine)
    (hother : (Column.header other.columns).IsLine) (hwrite : other.write = relation.write) :
    Column.header other.columns = Column.header relation.columns := by
  have hfirst (table : Relation) (hline : (Column.header table.columns).IsLine) :
      table.write.takeWhile (fun c => c ≠ '\n') = Column.header table.columns := by
    have hall : ∀ c ∈ Column.header table.columns, decide (c ≠ '\n') = true := by
      intro c hc
      rw [decide_eq_true_eq]
      rintro rfl
      exact hline.lineFeed hc
    unfold write
    cases table.rows.map writeRow with
    | nil =>
        rw [List.intercalate_singleton]
        exact List.takeWhile_eq_self_iff.2 hall
    | cons row rows =>
        rw [List.intercalate_cons_cons, List.append_assoc, List.takeWhile_append_of_pos hall]
        simp
  rw [← hfirst other hother, ← hfirst relation h, hwrite]

theorem eq_of_map_write_eq {columns read : List Column}
    (h : List.Forall₂ (fun column read => Column.read column.write = .ok read) columns read)
    (hwrite : read.map Column.write = columns.map Column.write) : read = columns := by
  induction h with
  | nil => rfl
  | @cons column first columns rest hread _ ih =>
      obtain ⟨hfirst, hrest⟩ := List.cons.inj hwrite
      have htype : first.type = column.type := (Column.read_write_eq_ok.1 hread).2
      have hname : first.name = column.name := by
        rw [Column.write, Column.write, htype] at hfirst
        exact List.append_cancel_right hfirst
      have hsame : first = column := by
        cases first
        cases column
        cases hname
        cases htype
        rfl
      rw [hsame, ih hrest]

/-- A table that is read back and written as before has what is needed for that. -/
theorem reloads_of_ofFile_write (hwritable : relation.Writable)
    (hfloat : ∀ column ∈ relation.columns, column.type ≠ .float) {file name : Text}
    {read : Relation} (h : ofFile file name (some (Text.encode relation.write)) = .ok read)
    (hwrite : read.write = relation.write) : relation.Reloads := by
  rw [hwritable.ofFile_write] at h
  obtain ⟨columns, hcolumns, h⟩ := Outcome.bind_eq_ok.1 h
  obtain ⟨rows, hrows, h⟩ := Outcome.bind_eq_ok.1 h
  cases h
  have hpairs := Outcome.mapM_eq_ok.1 hcolumns
  have hne : columns ≠ [] := by
    rintro rfl
    exact hwritable.columns_ne_nil (List.forall₂_nil_right_iff.1 hpairs)
  have hnames : ∀ column ∈ columns, column.name.InField := by
    intro column hcolumn
    obtain ⟨own, hown, hread⟩ := Outcome.exists_of_mem_mapM hcolumns hcolumn
    have hword := Text.mem_words ((Column.read_write_eq_ok.1 hread).1 ▸ List.mem_cons_self)
    exact (hwritable.names own hown).mono fun c hc => (hword.2 c hc).1
  -- the headers are written alike, and a definition is told by its text
  have hsame : columns = relation.columns := by
    have hheader := header_eq_of_write_eq hwritable.header_isLine
      (Column.isLine_header hne hnames) hwrite
    refine eq_of_map_write_eq hpairs ?_
    rw [← Column.splitOn_header hne hnames, hheader,
      Column.splitOn_header hwritable.columns_ne_nil hwritable.names]
  subst hsame
  refine ⟨fun column hcolumn => ?_, fun row hrow => ?_⟩
  · have hread := List.forall₂_same.1 hpairs column hcolumn
    exact (Column.read_write_eq_ok.1 hread).1
  · obtain ⟨read, hread⟩ := Outcome.exists_of_mapM hrows hrow
    refine forall₂_mp_of_mem ?_ (hwritable.cells row hrow) (forall₂_of_readRow_write hread)
    intro column hcolumn value hclean hcell
    obtain ⟨again, hagain⟩ := hcell
    exact fits_of_readCell_write hclean (hfloat column hcolumn) hagain

end Relation

end Relata
