import Relata.Proofs.Storage.RoundTrip
import Relata.Proofs.Value.Reread

/-!
# Reading a table of literals back

A table whose cells come from literals is read back from its file, floats included, exactly
if no float in it is infinite. Floats may change in the fourth place, but are written as
before.
-/

namespace Relata

theorem Column.words_name_of_read {definition : Text} {column : Column}
    (h : Column.read definition = .ok column) : column.name.words = [column.name] := by
  obtain ⟨word, hwords, -⟩ := Column.read_eq_ok.1 h
  obtain ⟨hne, hblank⟩ := Text.mem_words (hwords ▸ List.mem_cons_self)
  exact Text.words_of_forall hne fun c hc => (hblank c hc).2

namespace Relation

variable {relation : Relation}

/-- One word as the name of every column, and in every cell what a literal can enter. -/
structure Entered (relation : Relation) : Prop where
  names : ∀ column ∈ relation.columns, column.name.words = [column.name]
  cells : relation.Each fun column value =>
    value.fits column.type = true ∧ value ≠ .float .nan

def Finite (relation : Relation) : Prop :=
  ∀ row ∈ relation.rows, ∀ value ∈ row, ∀ negative, value ≠ .float (.infinite negative)

instance (relation : Relation) : Decidable relation.Finite :=
  inferInstanceAs (Decidable (∀ row ∈ relation.rows, ∀ value ∈ row, ∀ negative,
    value ≠ .float (.infinite negative)))

/-! ## Cells -/

section Cell

variable {column : Column} {value : Value}

theorem exists_readCell_write (hclean : value.Clean) (hfits : value.fits column.type = true)
    (hnan : value ≠ .float .nan) (hfinite : ∀ negative, value ≠ .float (.infinite negative)) :
    ∃ again, readCell column value.write = .ok again ∧ again.write = value.write := by
  have hsame (h : Value.read value.write = .ok value) :
      ∃ again, readCell column value.write = .ok again ∧ again.write = value.write :=
    ⟨value, readCell_eq_ok.2 ⟨h, hfits⟩, rfl⟩
  cases value with
  | int n => exact hsame (Value.read_write_int n)
  | float x =>
      cases x with
      | nan => exact absurd rfl hnan
      | infinite negative => exact absurd rfl (hfinite negative)
      | finite negative units isMagnitude =>
          obtain ⟨read, isMagnitude', hread, hwrite⟩ :=
            Value.exists_read_write_finite negative isMagnitude
          exact ⟨_, readCell_eq_ok.2 ⟨hread, hfits⟩, hwrite⟩
  | text t => exact hsame (Value.read_write_text (hclean t rfl))
  | nan => exact hsame rfl
  | noValue => exact hsame rfl

theorem readCell_write_infinite (column : Column) (negative : Bool) (again : Value) :
    readCell column (Value.write (.float (.infinite negative))) ≠ .ok again := by
  intro h
  have hread := (readCell_eq_ok.1 h).1
  rw [Value.read_write_infinite] at hread
  cases hread

end Cell

/-! ## Rows -/

theorem exists_readRow_write {columns : List Column} {row : Row}
    (h : List.Forall₂ (fun column value =>
      ∃ again, readCell column value.write = .ok again ∧ again.write = value.write) columns row) :
    ∃ again, readRow columns (row.map Value.write) = .ok again ∧
      again.map Value.write = row.map Value.write := by
  have hcells : ∃ again : Row,
      List.Forall₂ (fun item value => readCell item.1 item.2 = .ok value)
        (columns.zip (row.map Value.write)) again ∧
          again.map Value.write = row.map Value.write := by
    induction h with
    | nil => exact ⟨[], List.Forall₂.nil, rfl⟩
    | cons hcell _ ih =>
        obtain ⟨value, hread, hwrite⟩ := hcell
        obtain ⟨values, hvalues, hrest⟩ := ih
        refine ⟨value :: values, List.Forall₂.cons hread hvalues, ?_⟩
        rw [List.map_cons, List.map_cons, hwrite, hrest]
  obtain ⟨again, hagain, hwrite⟩ := hcells
  refine ⟨again, readRow_eq_ok.2 ⟨?_, hagain⟩, hwrite⟩
  rw [List.length_map]
  exact h.length_eq.symm

theorem map_writeRow_eq {rows again : List Row}
    (h : List.Forall₂ (fun row read => List.map Value.write read = List.map Value.write row)
      rows again) : again.map writeRow = rows.map writeRow := by
  induction h with
  | nil => rfl
  | cons hrow _ ih => rw [List.map_cons, List.map_cons, ih, writeRow, writeRow, hrow]

/-! ## Tables -/

/-- A table of literals without an infinity is read back and written as before. -/
theorem Entered.exists_ofFile_write (h : relation.Entered) (hwritable : relation.Writable)
    (hfinite : relation.Finite) (file name : Text) :
    ∃ again, ofFile file name (some (Text.encode relation.write)) = .ok again ∧
      again.columns = relation.columns ∧ again.rows.length = relation.rows.length ∧
        again.write = relation.write := by
  have hrow : ∀ row ∈ relation.rows, ∃ again,
      readRow relation.columns (row.map Value.write) = .ok again ∧
        again.map Value.write = row.map Value.write := by
    intro row hrow
    have hclean := forall₂_and_of_mem (hwritable.cells row hrow) (hfinite row hrow)
    refine exists_readRow_write (forall₂_mp_of_mem ?_ (h.cells row hrow) hclean)
    intro column _ value hcell hvalue
    exact exists_readCell_write hvalue.2 hcell.1 hcell.2 hvalue.1
  obtain ⟨rows, hrows, hsame⟩ := Outcome.exists_mapM_of_forall hrow
  refine ⟨⟨name, relation.columns, rows⟩, ?_, rfl, hsame.length_eq.symm, ?_⟩
  · rw [hwritable.ofFile_write, Column.mapM_read_write h.names]
    simp only [hrows, bind, Except.bind, pure, Except.pure]
  · rw [write, write, map_writeRow_eq hsame]

/-- A table that is read back at all holds no infinity. -/
theorem finite_of_ofFile_write (hwritable : relation.Writable) {file name : Text}
    {again : Relation} (h : ofFile file name (some (Text.encode relation.write)) = .ok again) :
    relation.Finite := by
  rw [hwritable.ofFile_write] at h
  obtain ⟨columns, -, h⟩ := Outcome.bind_eq_ok.1 h
  obtain ⟨rows, hrows, -⟩ := Outcome.bind_eq_ok.1 h
  rintro row hrow value hvalue negative rfl
  obtain ⟨read, hread⟩ := Outcome.exists_of_mapM hrows hrow
  obtain ⟨column, -, again, hagain⟩ :=
    Outcome.exists_of_mem_forall₂ (forall₂_of_readRow_write hread) hvalue
  exact readCell_write_infinite column negative again hagain

/-! ## Tables of literals -/

theorem entered_of_ofFile {file name : Text} {content : Option Bytes}
    (h : ofFile file name content = .ok relation) : relation.Entered := by
  obtain ⟨t, header, lines, -, -, hlines⟩ := ofFile_eq_ok.1 h
  have hcells : relation.Each fun column value =>
      value.fits column.type = true ∧ value ≠ .float .nan := by
    apply each_of_ofLines hlines
    intro column _ line _ literal _ value hread
    obtain ⟨hliteral, hfits⟩ := readCell_eq_ok.1 hread
    exact ⟨hfits, Value.read_ne_nan hliteral⟩
  obtain ⟨-, columns, rows, hcolumns, -, rfl⟩ := ofLines_eq_ok.1 hlines
  refine ⟨fun column hcolumn => ?_, hcells⟩
  obtain ⟨definition, -, hdefinition⟩ := Outcome.exists_of_mem_mapM hcolumns hcolumn
  exact Column.words_name_of_read hdefinition

theorem Entered.appendRow (h : relation.Entered) {literals : List Text} {extended : Relation}
    (happend : (appendRow literals).apply relation = (.ok (), extended)) : extended.Entered := by
  have hcolumns := (appendRow_header happend).2
  refine ⟨hcolumns ▸ h.names, h.cells.appendRow happend ?_⟩
  intro column _ literal _ value hread
  obtain ⟨hliteral, hfits⟩ := readCell_eq_ok.1 hread
  exact ⟨hfits, Value.read_ne_nan hliteral⟩

end Relation

end Relata
