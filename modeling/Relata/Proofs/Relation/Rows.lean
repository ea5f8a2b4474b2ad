import Relata.Proofs.Outcome
import Relata.Proofs.Relation.Cells
import Relata.Storage.TableFile

/-!
# Rows read from literals

A row of literals is accepted exactly if there is one literal per column and every literal
reads as a value that fits its column. A table file is a header of column definitions and
such rows.
-/

namespace Relata

namespace Column

theorem readAll_eq_mapM (definitions : List Text) :
    readAll definitions = definitions.mapM read := by
  induction definitions with
  | nil => rfl
  | cons definition definitions ih => rw [readAll, List.mapM_cons, ih]

theorem read_eq_ok {definition : Text} {column : Column} :
    read definition = .ok column ↔ ∃ word, definition.words = [column.name, word] ∧
      DataType.ofWord? word = some column.type := by
  unfold read
  split
  · rename_i name word hwords
    cases htype : DataType.ofWord? word with
    | none => simp [hwords, htype]
    | some type =>
        simp only [hwords, Except.ok.injEq, List.cons.injEq, and_true]
        constructor
        · rintro rfl
          exact ⟨word, ⟨rfl, rfl⟩, htype⟩
        · rintro ⟨word', ⟨rfl, rfl⟩, htype'⟩
          rw [htype, Option.some.injEq] at htype'
          rw [htype']
  · rename_i hwords
    simp only [reduceCtorEq, false_iff, not_exists, not_and]
    exact fun word h => absurd h (hwords column.name word)

end Column

namespace Relation

variable {P : Column → Value → Prop} {columns : List Column} {relation extended : Relation}

theorem readCell_eq_ok {column : Column} {literal : Text} {value : Value} :
    readCell column literal = .ok value ↔
      Value.read literal = .ok value ∧ value.fits column.type = true := by
  unfold readCell
  cases Value.read literal with
  | error e => simp [bind, Except.bind]
  | ok own =>
      simp only [bind, Except.bind, pure, Except.pure]
      by_cases hfits : own.fits column.type
      · rw [if_pos hfits, Except.ok.injEq]
        exact ⟨fun h => ⟨h, h ▸ hfits⟩, fun h => h.1⟩
      · rw [if_neg hfits, Except.ok.injEq]
        simp only [reduceCtorEq, false_iff, not_and]
        rintro rfl
        exact hfits

theorem readRow_eq_ok {literals : List Text} {row : Row} :
    readRow columns literals = .ok row ↔ literals.length = columns.length ∧
      List.Forall₂ (fun item value => readCell item.1 item.2 = .ok value)
        (columns.zip literals) row := by
  unfold readRow
  by_cases hlength : literals.length = columns.length
  · rw [if_pos hlength, Outcome.mapM_eq_ok]
    exact (and_iff_right hlength).symm
  · rw [if_neg hlength]
    simp [hlength]

theorem forall₂_of_readRow {literals : List Text} {row : Row}
    (h : readRow columns literals = .ok row)
    (hcell : ∀ column ∈ columns, ∀ literal ∈ literals, ∀ value,
      readCell column literal = .ok value → P column value) : List.Forall₂ P columns row := by
  obtain ⟨hlength, hvalues⟩ := readRow_eq_ok.1 h
  clear h
  induction columns generalizing literals row with
  | nil =>
      rw [List.zip_nil_left, List.forall₂_nil_left_iff] at hvalues
      rw [hvalues]
      exact List.Forall₂.nil
  | cons column columns ih =>
      cases literals with
      | nil => simp at hlength
      | cons literal literals =>
          rw [List.zip_cons_cons] at hvalues
          cases hvalues with
          | cons hvalue hrest =>
              refine List.Forall₂.cons ?_ (ih ?_ (Nat.succ.inj hlength) hrest)
              · exact hcell column List.mem_cons_self literal List.mem_cons_self _ hvalue
              · intro other hother text htext
                exact hcell other (List.mem_cons_of_mem column hother) text
                  (List.mem_cons_of_mem literal htext)

theorem appendRow_eq_ok_iff {literals : List Text} :
    (appendRow literals).apply relation = (.ok (), extended) ↔
      ∃ row, readRow relation.columns literals = .ok row ∧
        extended = { relation with rows := relation.rows ++ [row] } := by
  rw [apply_appendRow]
  cases readRow relation.columns literals <;> simp [eq_comm]

theorem Each.appendRow {literals : List Text} (h : relation.Each P)
    (happend : (appendRow literals).apply relation = (.ok (), extended))
    (hcell : ∀ column ∈ relation.columns, ∀ literal ∈ literals, ∀ value,
      readCell column literal = .ok value → P column value) : extended.Each P := by
  obtain ⟨row, hread, rfl⟩ := appendRow_eq_ok_iff.1 happend
  intro other hother
  rcases List.mem_append.1 hother with hother | hother
  · exact h other hother
  · rw [List.mem_singleton.1 hother]
    exact forall₂_of_readRow hread hcell

theorem appendRow_header {literals : List Text}
    (h : (appendRow literals).apply relation = (.ok (), extended)) :
    extended.name = relation.name ∧ extended.columns = relation.columns := by
  obtain ⟨row, -, rfl⟩ := appendRow_eq_ok_iff.1 h
  exact ⟨rfl, rfl⟩

/-! ## Table files -/

theorem ofFile_encode (file name t : Text) :
    ofFile file name (some (Text.encode t)) = ofLines file name t.lines := by
  rw [ofFile, Option.bind_some, Text.decode_encode]

theorem ofLines_eq_ok {file name header : Text} {lines : List Text} :
    ofLines file name (header :: lines) = .ok relation ↔ header.isBlankOnly = false ∧
      ∃ columns rows, (header.splitOn ',').mapM Column.read = .ok columns ∧
        ((lines.filter fun line => !line.isBlankOnly).map Text.fields).mapM (readRow columns) =
          .ok rows ∧ relation = ⟨name, columns, rows⟩ := by
  unfold ofLines
  by_cases hblank : header.isBlankOnly
  · simp [hblank]
  · simp only [hblank, Bool.false_eq_true, if_false, true_and, Column.readAll_eq_mapM,
      Outcome.bind_eq_ok, appendLines, appendRows, pure, Except.pure, Except.ok.injEq,
      List.nil_append]
    constructor
    · rintro ⟨columns, hcolumns, rows, hrows, rfl⟩
      exact ⟨columns, rows, hcolumns, hrows, rfl⟩
    · rintro ⟨columns, rows, hcolumns, hrows, rfl⟩
      exact ⟨columns, hcolumns, rows, hrows, rfl⟩

theorem ofFile_eq_ok {file name : Text} {content : Option Bytes} :
    ofFile file name content = .ok relation ↔ ∃ t header lines,
      content.bind Text.decode = some t ∧ t.lines = header :: lines ∧
        ofLines file name (header :: lines) = .ok relation := by
  unfold ofFile
  cases content.bind Text.decode with
  | none => simp
  | some t =>
      cases hlines : t.lines with
      | nil => simp [hlines, ofLines]
      | cons header lines => simp [hlines]

/-- The cells of a table that is read come from fields of its file. -/
theorem each_of_ofLines {file name header : Text} {lines : List Text}
    (h : ofLines file name (header :: lines) = .ok relation)
    (hcell : ∀ column ∈ relation.columns, ∀ line ∈ lines, ∀ literal ∈ line.fields, ∀ value,
      readCell column literal = .ok value → P column value) : relation.Each P := by
  obtain ⟨-, columns, rows, -, hrows, rfl⟩ := ofLines_eq_ok.1 h
  intro row hrow
  obtain ⟨literals, hliterals, hread⟩ := Outcome.exists_of_mem_mapM hrows hrow
  obtain ⟨line, hline, rfl⟩ := List.mem_map.1 hliterals
  exact forall₂_of_readRow hread fun column hcolumn literal hliteral value =>
    hcell column hcolumn line (List.mem_filter.1 hline).1 literal hliteral value

end Relation

end Relata
