import Relata.Proofs.InRange
import Relata.Proofs.Relation.Rows
import Relata.Proofs.Text.Returns
import Relata.Storage.FileRequest

/-!
# What a load gives

A file is a table exactly if its first line defines columns and each later line with content
has a literal for each of them. The table then has a row for each of these lines. Any other
file is told by the first fault in it: of the first line, of a definition in it, or of the
first line that is no row, where the number of its fields counts before the fields.
-/

namespace Relata

/-- The first of some items that is at fault, and its failure; those before it are sound. -/
def FirstFault (Sound : α → Prop) (Fault : α → Error → Prop) (items : List α) (e : Error) : Prop :=
  ∃ before item after, items = before ++ item :: after ∧ (∀ other ∈ before, Sound other) ∧
    Fault item e

namespace Outcome

variable {f : α → Except Error β} {R : α → β → Prop} {Fault : α → Error → Prop} {xs : List α}

/-- A traversal tells the first fault of its list. -/
theorem mapM_eq_error_iff (hok : ∀ x y, f x = .ok y ↔ R x y)
    (herror : ∀ x e, f x = .error e ↔ Fault x e) {e : Error} :
    xs.mapM f = .error e ↔ FirstFault (fun x => ∃ y, R x y) Fault xs e := by
  simp only [mapM_eq_error, hok, herror, FirstFault]

end Outcome

/-! ## Definitions -/

namespace DataType

theorem ofWord?_eq_some_iff {word : Text} {type : DataType} :
    ofWord? word = some type ↔ word = type.word := by
  constructor
  · intro h
    have hword : type.word = word := by simpa using List.find?_some h
    exact hword.symm
  · rintro rfl
    exact ofWord?_word type

theorem ofWord?_eq_none_iff {word : Text} :
    ofWord? word = none ↔ ∀ type : DataType, word ≠ type.word := by
  rw [Option.eq_none_iff_forall_ne_some]
  exact forall_congr' fun type => not_congr ofWord?_eq_some_iff

end DataType

namespace Column

/-- A definition is two words: the name of a column and the word for its type. -/
def Defines (definition : Text) (column : Column) : Prop :=
  definition.words = [column.name, column.type.word]

/-- Why a text is no definition: it is not two words, or the second is no type. -/
inductive Misdefines (definition : Text) : Error → Prop
  | words (h : definition.words.length ≠ 2) : Misdefines definition .malformedColumn
  | type {name word : Text} (h : definition.words = [name, word])
      (unknown : ∀ type : DataType, word ≠ type.word) :
      Misdefines definition (.unknownType word)

variable {definition : Text}

theorem read_eq_ok_iff (definition : Text) (column : Column) :
    read definition = .ok column ↔ Defines definition column := by
  simp only [read_eq_ok, DataType.ofWord?_eq_some_iff, Defines, exists_eq_right]

theorem read_eq_error_iff (definition : Text) (e : Error) :
    read definition = .error e ↔ Misdefines definition e := by
  unfold read
  split
  · rename_i name word hwords
    split
    · rename_i type htype
      rw [DataType.ofWord?_eq_some_iff] at htype
      refine iff_of_false nofun fun h => ?_
      cases h with
      | words h => exact h (by rw [hwords]; rfl)
      | type h unknown =>
          rw [hwords] at h
          cases h
          exact unknown type htype
    · rename_i htype
      rw [DataType.ofWord?_eq_none_iff] at htype
      constructor
      · rintro ⟨⟩
        exact .type hwords htype
      · intro h
        cases h with
        | words h => exact absurd (by rw [hwords]; rfl) h
        | type h unknown =>
            rw [hwords] at h
            cases h
            rfl
  · rename_i hwords
    constructor
    · rintro ⟨⟩
      refine .words fun hlength => ?_
      obtain ⟨name, word, h⟩ := List.length_eq_two.1 hlength
      exact hwords name word h
    · intro h
      cases h with
      | words h => rfl
      | type h unknown => exact absurd h (hwords _ _)

end Column

namespace Relation

/-! ## Rows -/

/-- A literal denotes a value that may stand in its column. -/
def Enters (item : Column × Text) (value : Value) : Prop :=
  Value.read item.2 = .ok value ∧ value.fits item.1.type = true

/-- Why a literal cannot be entered: it denotes nothing, or a value of another type. -/
inductive Misenters (item : Column × Text) : Error → Prop
  | unknown (h : ∀ value, Value.read item.2 ≠ .ok value) :
      Misenters item (.unknownLiteral item.2)
  | type {value : Value} (h : Value.read item.2 = .ok value)
      (misfit : value.fits item.1.type = false) : Misenters item (.wrongType item.2 item.1.type)

/-- The fields of a line are literals for the columns, one for each. -/
def IsRow (columns : List Column) (line : Text) (row : Row) : Prop :=
  line.fields.length = columns.length ∧ List.Forall₂ Enters (columns.zip line.fields) row

/-- Why a line is no row: the number of its fields, or else the first of them at fault. -/
inductive Misfits (columns : List Column) (line : Text) : Error → Prop
  | arity (h : line.fields.length ≠ columns.length) : Misfits columns line .wrongArity
  | field {e : Error} (h : line.fields.length = columns.length)
      (first : FirstFault (fun item => ∃ value, Enters item value) Misenters
        (columns.zip line.fields) e) : Misfits columns line e

theorem readCell_eq_ok_iff (item : Column × Text) (value : Value) :
    readCell item.1 item.2 = .ok value ↔ Enters item value :=
  readCell_eq_ok

theorem readCell_eq_error_iff (item : Column × Text) (e : Error) :
    readCell item.1 item.2 = .error e ↔ Misenters item e := by
  unfold readCell
  cases hread : Value.read item.2 with
  | error e' =>
      obtain rfl := Value.failsOnly_read item.2 e' hread
      constructor
      · rintro ⟨⟩
        exact .unknown fun value hvalue => nomatch hread.symm.trans hvalue
      · intro h
        cases h with
        | unknown => rfl
        | type h => cases hread.symm.trans h
  | ok value =>
      simp only [bind, Except.bind, pure, Except.pure]
      split
      · rename_i hfits
        refine iff_of_false nofun fun h => ?_
        cases h with
        | unknown h => exact h value hread
        | type h misfit =>
            cases hread.symm.trans h
            rw [hfits] at misfit
            cases misfit
      · rename_i hfits
        constructor
        · rintro ⟨⟩
          exact .type hread (by simpa using hfits)
        · intro h
          cases h with
          | unknown h => exact absurd hread (h value)
          | type => rfl

theorem readRow_eq_ok_iff (columns : List Column) (line : Text) (row : Row) :
    readRow columns line.fields = .ok row ↔ IsRow columns line row := by
  simp only [readRow_eq_ok, readCell_eq_ok_iff, IsRow]

theorem readRow_eq_error_iff (columns : List Column) (line : Text) (e : Error) :
    readRow columns line.fields = .error e ↔ Misfits columns line e := by
  unfold readRow
  split
  · rename_i hlength
    rw [Outcome.mapM_eq_error_iff readCell_eq_ok_iff readCell_eq_error_iff]
    refine ⟨.field hlength, fun h => ?_⟩
    cases h with
    | arity h => exact absurd hlength h
    | field _ first => exact first
  · rename_i hlength
    constructor
    · rintro ⟨⟩
      exact .arity hlength
    · intro h
      cases h with
      | arity => rfl
      | field h => exact absurd h hlength

/-! ## Files -/

/-- The lines that hold more than blanks. -/
def filled (lines : List Text) : List Text :=
  lines.filter fun line => !line.isBlankOnly

/-- What stands in a file: the columns in its first line, a row in each later line with content. -/
def IsTable (t : Text) (columns : List Column) (rows : List Row) : Prop :=
  ∃ header lines, t.lines = header :: lines ∧ header.isBlankOnly = false ∧
    List.Forall₂ Column.Defines (header.splitOn ',') columns ∧
      List.Forall₂ (IsRow columns) (filled lines) rows

/--
What a file must be to be read: a first line of definitions, and in each later line that is
not blank as many fields as columns, each with a value for its column.
-/
def Readable (t : Text) : Prop :=
  ∃ header lines columns, t.lines = header :: lines ∧ header.isBlankOnly = false ∧
    List.Forall₂ Column.Defines (header.splitOn ',') columns ∧
      ∀ line ∈ lines, line.isBlankOnly = false → line.fields.length = columns.length ∧
        ∀ item ∈ columns.zip line.fields, ∃ value, Enters item value

/-- Why a file is no table. -/
inductive Unreadable (file t : Text) : Error → Prop
  | header (h : ∀ header lines, t.lines = header :: lines → header.isBlankOnly = true) :
      Unreadable file t (.cannotParse file)
  | definition {header : Text} {lines : List Text} {e : Error} (h : t.lines = header :: lines)
      (full : header.isBlankOnly = false)
      (first : FirstFault (fun definition => ∃ column, Column.Defines definition column)
        Column.Misdefines (header.splitOn ',') e) : Unreadable file t e
  | line {header : Text} {lines : List Text} {columns : List Column} {e : Error}
      (h : t.lines = header :: lines) (full : header.isBlankOnly = false)
      (defined : List.Forall₂ Column.Defines (header.splitOn ',') columns)
      (first : FirstFault (fun line => ∃ row, IsRow columns line row) (Misfits columns)
        (filled lines) e) : Unreadable file t e

section File

variable {file name header t : Text} {lines others : List Text} {columns : List Column}
  {relation : Relation} {e : Error}

theorem mapM_read_eq_ok_iff : (header.splitOn ',').mapM Column.read = .ok columns ↔
    List.Forall₂ Column.Defines (header.splitOn ',') columns := by
  simp only [Outcome.mapM_eq_ok, Column.read_eq_ok_iff]

theorem mapM_readRow_eq_ok_iff {rows : List Row} :
    ((filled lines).map Text.fields).mapM (readRow columns) = .ok rows ↔
      List.Forall₂ (IsRow columns) (filled lines) rows := by
  simp only [List.mapM_map, Outcome.mapM_eq_ok, Function.comp_apply, readRow_eq_ok_iff]

theorem ofLines_eq_error (full : header.isBlankOnly = false) :
    ofLines file name (header :: lines) = .error e ↔
      (header.splitOn ',').mapM Column.read = .error e ∨ ∃ columns,
        (header.splitOn ',').mapM Column.read = .ok columns ∧
          ((filled lines).map Text.fields).mapM (readRow columns) = .error e := by
  simp only [ofLines, full, Bool.false_eq_true, if_false, Column.readAll_eq_mapM,
    Outcome.bind_eq_error, appendLines, appendRows, pure, Except.pure, reduceCtorEq, and_false,
    exists_false, or_false]
  exact Iff.rfl

theorem ofLines_eq_ok_iff : ofLines file name t.lines = .ok relation ↔
    relation.name = name ∧ IsTable t relation.columns relation.rows := by
  unfold IsTable
  cases hlines : t.lines with
  | nil => simp [ofLines]
  | cons header lines =>
      rw [ofLines_eq_ok]
      constructor
      · rintro ⟨hfull, columns, rows, hcolumns, hrows, rfl⟩
        exact ⟨rfl, header, lines, rfl, hfull, mapM_read_eq_ok_iff.1 hcolumns,
          mapM_readRow_eq_ok_iff.1 hrows⟩
      · rintro ⟨rfl, _, _, ⟨⟩, hfull, hcolumns, hrows⟩
        exact ⟨hfull, _, _, mapM_read_eq_ok_iff.2 hcolumns, mapM_readRow_eq_ok_iff.2 hrows, rfl⟩

theorem unreadable_iff_of_noHeader
    (h : ∀ header lines, t.lines = header :: lines → header.isBlankOnly = true) :
    Unreadable file t e ↔ e = .cannotParse file := by
  constructor
  · intro hfault
    cases hfault with
    | header => rfl
    | definition hlines full => cases (h _ _ hlines).symm.trans full
    | line hlines full => cases (h _ _ hlines).symm.trans full
  · rintro rfl
    exact .header h

theorem unreadable_iff_of_header (h : t.lines = header :: lines)
    (full : header.isBlankOnly = false) : Unreadable file t e ↔
      FirstFault (fun definition => ∃ column, Column.Defines definition column)
        Column.Misdefines (header.splitOn ',') e ∨
      ∃ columns, List.Forall₂ Column.Defines (header.splitOn ',') columns ∧
        FirstFault (fun line => ∃ row, IsRow columns line row) (Misfits columns)
          (filled lines) e := by
  constructor
  · intro hfault
    cases hfault with
    | header hblank => cases (hblank _ _ h).symm.trans full
    | definition hlines _ first =>
        cases h.symm.trans hlines
        exact .inl first
    | line hlines _ defined first =>
        cases h.symm.trans hlines
        exact .inr ⟨_, defined, first⟩
  · rintro (first | ⟨columns, defined, first⟩)
    · exact .definition h full first
    · exact .line h full defined first

theorem ofLines_eq_error_iff : ofLines file name t.lines = .error e ↔ Unreadable file t e := by
  cases hlines : t.lines with
  | nil =>
      rw [unreadable_iff_of_noHeader fun header lines h => nomatch hlines.symm.trans h]
      simp only [ofLines, Except.error.injEq, eq_comm]
  | cons header lines =>
      by_cases hblank : header.isBlankOnly = true
      · have hall : ∀ first rest, t.lines = first :: rest → first.isBlankOnly = true := by
          intro first rest h
          cases hlines.symm.trans h
          exact hblank
        rw [unreadable_iff_of_noHeader hall]
        simp only [ofLines, hblank, if_true, Except.error.injEq, eq_comm]
      · have full : header.isBlankOnly = false := by simpa using hblank
        rw [unreadable_iff_of_header hlines full, ofLines_eq_error full,
          Outcome.mapM_eq_error_iff Column.read_eq_ok_iff Column.read_eq_error_iff]
        refine or_congr_right (exists_congr fun columns => and_congr mapM_read_eq_ok_iff ?_)
        rw [List.mapM_map]
        exact Outcome.mapM_eq_error_iff (readRow_eq_ok_iff columns) (readRow_eq_error_iff columns)

theorem exists_isTable_iff : (∃ columns rows, IsTable t columns rows) ↔ Readable t := by
  have hrows {columns : List Column} {lines : List Text} :
      (∃ rows, List.Forall₂ (IsRow columns) (filled lines) rows) ↔
        ∀ line ∈ lines, line.isBlankOnly = false → line.fields.length = columns.length ∧
          ∀ item ∈ columns.zip line.fields, ∃ value, Enters item value := by
    simp only [Outcome.exists_forall₂_iff, IsRow, exists_and_left, filled, List.mem_filter,
      Bool.not_eq_true', and_imp]
  constructor
  · rintro ⟨columns, rows, header, lines, hlines, full, defined, hfilled⟩
    exact ⟨header, lines, columns, hlines, full, defined, hrows.1 ⟨rows, hfilled⟩⟩
  · rintro ⟨header, lines, columns, hlines, full, defined, hall⟩
    obtain ⟨rows, hfilled⟩ := hrows.2 hall
    exact ⟨columns, rows, header, lines, hlines, full, defined, hfilled⟩

/-! ## Lines that are read alike -/

theorem readAll_congr {definitions others : List Text}
    (h : definitions.map Text.words = others.map Text.words) :
    Column.readAll definitions = Column.readAll others := by
  induction definitions generalizing others with
  | nil =>
      obtain rfl := List.map_eq_nil_iff.1 h.symm
      rfl
  | cons definition definitions ih =>
      obtain ⟨other, rest, rfl, hother, hrest⟩ := List.map_eq_cons_iff.1 h.symm
      rw [Column.readAll, Column.readAll, Column.read, Column.read, hother, ih hrest.symm]

theorem map_fields_filled_congr (h : List.Forall₂ Text.ReadAlike lines others) :
    (filled lines).map Text.fields = (filled others).map Text.fields := by
  induction h with
  | nil => rfl
  | cons hline _ ih =>
      simp only [filled, List.filter_cons, hline.isBlankOnly] at ih ⊢
      split
      · rw [List.map_cons, List.map_cons, hline.fields, ih]
      · exact ih

theorem ofLines_congr (h : List.Forall₂ Text.ReadAlike lines others) :
    ofLines file name lines = ofLines file name others := by
  cases h with
  | nil => rfl
  | cons hheader hrest =>
      have hrows := map_fields_filled_congr hrest
      simp only [filled] at hrows
      simp only [ofLines, appendLines, hheader.isBlankOnly, readAll_congr hheader.words, hrows]

/-! ## Loads -/

theorem answer_load {settings : FileSettings} {files : FileTree}
    (hfile : files.read (settings.path name) = some (Text.encode t)) :
    (load settings name).answer files = (ofLines (settings.fileName name) name t.lines, files) := by
  rw [load, FileRequest.answer, hfile, ofFile_encode]

/--
A load gives the table that stands in its file, and fails exactly if there is none, with the
first fault in the file. Carriage returns before the line feeds make no difference.
-/
theorem load_outcome (settings : FileSettings) (files : FileTree) (name t : Text)
    (hfile : files.read (settings.path name) = some (Text.encode t)) :
    ((∃ relation, ((load settings name).answer files).1 = .ok relation) ↔ Readable t) ∧
    (∀ relation, ((load settings name).answer files).1 = .ok relation ↔
      relation.name = name ∧ IsTable t relation.columns relation.rows) ∧
    (∀ e, ((load settings name).answer files).1 = .error e ↔
      Unreadable (settings.fileName name) t e) ∧
    ∀ other : FileTree, other.read (settings.path name) = some (Text.encode t.withReturns) →
      ((load settings name).answer other).1 = ((load settings name).answer files).1 := by
  rw [answer_load hfile]
  have hok (relation : Relation) :
      ofLines (settings.fileName name) name t.lines = .ok relation ↔
        relation.name = name ∧ IsTable t relation.columns relation.rows := ofLines_eq_ok_iff
  refine ⟨?_, hok, fun e => ofLines_eq_error_iff, fun other hother => ?_⟩
  · rw [← exists_isTable_iff]
    constructor
    · rintro ⟨relation, hrelation⟩
      exact ⟨relation.columns, relation.rows, ((hok relation).1 hrelation).2⟩
    · rintro ⟨columns, rows, htable⟩
      exact ⟨⟨name, columns, rows⟩, (hok _).2 ⟨rfl, htable⟩⟩
  · rw [answer_load hother]
    exact ofLines_congr (Text.forall₂_lines_withReturns t)

end File

def treeOf (t : Text) : FileTree :=
  ⟨[(["t.tbl".toList], .file (Text.encode t))], []⟩

/-- A row, a line of blanks, a line with a field of another type, and one without a field. -/
def twoFaults : Text :=
  "a int,b string\n1, 'x'\n \n2.5,'y'\n3".toList

theorem load_outcome_twoFaults :
    let e : Error := .wrongType "2.5".toList .int
    let loaded (t : Text) := ((load .default ['t']).answer (treeOf t)).1
    (treeOf twoFaults).read (FileSettings.default.path ['t']) = some (Text.encode twoFaults) ∧
      ¬Readable twoFaults ∧ Unreadable "t.tbl".toList twoFaults e ∧
        loaded twoFaults = .error e ∧ loaded twoFaults.withReturns = .error e := by
  intro e loaded
  have hfile : (treeOf twoFaults).read (FileSettings.default.path ['t']) =
      some (Text.encode twoFaults) := by decide +kernel
  have hother : (treeOf twoFaults.withReturns).read (FileSettings.default.path ['t']) =
      some (Text.encode twoFaults.withReturns) := by decide +kernel
  have hloaded : loaded twoFaults = .error e := by decide +kernel
  obtain ⟨hreadable, -, herror, hreturns⟩ := load_outcome .default _ ['t'] twoFaults hfile
  refine ⟨hfile, fun h => ?_, (herror e).1 hloaded, hloaded, (hreturns _ hother).trans hloaded⟩
  obtain ⟨relation, hrelation⟩ := hreadable.2 h
  cases hloaded.symm.trans hrelation

end Relation

end Relata
