import Relata.Proofs.Storage.RoundTrip
import Relata.Proofs.Storage.Tree
import Relata.Storage.FileRequest

/-!
# Relations that their files hold exactly

A relation without floats, with words as the names of its columns and with texts that a file
can hold, is given back as it was by loading the file that it is written to.
-/

namespace Relata

instance (t : Text) : Decidable t.InField :=
  decidable_of_iff (',' ∉ t ∧ '\n' ∉ t) ⟨fun h => ⟨h.1, h.2⟩, fun h => ⟨h.comma, h.lineFeed⟩⟩

instance (t : Text) : Decidable (Value.CleanText t) :=
  decidable_of_iff (t.InField ∧ t.head? ≠ some '\'' ∧ t.getLast? ≠ some '\'')
    ⟨fun h => ⟨h.1, h.2.1, h.2.2⟩, fun h => ⟨h.inField, h.head, h.last⟩⟩

instance : (value : Value) → Decidable value.Clean
  | .text t => decidable_of_iff (Value.CleanText t) (by simp [Value.Clean])
  | .int _ => isTrue nofun
  | .float _ => isTrue nofun
  | .nan => isTrue nofun
  | .noValue => isTrue nofun

namespace Relation

/-- No blank and no comma in the names of columns, and in every cell what fits and is no float. -/
structure Exact (relation : Relation) : Prop where
  columns_ne_nil : relation.columns ≠ []
  names : ∀ column ∈ relation.columns,
    column.name ≠ [] ∧ ∀ c ∈ column.name, Text.isBlank c = false ∧ c ≠ ','
  cells : relation.Each fun column value =>
    value.fits column.type = true ∧ value.dataType? ≠ some .float ∧ value.Clean

instance (relation : Relation) : Decidable relation.Exact :=
  decidable_of_iff
    (relation.columns ≠ [] ∧
      (∀ column ∈ relation.columns,
        column.name ≠ [] ∧ column.name.all (fun c => !Text.isBlank c && c != ',') = true) ∧
      relation.Each fun column value =>
        value.fits column.type = true ∧ value.dataType? ≠ some .float ∧ value.Clean)
    ⟨fun ⟨hne, hnames, hcells⟩ => ⟨hne, by simpa using hnames, hcells⟩,
      fun h => ⟨h.columns_ne_nil, by simpa using h.names, h.cells⟩⟩

variable {relation : Relation}

theorem Exact.writable (h : relation.Exact) : relation.Writable where
  columns_ne_nil := h.columns_ne_nil
  names column hcolumn := by
    have hname := (h.names column hcolumn).2
    exact ⟨fun hcomma => (hname _ hcomma).2 rfl,
      fun hfeed => absurd (hname _ hfeed).1 (by decide)⟩
  cells := h.cells.imp fun _ _ hcell => hcell.2.2

theorem Exact.words_name (h : relation.Exact) {column : Column}
    (hcolumn : column ∈ relation.columns) : column.name.words = [column.name] := by
  obtain ⟨hne, hname⟩ := h.names column hcolumn
  exact Text.words_of_forall hne fun c hc => (hname c hc).1

theorem Exact.readRow_write (h : relation.Exact) {row : Row} (hrow : row ∈ relation.rows) :
    readRow relation.columns (row.map Value.write) = .ok row := by
  have hcells : List.Forall₂ (fun column value => readCell column value.write = .ok (id value))
      relation.columns row := by
    refine (h.cells row hrow).imp fun column value hcell => ?_
    obtain ⟨hfits, hfloat, hclean⟩ := hcell
    refine readCell_eq_ok.2 ⟨hclean.read_write fun x hx => hfloat ?_, hfits⟩
    rw [hx]
    rfl
  rw [Relation.readRow_write hcells, List.map_id]

theorem Exact.ofFile_write (h : relation.Exact) (file : Text) :
    ofFile file relation.name (some (Text.encode relation.write)) = .ok relation := by
  have hrows : relation.rows.mapM (fun row => readRow relation.columns (row.map Value.write)) =
      .ok (relation.rows.map id) :=
    Outcome.mapM_of_forall fun row hrow => h.readRow_write hrow
  rw [h.writable.ofFile_write, Column.mapM_read_write fun column hcolumn => h.words_name hcolumn]
  simp only [hrows, List.map_id, bind, Except.bind, pure, Except.pure]

/-- A file that holds the text of a relation is loaded as it, also right after a store. -/
theorem load_write (settings : FileSettings) {relation : Relation} (h : relation.Exact) :
    (∀ files : FileTree,
      files.read (settings.path relation.name) = some (Text.encode relation.write) →
        ((load settings relation.name).answer files).1 = .ok relation) ∧
    ∀ files stored, (store settings relation).answer files = (.ok (), stored) →
      ((load settings relation.name).answer stored).1 = .ok relation := by
  have hload {files : FileTree}
      (hfile : files.read (settings.path relation.name) = some (Text.encode relation.write)) :
      ((load settings relation.name).answer files).1 = .ok relation := by
    rw [load, FileRequest.answer, hfile]
    exact h.ofFile_write _
  refine ⟨fun files hfile => hload hfile, fun files stored hstore => hload ?_⟩
  rcases hwrite : files.write (settings.path relation.name) (Text.encode relation.write) with
    ⟨written, after⟩
  rw [store, FileRequest.answer, hwrite] at hstore
  cases written with
  | false => cases hstore
  | true =>
      cases hstore
      exact FileTree.read_write hwrite

/-- The bounds of the integers, the markers, and texts with blanks, quotes and returns. -/
def extremes : Relation where
  name := ['t']
  columns := [⟨['n'], .int⟩, ⟨['x'], .float⟩, ⟨['s'], .string⟩, ⟨['n'], .string⟩]
  rows := [[.int Int64.minValue, .nan, .text [], .text " it's ".toList],
    [.int Int64.maxValue, .noValue, .text ['\r'], .noValue]]

theorem load_write_extremes :
    let files : FileTree := ⟨[(["t.tbl".toList], .file (Text.encode extremes.write))], []⟩
    extremes.Exact ∧
      files.read (FileSettings.default.path ['t']) = some (Text.encode extremes.write) ∧
        (store .default extremes).answer .empty = (.ok (), files) ∧
          ((load .default ['t']).answer files).1 = .ok extremes := by
  intro files
  have h : extremes.Exact := by decide
  have hfile : files.read (FileSettings.default.path ['t']) =
      some (Text.encode extremes.write) := by decide +kernel
  have hstore : (store .default extremes).answer .empty = (.ok (), files) := by decide +kernel
  exact ⟨h, hfile, hstore, (load_write .default h).1 files hfile⟩

end Relation

end Relata
