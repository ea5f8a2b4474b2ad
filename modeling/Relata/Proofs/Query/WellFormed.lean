import Relata.Proofs.Query.Operators
import Relata.Proofs.Query.Parts

/-!
# What the statements of queries have in common

Whatever the query, the table names of its statement are plain words, a created table has
columns, a select has tables and targets, and names, labels and literals can stand in a
field of a table file.
-/

namespace Relata

theorem Column.inField_name {definition : Text} {column : Column} (hcomma : ',' ∉ definition)
    (h : Column.read definition = .ok column) : column.name.InField := by
  obtain ⟨word, hwords, -⟩ := Column.read_eq_ok.1 h
  obtain ⟨-, hname⟩ := Text.mem_words (hwords ▸ List.mem_cons_self)
  exact ⟨fun h => hcomma (hname _ h).1, fun h => absurd (hname _ h).2 (by decide)⟩

/-- A computed column whose alias and right operand can stand in a field. -/
def Target.WellFormed : Target → Prop
  | .column _ => True
  | .computed _ _ right label => right.InField ∧ label.InField

/-- A select with tables, and with targets unless it takes all columns. -/
structure Select.WellFormed (query : Select) : Prop where
  tables : query.tables ≠ []
  targets : ∀ targets, query.projection = .targets targets → targets ≠ [] ∧
    ∀ target ∈ targets, target.WellFormed

/-- A statement whose names and literals can stand in a table file. -/
def Statement.WellFormed : Statement → Prop
  | .createTable name columns => Scan.isWord name = true ∧ columns ≠ [] ∧
      ∀ column ∈ columns, column.name.InField
  | .createFrom name query => Scan.isWord name = true ∧ query.WellFormed
  | .load name => Scan.isWord name = true
  | .store name => Scan.isWord name = true
  | .drop name => Scan.isWord name = true
  | .insert table literals => Scan.isWord table = true ∧ ∀ literal ∈ literals, literal.InField
  | .print name => Scan.isWord name = true
  | .select query => query.WellFormed

theorem Target.wellFormed_read {piece : Text} {target : Target} (hpiece : piece.InField)
    (h : Target.read piece = .ok target) : target.WellFormed := by
  unfold Target.read at h
  split at h
  · rename_i expression label others hsplit
    have hpart {part : Text} (hpart : part ∈ piece.splitAround " as ".toList) : part.InField :=
      hpiece.mono fun _ hc => (Text.infix_of_mem_splitAround (by decide) hpart).subset hc
    split at h
    · rename_i op hop
      cases h
      obtain ⟨-, -, hright⟩ := Text.operands_of_find? (fun other _ => other.symbol_ne_nil) hop
      have hexpression : expression.InField := hpart (hsplit ▸ by simp)
      exact ⟨hexpression.mono fun _ hc => hright.subset hc, (hpart (hsplit ▸ by simp)).trim⟩
    · cases h
  · cases h
    trivial

namespace Reading

variable {r : Reading} {tokens : List Token}

theorem Selects.wellFormed {query : Select} (h : r.Selects tokens query) (hfeed : '\n' ∉ r.source) :
    query.WellFormed := by
  refine ⟨h.tables_ne_nil, fun targets htargets => ?_⟩
  refine h.forall_targets htargets fun piece hpiece hcomma _ target hread => ?_
  have hfield : '\n' ∉ piece.trim := fun hmem =>
    hfeed (hpiece.subset (Text.mem_of_mem_trimWhere hmem))
  exact Target.wellFormed_read ⟨hcomma, hfield⟩ hread

theorem Reads.wellFormed {statement : Statement} (h : r.Reads statement)
    (hfeed : '\n' ∉ r.source) : statement.WellFormed := by
  cases h with
  | createTable word tiles read =>
      obtain ⟨hne, hwords⟩ := columns_spec tiles read
      exact ⟨word, hne, fun column hcolumn => Text.inField_of_isWord (hwords column hcolumn)⟩
  | createFrom word _ selects => exact ⟨word, selects.wellFormed hfeed⟩
  | load word => exact word
  | store word => exact word
  | drop word => exact word
  | insert word cut =>
      refine ⟨word, fun literal hliteral => ?_⟩
      exact Text.inField_of_mem_fields
        (fun hmem => hfeed ((isSuffix_of_cutToEnd cut).subset hmem)) hliteral
  | print word => exact word
  | select _ selects => exact selects.wellFormed hfeed

end Reading

theorem Statement.wellFormed_read {query : Text} {statement : Statement}
    (h : Statement.read query = .ok statement) : statement.WellFormed := by
  obtain ⟨r, hsource, -, hreads⟩ := Statement.exists_reads h
  refine hreads.wellFormed ?_
  rw [hsource]
  intro hfeed
  rcases Text.mem_collapse hfeed with h | h
  · exact absurd h (by decide)
  · exact absurd h (by decide)

end Relata
