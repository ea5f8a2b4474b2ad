import Mathlib.Data.List.Forall2
import Relata.Proofs.Query.Coverage
import Relata.Proofs.Query.Operators
import Relata.Proofs.Query.Parts

/-!
# What holds of every statement that is read

Names are words, lists are not empty, labels are trimmed and can stand in a field, and no
operand holds what its expression or condition was divided at. Names have this from the
kinds of tokens, labels from the collapsed text, and operands from the search for signs.
-/

namespace Relata

namespace Text

variable {t label : Text}

/-- A name: it is not empty and has no blank, comma, parenthesis or quote. -/
structure IsName (t : Text) : Prop where
  ne_nil : t ≠ []
  plain : ∀ c ∈ t, ¬ Scan.Separates c

/-- A label: it is not empty, has no blank at an end, and has no comma and no line feed. -/
structure IsLabel (t : Text) : Prop where
  ne_nil : t ≠ []
  trimmed : t.trim = t
  inField : t.InField

theorem isName_of_isWord (h : Scan.isWord t = true) : t.IsName where
  ne_nil := by
    rintro rfl
    cases h
  plain _ hc hseparates := Scan.not_mem_of_isWord h (Scan.endsWord_iff.2 hseparates) hc

theorem IsPhrase.isLabel (h : t.IsPhrase) (hcomma : ',' ∉ t) : t.IsLabel where
  ne_nil := h.ne_nil
  trimmed := h.tidy.trim
  inField := ⟨hcomma, fun hfeed => absurd (h.tidy.space _ hfeed (by decide)) (by decide)⟩

theorem Tidy.trim_ne_nil_of_splitAround {word first : Text} {others : List Text} (h : Tidy t)
    (hsplit : t.splitAround (separator word) = first :: label :: others) : label.trim ≠ [] := by
  obtain ⟨rest, hwhole, hrest⟩ := exists_of_splitAround_cons_cons (List.cons_ne_nil _ _) hsplit
  have hafter : t = (first ++ ' ' :: word) ++ ' ' :: (label ++ rest) := by
    simp [hwhole]
  rw [hafter] at h
  have htidy := h.of_append_cons (by decide)
  cases label with
  | cons c label => exact trim_ne_nil List.mem_cons_self (htidy.head c rfl)
  | nil =>
      rw [List.nil_append] at h htidy
      by_cases hnil : rest = []
      · exact absurd (h.last ' ' (by rw [hnil, List.getLast?_concat])) (by decide)
      · obtain ⟨after, rfl⟩ := hrest hnil
        exact absurd (htidy.head ' ' rfl) (by decide)

end Text

/-! ## Columns -/

/-- A column by a label, or computed from operands without a sign searched for up to its own. -/
def Target.Regular : Target → Prop
  | .column name => name.IsLabel
  | .computed left op right label =>
      (∀ sign ∈ op.sought, ¬ sign <:+: left ∧ ¬ sign <:+: right) ∧ label.IsLabel

theorem Target.regular_read {piece : Text} {target : Target} (hpiece : piece.IsPhrase)
    (hcomma : ',' ∉ piece) (h : Target.read piece = .ok target) : target.Regular := by
  have hunambiguous := Target.unambiguous_read hcomma h
  unfold Target.read at h
  rw [separator_as] at h
  split at h
  · rename_i expression label others hsplit
    split at h
    · cases h
      refine ⟨hunambiguous.1, hpiece.tidy.trim_ne_nil_of_splitAround hsplit,
        Text.trimWhere_trimWhere _ _, ?_⟩
      have hlabel := Text.infix_of_mem_splitAround (List.cons_ne_nil _ _)
        (hsplit ▸ List.mem_cons_of_mem expression List.mem_cons_self)
      exact ((hpiece.isLabel hcomma).inField.mono fun c hc => hlabel.subset hc).trim
    · cases h
  · cases h
    exact hpiece.isLabel hcomma

/-! ## Conditions -/

/-- A condition whose operands hold neither ` and ` nor the spelling at which it was divided. -/
structure Condition.DividedFrom (conjunct : Text) (condition : Condition) : Prop where
  read : Condition.read conjunct = .ok condition
  spelling : ∃ spelling, Comparison.find? conjunct = some (spelling, condition.op) ∧
    ¬ spelling <:+: condition.left ∧ ¬ spelling <:+: condition.right
  not_and : ¬ " and ".toList <:+: condition.left ∧ ¬ " and ".toList <:+: condition.right

theorem Condition.dividedFrom_of_read {conjunct : Text} {condition : Condition}
    (hand : ¬ " and ".toList <:+: conjunct) (h : Condition.read conjunct = .ok condition) :
    condition.DividedFrom conjunct := by
  obtain ⟨spelling, hfind, hsigns, ⟨-, hleft⟩, -, hright⟩ := exists_spelling_of_read h
  exact ⟨h, ⟨spelling, hfind, hsigns spelling Text.mem_soughtUpTo_self⟩,
    fun hin => hand (hin.trans hleft), fun hin => hand (hin.trans hright)⟩

theorem Condition.forall₂_dividedFrom {clause : Text} {conditions : List Condition}
    (h : Condition.readAll clause = .ok conditions) :
    List.Forall₂ DividedFrom (clause.splitAround " and ".toList) conditions := by
  have hand : ∀ conjunct ∈ clause.splitAround " and ".toList, ¬ " and ".toList <:+: conjunct :=
    fun conjunct hconjunct => Text.not_infix_of_mem_splitAround (by decide) hconjunct
  refine List.Forall₂.imp ?_ ((List.forall₂_and_left _ _).2 ⟨hand, Outcome.mapM_eq_ok.1 h⟩)
  exact fun conjunct condition h => dividedFrom_of_read h.1 h.2

/-! ## Statements -/

/-- A select from tables, with targets unless it takes all columns. -/
structure Select.Regular (source : Text) (query : Select) : Prop where
  tables_ne_nil : query.tables ≠ []
  tables : ∀ table ∈ query.tables, table.IsName
  targets : ∀ targets, query.projection = .targets targets →
    targets ≠ [] ∧ ∀ target ∈ targets, target.Regular
  /-- The conditions, if there are any, are those of a clause that ends the text. -/
  conditions : query.conditions = [] ∨ ∃ clause : Text, clause <:+ source ∧
    List.Forall₂ Condition.DividedFrom (clause.splitAround " and ".toList) query.conditions

/-- A statement of regular names, columns, values and selects, the selects read from a text. -/
def Statement.Regular (source : Text) : Statement → Prop
  | .createTable name columns =>
      name.IsName ∧ columns ≠ [] ∧ ∀ column ∈ columns, column.name.IsName
  | .createFrom name query => name.IsName ∧ query.Regular source
  | .load name => name.IsName
  | .store name => name.IsName
  | .drop name => name.IsName
  | .insert table values =>
      table.IsName ∧ values ≠ [] ∧ ∀ value ∈ values, value.trim = value ∧ ',' ∉ value
  | .print name => name.IsName
  | .select query => query.Regular source

theorem Text.trimmed_fields (t : Text) :
    t.fields ≠ [] ∧ ∀ field ∈ t.fields, field.trim = field ∧ ',' ∉ field := by
  refine ⟨by simp [Text.fields, List.splitOn_ne_nil], fun field hfield => ?_⟩
  obtain ⟨piece, hpiece, rfl⟩ := List.mem_map.1 hfield
  exact ⟨Text.trimWhere_trimWhere _ _, fun hmem =>
    Text.not_mem_of_mem_splitOn hpiece (Text.mem_of_mem_trimWhere hmem)⟩

namespace Reading

variable {r : Reading} {tokens : List Token}

theorem Selects.regular {query : Select} (h : r.Selects tokens query) (htiles : r.Tiles tokens)
    (htidy : r.source.Tidy) : query.Regular r.source where
  tables_ne_nil := h.tables_ne_nil
  tables table htable := Text.isName_of_isWord (h.isWord_tables htiles table htable)
  targets targets htargets :=
    h.forall_targets htargets fun _ hpiece hcomma hne _ hread =>
      Target.regular_read ⟨htidy.trim_of_infix hpiece, hne⟩ hcomma hread
  conditions := by
    rcases h.conditions with hnone | ⟨start, clause, hclause, hread⟩
    · exact .inl hnone
    · exact .inr ⟨clause, isSuffix_of_cutToEnd hclause, Condition.forall₂_dividedFrom hread⟩

theorem Reads.regular {statement : Statement} (h : r.Reads statement) (htidy : r.source.Tidy) :
    statement.Regular r.source := by
  cases h with
  | createTable word tiles read =>
      obtain ⟨hne, hwords⟩ := columns_spec tiles read
      exact ⟨Text.isName_of_isWord word, hne,
        fun column hcolumn => Text.isName_of_isWord (hwords column hcolumn)⟩
  | createFrom word tiles selects =>
      exact ⟨Text.isName_of_isWord word, selects.regular tiles htidy⟩
  | load word => exact Text.isName_of_isWord word
  | store word => exact Text.isName_of_isWord word
  | drop word => exact Text.isName_of_isWord word
  | @insert _ text _ word => exact ⟨Text.isName_of_isWord word, text.trimmed_fields⟩
  | print word => exact Text.isName_of_isWord word
  | select tiles selects => exact selects.regular tiles htidy

end Reading

namespace Statement

/-- Every statement is regular in the collapsed text that it is read from. -/
theorem regular_of_read {query : Text} {statement : Statement}
    (h : Statement.read query = .ok statement) : statement.Regular query.collapse := by
  obtain ⟨r, hsource, -, hreads⟩ := exists_reads h
  rw [← hsource]
  exact hreads.regular (hsource ▸ Text.tidy_collapse query)

/-- Runs of blanks, a sign in an operand, a second label and a condition in the other spelling. -/
theorem regular_of_read_createFrom :
    let text : Text := ("create table u as\n select a ,b/2 * c  - 1 as d as e from t, s " ++
      "where a=>1 and b == 'x and'").toList
    let query : Select := ⟨.targets [.column "a".toList,
      .computed "b/2".toList .multiply "c - 1".toList "d".toList], ["t".toList, "s".toList],
      [⟨"a".toList, .atLeast, "1".toList⟩, ⟨"b".toList, .equal, "'x and'".toList⟩]⟩
    read text = .ok (.createFrom "u".toList query) ∧
      Regular text.collapse (.createFrom "u".toList query) := by
  intro text query
  have hread : read text = .ok (.createFrom "u".toList query) := by decide +kernel
  exact ⟨hread, regular_of_read hread⟩

end Statement

end Relata
