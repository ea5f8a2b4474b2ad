import Relata.Proofs.Query.Moved
import Relata.Proofs.Storage.RoundTrip

/-!
# Queries of one form each

A query whose words come first is read from the tokens of what follows them: the name of a
table, a list of column definitions, or what stands after `values`, which is taken as the
line of a row whatever literals it holds.
-/

namespace Relata

theorem Scan.shift_of_tiling {position : Nat} {t : Text} {tokens : List Token}
    (h : Tiling none position t tokens) :
    (ofText t).tokens.map (Token.shift position) = tokens ∧ (ofText t).unclosed = none := by
  have hscan := (run_between position t).symm.trans (run_of_tiling h)
  exact ⟨congrArg Scan.tokens hscan, Option.map_eq_none_iff.1 (congrArg Scan.unclosed hscan)⟩

/-- Words and a phrase after them are read from the tokens of the phrase. -/
theorem Statement.read_of_tiling {command : Command} {words : List Text} {t : Text}
    {tokens : List Token} (hwords : ∀ word ∈ words, Scan.isWord word = true)
    (ht : Text.IsPhrase t)
    (h : Tiling none (Text.byteSize (Scan.spaced (command.words ++ words))) t tokens) :
    read (Scan.spaced (command.words ++ words) ++ t) =
      Reading.statement ⟨Scan.spaced (command.words ++ words) ++ t,
        Scan.wordTokens (Text.byteSize (Scan.spaced command.words)) words ++ tokens, false, command,
        Scan.spaced words ++ t⟩ := by
  have hcollapse :=
    (Scan.collapse_spaced (Reading.isWord_of_mem_append command hwords) ht.words_ne_nil).1
  rw [ht.tidy.collapse] at hcollapse
  obtain ⟨htokens, hclosed⟩ := Scan.shift_of_tiling h
  rw [read_of_collapse hwords hcollapse, htokens, hclosed]
  rfl

theorem Reading.cut_of_append {r : Reading} {before part after : Text}
    (hsource : r.source = before ++ (part ++ after)) :
    r.cut (Text.byteSize before) (Text.byteSize before + Text.byteSize part) = .ok part := by
  rw [cut, hsource, Text.cut?_append]

theorem Reading.cutToEnd_of_append {r : Reading} {before t : Text}
    (hsource : r.source = before ++ t) (hclosed : r.unclosed = false) :
    r.cutToEnd (Text.byteSize before) = .ok t := by
  have hcut := cut_of_append (hsource.trans (by rw [List.append_nil] : _ = before ++ (t ++ [])))
  rw [← Text.byteSize_append, ← hsource] at hcut
  rw [cutToEnd, hclosed]
  exact hcut

theorem writeList_cons_cons (item next : Text) (items : List Text) :
    writeList (item :: next :: items) = item ++ ',' :: ' ' :: writeList (next :: items) := by
  have hsep : ", ".toList = [',', ' '] := by decide
  rw [writeList, List.intercalate_cons_cons, hsep]
  simp [writeList, hsep]

theorem isPhrase_writeList {items : List Text} (hne : items ≠ [])
    (h : ∀ item ∈ items, Text.IsPhrase item) : Text.IsPhrase (writeList items) := by
  have hcomma : Text.IsPhrase [','] := ⟨by decide, by decide⟩
  exact Text.intercalate_induction (fun _ _ hs ht => hs.append (hcomma.append_space ht).tidy) hne h

/-! ## Queries that name one table -/

namespace Statement

variable {name : Text}

theorem read_named {command : Command} (hname : Scan.isWord name = true) :
    read (Scan.spaced command.words ++ name) =
      Reading.statement ⟨Scan.spaced command.words ++ name,
        [⟨.word, name, Text.byteSize (Scan.spaced command.words),
          Text.byteSize (Scan.spaced command.words) + Text.byteSize name⟩], false, command, name⟩ := by
  have hread := read_of_tiling (List.forall_mem_nil _) (Scan.isPhrase_of_isWord hname)
    (Tiling.word hname (Text.byteSize (Scan.spaced (command.words ++ []))))
  rw [List.append_nil] at hread
  exact hread

theorem read_store (h : Scan.isWord name = true) :
    read ("store ".toList ++ name) = .ok (.store name) := by
  have hstore : "store ".toList = Scan.spaced (Command.words .store) := by decide
  rw [hstore, read_named h]
  rfl

theorem read_load (h : Scan.isWord name = true) :
    read ("load ".toList ++ name) = .ok (.load name) := by
  have hload : "load ".toList = Scan.spaced (Command.words .load) := by decide
  rw [hload, read_named h]
  rfl

theorem read_print (h : Scan.isWord name = true) :
    read ("print ".toList ++ name) = .ok (.print name) := by
  have hprint : "print ".toList = Scan.spaced (Command.words .print) := by decide
  rw [hprint, read_named h]
  rfl

theorem read_drop (h : Scan.isWord name = true) :
    read ("drop table ".toList ++ name) = .ok (.drop name) := by
  have hdrop : "drop table ".toList = Scan.spaced (Command.words .drop) := by decide
  rw [hdrop, read_named h]
  rfl

end Statement

/-! ## Column definitions -/

namespace Column

variable {column : Column}

theorem isWord_word (type : DataType) : Scan.isWord type.word = true := by
  cases type <;> decide

theorem isPhrase_write (h : Scan.isWord column.name = true) : Text.IsPhrase column.write :=
  (Scan.isPhrase_of_isWord h).append_space (Scan.isPhrase_of_isWord (isWord_word column.type))

theorem tiling_write {position : Nat} {after : Text} {tokens : List Token}
    (h : Scan.isWord column.name = true)
    (hmaximal : ∀ c, after.head? = some c → Scan.endsWord c = true)
    (hafter : Tiling none (position + Text.byteSize column.write) after tokens) :
    Tiling none position (column.write ++ after)
      (⟨.word, column.name, position, position + Text.byteSize column.name⟩ ::
        ⟨.word, column.type.word, position + Text.byteSize column.name + 1,
          position + Text.byteSize column.write⟩ :: tokens) := by
  have hsize : position + Text.byteSize column.write =
      position + Text.byteSize column.name + 1 + Text.byteSize column.type.word := by
    have hspace : ' '.utf8Size = 1 := rfl
    rw [write, Text.byteSize_append, Text.byteSize]
    omega
  have htype := Tiling.cons_word (isWord_word column.type) hsize hmaximal hafter
  have hspace : Tiling none (position + Text.byteSize column.name)
      (' ' :: (column.type.word ++ after)) _ := Tiling.cons_blank (by decide) htype
  have hname := Tiling.cons_word h rfl (Scan.endsWord_of_head? (by decide)) hspace
  rwa [write, List.append_assoc, List.cons_append]

end Column

namespace Reading

variable {r : Reading} {columns : List Column}

theorem exists_definitionSpans (hne : columns ≠ [])
    (hnames : ∀ column ∈ columns, Scan.isWord column.name = true) (before : Text)
    (hsource : r.source = before ++ (writeList (columns.map Column.write) ++ [')'])) :
    ∃ tokens spans,
      Tiling none (Text.byteSize before) (writeList (columns.map Column.write) ++ [')']) tokens ∧
      definitionSpans none tokens = some (spans, []) ∧
      List.Forall₂ (fun span text => ∃ start stop, span = some (start, stop) ∧
        r.cut start stop = .ok text) spans (columns.map Column.write) := by
  induction columns generalizing before with
  | nil => exact absurd rfl hne
  | cons column columns ih =>
      obtain ⟨hname, hnames⟩ := List.forall_mem_cons.1 hnames
      cases columns with
      | nil =>
          have hparen : Tiling none (Text.byteSize before + Text.byteSize column.write) [')'] _ :=
            Tiling.cons_single rfl (.done (List.forall_mem_nil _) rfl)
          rw [List.map_singleton, writeList, List.intercalate_singleton] at hsource ⊢
          exact ⟨_, _, Column.tiling_write hname (Scan.endsWord_of_head? (by decide)) hparen, rfl,
            .cons ⟨_, _, rfl, cut_of_append hsource⟩ .nil⟩
      | cons next columns =>
          have hlist : writeList ((column :: next :: columns).map Column.write) ++ [')'] =
              column.write ++ ',' :: ' ' :: (writeList ((next :: columns).map Column.write) ++
                [')']) := by
            simp only [List.map_cons, writeList_cons_cons, List.append_assoc, List.cons_append]
          have hbefore : Text.byteSize (before ++ (column.write ++ [',', ' '])) =
              Text.byteSize before + Text.byteSize column.write + 1 + 1 := by
            simp only [Text.byteSize_append, Nat.add_assoc]
            rfl
          rw [hlist] at hsource ⊢
          obtain ⟨tokens, spans, htiling, hspans, hcuts⟩ :=
            ih (List.cons_ne_nil next columns) hnames (before ++ (column.write ++ [',', ' ']))
              (by rw [hsource]; simp only [List.append_assoc, List.cons_append, List.nil_append])
          rw [hbefore] at htiling
          have hcomma : Tiling none (Text.byteSize before + Text.byteSize column.write)
              (',' :: ' ' :: (writeList ((next :: columns).map Column.write) ++ [')'])) _ :=
            Tiling.cons_single rfl (Tiling.cons_blank (by decide) htiling)
          refine ⟨_, some (_, _) :: spans, Column.tiling_write hname
            (Scan.endsWord_of_head? (by decide)) hcomma, ?_,
            .cons ⟨_, _, rfl, cut_of_append hsource⟩ hcuts⟩
          simp only [definitionSpans, hspans]
          rfl

theorem columns_of_spans {tokens : List Token} {spans : List (Option (Nat × Nat))}
    {definitions : List Text} (hspans : definitionSpans none tokens = some (spans, []))
    (hclosed : r.unclosed = false)
    (hcuts : List.Forall₂ (fun span text => ∃ start stop, span = some (start, stop) ∧
      r.cut start stop = .ok text) spans definitions)
    (hread : Column.readAll definitions = .ok columns) : r.columns tokens = .ok columns := by
  have hfinish : r.finish [] = .ok () := by
    rw [finish, hclosed]
    rfl
  unfold Reading.columns
  rw [hspans]
  refine Outcome.bind_eq_ok.2 ⟨definitions, Outcome.mapM_eq_ok.2 (hcuts.imp ?_), ?_⟩
  · rintro span text ⟨start, stop, rfl, hcut⟩
    exact hcut
  · rw [hread, hfinish]
    rfl

end Reading

/-! ## Statements -/

namespace Statement

variable {name : Text} {columns : List Column}

theorem write_createTable (name : Text) (columns : List Column) :
    write (.createTable name columns) = Scan.spaced (Command.words .create ++ [name]) ++
      '(' :: (writeList (columns.map Column.write) ++ [')']) := by
  have hcreate : "create table ".toList = Scan.spaced (Command.words .create) := by decide
  have hparen : " (".toList = [' ', '('] := by decide
  have hname : Scan.spaced [name] = name ++ [' '] := by rw [Scan.spaced_cons, Scan.spaced_nil]
  unfold write
  rw [hcreate, hparen, Scan.spaced_append, hname]
  simp only [List.append_assoc, List.cons_append, List.nil_append]

theorem read_createTable (hname : Scan.isWord name = true) (hne : columns ≠ [])
    (hnames : ∀ column ∈ columns, Scan.isWord column.name = true) :
    read (write (.createTable name columns)) = .ok (.createTable name columns) := by
  have hopen : Text.IsPhrase ['('] := ⟨by decide, by decide⟩
  have hclose : Text.Tidy [')'] := by decide
  have hdefinition : ∀ definition ∈ columns.map Column.write, Text.IsPhrase definition := by
    intro definition hdefinition
    obtain ⟨column, hcolumn, rfl⟩ := List.mem_map.1 hdefinition
    exact Column.isPhrase_write (hnames column hcolumn)
  have hlist : Text.IsPhrase (writeList (columns.map Column.write)) :=
    isPhrase_writeList (by simp [hne]) hdefinition
  have hphrase : Text.IsPhrase ('(' :: (writeList (columns.map Column.write) ++ [')'])) :=
    hopen.append (hlist.append hclose).tidy
  obtain ⟨before, hbefore⟩ : ∃ before, before = Scan.spaced (Command.words .create ++ [name]) :=
    ⟨_, rfl⟩
  let r : Reading := ⟨before ++ '(' :: (writeList (columns.map Column.write) ++ [')']),
    [], false, .create, Scan.spaced [name] ++ '(' :: (writeList (columns.map Column.write) ++ [')'])⟩
  obtain ⟨tokens, spans, htiling, hspans, hcuts⟩ :=
    Reading.exists_definitionSpans (r := r) hne hnames (before ++ ['(']) (by
      simp only [r, List.append_assoc, List.cons_append, List.nil_append])
  rw [Text.byteSize_append] at htiling
  have hparen := Tiling.cons_single (c := '(') rfl htiling
  rw [hbefore] at hparen
  have hwords : ∀ word ∈ [name], Scan.isWord word = true := by simpa using hname
  have hdefinitions : Column.readAll (columns.map Column.write) = .ok columns := by
    rw [Column.readAll_eq_mapM, List.mapM_map]
    exact Column.mapM_read_write fun column hcolumn => Text.words_of_isWord (hnames column hcolumn)
  have hcolumns : r.columns tokens = .ok columns :=
    Reading.columns_of_spans hspans rfl hcuts hdefinitions
  rw [write_createTable, read_of_tiling hwords hphrase hparen]
  simp only [Reading.statement, Scan.wordTokens, List.cons_append, List.nil_append, Reading.create,
    ← hbefore]
  exact Outcome.bind_eq_ok.2 ⟨columns, hcolumns, rfl⟩

/-- The text of a query that inserts the fields of a line. -/
def insertText (table line : Text) : Text :=
  "insert into ".toList ++ table ++ " values ".toList ++ line

theorem insertText_eq (table line : Text) :
    insertText table line =
      Scan.spaced (Command.words .insert ++ [table, Keyword.word .values]) ++ line := by
  have hinsert : "insert into ".toList = Scan.spaced (Command.words .insert) := by decide
  have hvalues : " values ".toList = ' ' :: Scan.spaced [Keyword.word .values] := by decide
  unfold insertText
  rw [hinsert, hvalues, Scan.spaced_append, Scan.spaced_cons table]
  simp only [List.append_assoc, List.cons_append]

/-- A line is read as its fields if blanks in it are single and its quotes are closed. -/
theorem read_insertText {table line : Text} (htable : Scan.isWord table = true)
    (hline : Text.IsPhrase line) (hquotes : Even (line.count '\'')) :
    read (insertText table line) = .ok (.insert table line.fields) := by
  obtain ⟨c, rest, rfl⟩ := List.exists_cons_of_ne_nil hline.ne_nil
  have hwords : ∀ word ∈ [table, Keyword.word .values], Scan.isWord word = true := by
    simpa using ⟨htable, Keyword.isWord_word _⟩
  obtain ⟨before, hbefore⟩ : ∃ before,
      before = Scan.spaced (Command.words .insert ++ [table, Keyword.word .values]) := ⟨_, rfl⟩
  obtain ⟨tokens, htiling⟩ := Scan.exists_tiling hquotes (Text.byteSize before)
  obtain ⟨first, others, rfl, hfirst⟩ := htiling.exists_cons hline.not_isBlank_head
  rw [hbefore] at htiling
  rw [insertText_eq, Statement.read_of_tiling hwords hline htiling, ← hbefore]
  have hvalues (token : Token) (hkind : token.kind = .word)
      (htext : token.text = Keyword.word .values) : Reading.isKeyword .values token = true := by
    simp [Reading.isKeyword, hkind, htext, Keyword.ofWord?_word]
  simp only [Reading.statement, Scan.wordTokens, List.cons_append, List.nil_append, Reading.insert,
    hvalues, if_true, hfirst]
  rw [Reading.cutToEnd_of_append rfl rfl]
  rfl

end Statement

end Relata
