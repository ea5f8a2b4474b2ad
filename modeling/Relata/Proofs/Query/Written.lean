import Relata.Proofs.Query.Clauses
import Relata.Proofs.Query.Parts

/-!
# Statements read as they are written

A statement whose names are plain words, whose literals are tidy and whose operands are words
or quoted texts is written in a form that is read as that statement again, exactly if no
operand holds what its part of the query is divided at.
-/

namespace Relata

/-! ## Texts without the word `from` -/

/-- A text in which no token, wherever the text stands, is the word `from`. -/
def Fromless (t : Text) : Prop :=
  ∀ position, ∃ tokens, Tiling none position t tokens ∧
    ∀ token ∈ tokens, Reading.isKeyword .fromWord token = false

namespace Fromless

variable {s t : Text}

theorem word (h : Scan.isWord t = true) (hne : t ≠ Keyword.fromWord.word) : Fromless t := by
  intro position
  refine ⟨_, Tiling.word h position, fun token htoken => ?_⟩
  rw [List.mem_singleton.1 htoken, ← Bool.not_eq_true]
  intro hkeyword
  simp only [Reading.isKeyword, Bool.and_eq_true, decide_eq_true_eq] at hkeyword
  exact hne (Keyword.ofWord?_eq_some hkeyword.2)

theorem operand (h : t.IsOperand) : Fromless t := by
  cases h with
  | plain h => exact word h.word h.not_from
  | @quoted body closed tidy =>
      intro position
      have htiling : Tiling none position ('\'' :: (body ++ ['\'']) ++ []) _ :=
        Tiling.cons_quoted closed rfl (.done (List.forall_mem_nil _) rfl)
      rw [List.append_nil] at htiling
      refine ⟨_, htiling, fun token htoken => ?_⟩
      rw [List.mem_singleton.1 htoken]
      rfl

theorem append (hs : Fromless s) (ht : Fromless t)
    (hmaximal : ∀ c, t.head? = some c → Scan.endsWord c = true) : Fromless (s ++ t) := by
  intro position
  obtain ⟨first, hfirst, hfirst'⟩ := hs position
  obtain ⟨second, hsecond, hsecond'⟩ := ht (position + Text.byteSize s)
  exact ⟨_, hfirst.append hsecond hmaximal, List.forall_mem_append.2 ⟨hfirst', hsecond'⟩⟩

theorem cons_space (h : Fromless t) : Fromless (' ' :: t) := by
  intro position
  obtain ⟨tokens, htiling, htokens⟩ := h (position + 1)
  exact ⟨tokens, Tiling.cons_blank (by decide) htiling, htokens⟩

theorem append_space (hs : Fromless s) (ht : Fromless t) : Fromless (s ++ ' ' :: t) := by
  exact hs.append ht.cons_space (Scan.endsWord_of_head? (by decide))

theorem cons_comma (h : Fromless t) : Fromless (',' :: t) := by
  intro position
  obtain ⟨tokens, htiling, htokens⟩ := h (position + 1)
  refine ⟨_, Tiling.cons_single rfl htiling, List.forall_mem_cons.2 ⟨rfl, htokens⟩⟩

end Fromless

theorem Target.Canonical.fromless_write {target : Target} (h : target.Canonical) :
    Fromless target.write := by
  cases target with
  | column name => exact .word h.1 h.2.1
  | computed left op right label =>
      obtain ⟨hleft, hright, hlabel⟩ := h
      have hsymbol : Fromless op.symbol := by
        cases op <;> exact .word (by decide) (by decide)
      have has : Fromless Keyword.asWord.word := .word (by decide) (by decide)
      rw [write_computed, Text.separator_append]
      exact ((Fromless.operand (.plain hleft)).append_space
        (hsymbol.append_space (.operand hright))).append_space
          (has.append_space (.operand (.plain hlabel)))

theorem Projection.Canonical.fromless_write {projection : Projection} (h : projection.Canonical) :
    Fromless projection.write := by
  cases projection with
  | all => exact .word (by decide) (by decide)
  | targets items =>
      have hsep : ", ".toList = [',', ' '] := by decide
      rw [write, writeList, hsep]
      refine Text.intercalate_induction (fun s t hs ht => ?_) (by simp [h.1]) fun piece hpiece => ?_
      · exact hs.append ht.cons_space.cons_comma (Scan.endsWord_of_head? (by decide))
      · obtain ⟨target, htarget, rfl⟩ := List.mem_map.1 hpiece
        exact (h.2 target htarget).fromless_write

/-! ## Selects -/

def Condition.writeAll : List Condition → Text
  | [] => []
  | conditions => " where ".toList ++ " and ".toList.intercalate (conditions.map write)

theorem Condition.writeAll_of_ne_nil {conditions : List Condition} (hne : conditions ≠ []) :
    writeAll conditions = ' ' :: (Keyword.whereWord.word ++
      ' ' :: " and ".toList.intercalate (conditions.map write)) := by
  have hwhere : " where ".toList = Text.separator Keyword.whereWord.word := by decide
  cases conditions with
  | nil => exact absurd rfl hne
  | cons condition conditions =>
      rw [writeAll, hwhere, Text.separator_append]
      exact hne

/-- A select that is written in a form of its own. -/
structure Select.Canonical (query : Select) : Prop where
  projection : query.projection.Canonical
  tables_ne_nil : query.tables ≠ []
  tables : ∀ table ∈ query.tables, Scan.isWord table = true
  conditions : ∀ condition ∈ query.conditions, condition.Canonical

structure Select.Unambiguous (query : Select) : Prop where
  projection : query.projection.Unambiguous
  conditions : ∀ condition ∈ query.conditions, condition.Unambiguous

namespace Reading

variable {r : Reading} {tokens : List Token}

theorem splitAtFrom?_append {fromToken : Token} {rest : List Token}
    (h : ∀ token ∈ tokens, isKeyword .fromWord token = false)
    (hfrom : isKeyword .fromWord fromToken = true) :
    splitAtFrom? (tokens ++ fromToken :: rest) = some (fromToken, rest) := by
  induction tokens with
  | nil => rw [List.nil_append, splitAtFrom?, if_pos hfrom]
  | cons token tokens ih =>
      obtain ⟨htoken, htokens⟩ := List.forall_mem_cons.1 h
      rw [List.cons_append, splitAtFrom?, if_neg (by simp [htoken]), ih htokens]

theorem exists_tableNames {tables : List Text} (hne : tables ≠ [])
    (htables : ∀ table ∈ tables, Scan.isWord table = true) {position : Nat} {after : Text}
    (hafter : Tiling none (position + Text.byteSize (writeList tables)) after tokens)
    (hmaximal : ∀ c, after.head? = some c → Scan.endsWord c = true)
    (hcomma : ∀ token, tokens.head? = some token → token.kind ≠ .comma) :
    ∃ others, Tiling none position (writeList tables ++ after) others ∧
      tableNames? others = some (tables, tokens) := by
  induction tables generalizing position with
  | nil => exact absurd rfl hne
  | cons table tables ih =>
      obtain ⟨htable, htables⟩ := List.forall_mem_cons.1 htables
      cases tables with
      | nil =>
          rw [writeList, List.intercalate_singleton] at hafter ⊢
          exact ⟨_, Tiling.cons_word htable rfl hmaximal hafter, tableNames?_word hcomma⟩
      | cons next tables =>
          have hsize : position + Text.byteSize (writeList (table :: next :: tables)) =
              position + Text.byteSize table + 1 + 1 +
                Text.byteSize (writeList (next :: tables)) := by
            have hone : ','.utf8Size = 1 ∧ ' '.utf8Size = 1 := ⟨rfl, rfl⟩
            rw [writeList_cons_cons, Text.byteSize_append, Text.byteSize, Text.byteSize]
            omega
          rw [hsize] at hafter
          obtain ⟨others, htiling, hnames⟩ := ih (List.cons_ne_nil _ _) htables hafter
          have hcommaTiling : Tiling none (position + Text.byteSize table)
              (',' :: ' ' :: (writeList (next :: tables) ++ after)) _ :=
            Tiling.cons_single rfl (Tiling.cons_blank (by decide) htiling)
          have hword :=
            Tiling.cons_word htable rfl (Scan.endsWord_of_head? (by decide)) hcommaTiling
          rw [writeList_cons_cons, List.append_assoc]
          refine ⟨_, hword, ?_⟩
          rw [tableNames?, hnames]
          rfl

theorem exists_conditions {before : Text} {conditions : List Condition}
    (h : ∀ condition ∈ conditions, condition.Canonical)
    (hu : ∀ condition ∈ conditions, condition.Unambiguous)
    (hsource : r.source = before ++ Condition.writeAll conditions) (hclosed : r.unclosed = false) :
    ∃ tokens, Tiling none (Text.byteSize before) (Condition.writeAll conditions) tokens ∧
      (∀ token, tokens.head? = some token → token.kind ≠ .comma) ∧
        r.conditions tokens = .ok conditions := by
  by_cases hne : conditions = []
  · subst hne
    refine ⟨[], .done (List.forall_mem_nil _) rfl, fun token htoken => ?_, ?_⟩
    · cases htoken
    · rw [Reading.conditions, finish, hclosed]
      rfl
  · obtain ⟨hphrase, hquotes⟩ := Condition.isPhrase_clause hne h
    have hread := Condition.readAll_write hne h hu
    rw [Condition.writeAll_of_ne_nil hne] at hsource ⊢
    generalize " and ".toList.intercalate (conditions.map Condition.write) = clause at *
    obtain ⟨c, rest, rfl⟩ := List.exists_cons_of_ne_nil hphrase.ne_nil
    let front := before ++ ' ' :: (Keyword.whereWord.word ++ [' '])
    have hfront : Text.byteSize front =
        Text.byteSize before + 1 + Text.byteSize Keyword.whereWord.word + 1 := by
      simp only [front, Text.byteSize_append, Text.byteSize]
      rfl
    have hwhole : r.source = front ++ c :: rest := by simp [front, hsource]
    obtain ⟨tokens, htiling⟩ := Scan.exists_tiling hquotes (Text.byteSize front)
    obtain ⟨first, others, rfl, hfirst⟩ := htiling.exists_cons hphrase.not_isBlank_head
    rw [hfront] at htiling
    have hspace : Tiling none (Text.byteSize before + 1 + Text.byteSize Keyword.whereWord.word)
        (' ' :: c :: rest) _ := Tiling.cons_blank (by decide) htiling
    have hword := Tiling.cons_word Keyword.whereWord.isWord_word rfl
      (Scan.endsWord_of_head? (by decide)) hspace
    refine ⟨_, Tiling.cons_blank (by decide) hword, fun token htoken => ?_, ?_⟩
    · cases htoken
      intro hcomma
      cases hcomma
    · have hclause := cutToEnd_of_append hwhole hclosed
      rw [← hfirst] at hclause
      unfold Reading.conditions
      simp only [isKeyword, Keyword.ofWord?_word, hclause]
      exact hread

theorem select_of_parts {first fromToken : Token} {names last : List Token} {text : Text}
    {query : Select} (hfirst : tokens.head? = some first)
    (hsplit : splitAtFrom? tokens = some (fromToken, names))
    (hcut : r.cut first.start fromToken.start = .ok text) (hne : text.trim ≠ [])
    (hprojection : Projection.read r.failure text.trim = .ok query.projection)
    (htables : tableNames? names = some (query.tables, last))
    (hconditions : r.conditions last = .ok query.conditions) : r.select tokens = .ok query := by
  unfold select
  simp only [hfirst, hsplit, hcut, htables, Outcome.bind_eq_ok]
  refine ⟨text, rfl, ?_⟩
  rw [if_neg hne, hprojection, hconditions]
  rfl

theorem Selects.unambiguous {query : Select} (h : r.Selects tokens query) : query.Unambiguous := by
  constructor
  · cases hprojection : query.projection with
    | all => trivial
    | targets targets =>
        exact (h.forall_targets hprojection fun _ _ hcomma _ _ => Target.unambiguous_read hcomma).2
  · rcases h.conditions with hnone | ⟨start, clause, -, hread⟩
    · rw [hnone]
      exact List.forall_mem_nil _
    · exact Condition.unambiguous_readAll hread

end Reading

namespace Select

def body (query : Select) : Text :=
  query.projection.write ++ ' ' :: (Keyword.fromWord.word ++
    ' ' :: (writeList query.tables ++ Condition.writeAll query.conditions))

variable {query : Select}

theorem write_eq (query : Select) : query.write = "select ".toList ++ query.body := by
  have hfrom : " from ".toList = Text.separator Keyword.fromWord.word := by decide
  obtain ⟨projection, tables, conditions⟩ := query
  have hwrite : write ⟨projection, tables, conditions⟩ = "select ".toList ++ projection.write ++
      " from ".toList ++ writeList tables ++ Condition.writeAll conditions := by
    cases conditions <;> rfl
  rw [hwrite, hfrom]
  simp only [body, List.append_assoc, List.cons_append, Text.separator_append]

theorem Canonical.isPhrase_tables (h : query.Canonical) :
    (writeList query.tables ++ Condition.writeAll query.conditions).IsPhrase := by
  have htables : Text.IsPhrase (writeList query.tables) :=
    isPhrase_writeList h.tables_ne_nil fun table htable =>
      Scan.isPhrase_of_isWord (h.tables table htable)
  by_cases hne : query.conditions = []
  · rw [hne]
    exact htables.append Text.tidy_nil
  · rw [Condition.writeAll_of_ne_nil hne]
    exact htables.append_space ((Scan.isPhrase_of_isWord Keyword.whereWord.isWord_word).append_space
      (Condition.isPhrase_clause hne h.conditions).1)

theorem Canonical.isPhrase_body (h : query.Canonical) : query.body.IsPhrase :=
  h.projection.isPhrase_write.append_space
    ((Scan.isPhrase_of_isWord Keyword.fromWord.isWord_word).append_space h.isPhrase_tables)

theorem Canonical.collapse_write (h : query.Canonical) :
    Text.collapse query.write = "select ".toList ++ query.body := by
  have hselect : "select ".toList = Scan.spaced [Keyword.select.word] := by decide
  have hwords : ∀ word ∈ [Keyword.select.word], Scan.isWord word = true := by decide
  rw [write_eq, hselect, (Scan.collapse_spaced hwords h.isPhrase_body.words_ne_nil).1,
    h.isPhrase_body.tidy.collapse]

/-- The projection and the space after it are cut out before the word `from`. -/
theorem cut_projection {r : Reading} (hsource : r.source = query.body) :
    r.cut 0 (0 + Text.byteSize query.projection.write + 1) =
      .ok (query.projection.write ++ [' ']) := by
  have hwhole : query.body = [] ++ ((query.projection.write ++ [' ']) ++ (Keyword.fromWord.word ++
      ' ' :: (writeList query.tables ++ Condition.writeAll query.conditions))) := by
    simp [body]
  have hcut := Reading.cut_of_append (hsource.trans hwhole)
  rwa [Text.byteSize_append] at hcut

theorem Canonical.exists_tiling (h : query.Canonical) (hu : query.Unambiguous) :
    ∃ tokens, Tiling none 0 query.body tokens ∧
      Reading.select ⟨query.body, [], false, .select, query.body⟩ tokens = .ok query := by
  have hphrase := h.projection.isPhrase_write
  let front := query.projection.write ++ ' ' :: (Keyword.fromWord.word ++ [' '])
  have hsource : query.body =
      (front ++ writeList query.tables) ++ Condition.writeAll query.conditions := by
    simp [front, body]
  have hsize : Text.byteSize front =
      0 + Text.byteSize query.projection.write + 1 + Text.byteSize Keyword.fromWord.word + 1 := by
    simp only [front, Text.byteSize_append, Text.byteSize, Nat.zero_add]
    rfl
  have hmaximal : ∀ c, (Condition.writeAll query.conditions).head? = some c →
      Scan.endsWord c = true := by
    by_cases hne : query.conditions = []
    · rw [hne]
      intro c hc
      cases hc
    · rw [Condition.writeAll_of_ne_nil hne]
      exact Scan.endsWord_of_head? (by decide)
  -- the tokens are found from the end of the text to its beginning
  obtain ⟨last, hlast, hcomma, hconditions⟩ := Reading.exists_conditions
    (r := ⟨query.body, [], false, .select, query.body⟩) h.conditions hu.conditions hsource rfl
  rw [Text.byteSize_append] at hlast
  obtain ⟨names, hnames, htables⟩ :=
    Reading.exists_tableNames h.tables_ne_nil h.tables hlast hmaximal hcomma
  rw [hsize] at hnames
  have hfrom := Tiling.cons_word Keyword.fromWord.isWord_word rfl
    (Scan.endsWord_of_head? (by decide)) (Tiling.cons_blank (c := ' ') (by decide) hnames)
  obtain ⟨targets, htargets, hfromless⟩ := h.projection.fromless_write 0
  have hwhole := htargets.append (Tiling.cons_blank (c := ' ') (by decide) hfrom)
    (Scan.endsWord_of_head? (by decide))
  obtain ⟨first, others, rfl, hstart⟩ : ∃ first others, targets = first :: others ∧
      first.start = 0 := by
    obtain ⟨c, t, hwrite⟩ := List.exists_cons_of_ne_nil hphrase.ne_nil
    rw [hwrite] at htargets hphrase
    exact htargets.exists_cons hphrase.not_isBlank_head
  have htrim := Text.trim_append_space hphrase.tidy.trim
  have htext : Reading.cut ⟨query.body, [], false, .select, query.body⟩ first.start
      (0 + Text.byteSize query.projection.write + 1) = .ok (query.projection.write ++ [' ']) := by
    rw [hstart]
    exact cut_projection rfl
  refine ⟨_, hwhole, Reading.select_of_parts rfl (Reading.splitAtFrom?_append hfromless rfl) htext
    ?_ ?_ htables hconditions⟩
  · rw [htrim]
    exact hphrase.ne_nil
  · rw [htrim]
    exact h.projection.read_write hu.projection

theorem Canonical.read_body (h : query.Canonical) (hu : query.Unambiguous) :
    Select.read query.body = .ok query := by
  obtain ⟨tokens, htiling, hselect⟩ := h.exists_tiling hu
  have hscan : Scan.ofText query.body = _ := Scan.run_of_tiling htiling
  unfold Select.read
  rw [hscan]
  exact hselect

end Select

/-! ## Statements -/

namespace Statement

/--
A statement that is written in a form of its own: names are words, a created table has
columns, and a row has literals, each tidy, without a comma and with its quotes closed.
-/
def Canonical : Statement → Prop
  | .createTable name columns => Scan.isWord name = true ∧ columns ≠ [] ∧
      ∀ column ∈ columns, Scan.isWord column.name = true
  | .createFrom name query => Scan.isWord name = true ∧ query.Canonical
  | .load name => Scan.isWord name = true
  | .store name => Scan.isWord name = true
  | .drop name => Scan.isWord name = true
  | .insert table literals => Scan.isWord table = true ∧ literals ≠ [] ∧
      ∀ literal ∈ literals, Text.IsPhrase literal ∧ ',' ∉ literal ∧ Even (literal.count '\'')
  | .print name => Scan.isWord name = true
  | .select query => query.Canonical

def Unambiguous : Statement → Prop
  | .createFrom _ query => query.Unambiguous
  | .select query => query.Unambiguous
  | _ => True

theorem unambiguous_read {query : Text} {statement : Statement}
    (h : read query = .ok statement) : statement.Unambiguous := by
  obtain ⟨r, -, -, hreads⟩ := exists_reads h
  cases hreads with
  | createFrom _ _ selects => exact selects.unambiguous
  | select _ selects => exact selects.unambiguous
  | createTable | load | store | drop | insert | print => trivial

theorem read_insert {table : Text} {literals : List Text} (htable : Scan.isWord table = true)
    (hne : literals ≠ []) (h : ∀ literal ∈ literals,
      Text.IsPhrase literal ∧ ',' ∉ literal ∧ Even (literal.count '\'')) :
    read (write (.insert table literals)) = .ok (.insert table literals) := by
  have hsep : ", ".toList.count '\'' = 0 := by decide
  have hphrase : Text.IsPhrase (writeList literals) :=
    isPhrase_writeList hne fun literal hliteral => (h literal hliteral).1
  have hquotes : Even ((writeList literals).count '\'') := by
    refine Text.intercalate_induction (P := fun t => Even (t.count '\'')) (fun s t hs ht => ?_) hne
      fun literal hliteral => (h literal hliteral).2.2
    rw [List.count_append, List.count_append, hsep, Nat.zero_add]
    exact hs.add ht
  have hfields := fields_writeList (fun literal hliteral => (h literal hliteral).2.1)
    (fun literal hliteral => (h literal hliteral).1.tidy) hne
  have hread := read_insertText htable hphrase hquotes
  rwa [hfields] at hread

theorem read_select_write {query : Select} (h : query.Canonical) (hu : query.Unambiguous) :
    read query.write = .ok (.select query) := by
  rw [read_select h.collapse_write, h.read_body hu]
  rfl

theorem read_createFrom {name : Text} {query : Select} (hname : Scan.isWord name = true)
    (h : query.Canonical) (hu : query.Unambiguous) :
    read (write (.createFrom name query)) = .ok (.createFrom name query) := by
  have hread := read_createText hname h.collapse_write
  rw [h.read_body hu] at hread
  exact hread

/-- A statement is read as it is written exactly if it is unambiguous. -/
theorem read_write_iff {statement : Statement} (h : statement.Canonical) :
    read statement.write = .ok statement ↔ statement.Unambiguous := by
  refine ⟨unambiguous_read, fun hu => ?_⟩
  cases statement with
  | createTable name columns => exact read_createTable h.1 h.2.1 h.2.2
  | createFrom name query => exact read_createFrom h.1 h.2 hu
  | load name => exact read_load h
  | store name => exact read_store h
  | drop name => exact read_drop h
  | insert table literals => exact read_insert h.1 h.2.1 h.2.2
  | print name => exact read_print h
  | select query => exact read_select_write h hu

def quotedStatement : Statement :=
  .createFrom ['k'] ⟨.targets [.column ['a'], .computed ['b'] .add "'from x'".toList ['c']],
    [['t'], ['u']], [⟨['a'], .equal, "'x, where (y'".toList⟩, ⟨['b'], .unequal, ['d']⟩]⟩

theorem read_write_iff_quotedStatement :
    quotedStatement.Canonical ∧ quotedStatement.Unambiguous ∧
      quotedStatement.write = ("create table k as select a, b + 'from x' as c from t, u " ++
        "where a == 'x, where (y' and b != d").toList ∧
      read quotedStatement.write = .ok quotedStatement := by
  have hquoted : Text.IsOperand "'from x'".toList ∧ Text.IsOperand "'x, where (y'".toList :=
    ⟨@Text.IsOperand.quoted "from x".toList (by decide) (by decide),
      @Text.IsOperand.quoted "x, where (y".toList (by decide) (by decide)⟩
  have hcanonical : quotedStatement.Canonical := by
    refine ⟨by decide, ⟨List.cons_ne_nil _ _, ?_⟩, List.cons_ne_nil _ _, by decide, ?_⟩
    · refine List.forall_mem_cons.2 ⟨⟨by decide, by decide, by decide⟩, ?_⟩
      exact List.forall_mem_singleton.2 ⟨by decide, hquoted.1, by decide⟩
    · refine List.forall_mem_cons.2 ⟨⟨by decide, hquoted.2⟩, ?_⟩
      exact List.forall_mem_singleton.2 ⟨by decide, .plain (by decide)⟩
  have hunambiguous : quotedStatement.Unambiguous := by
    refine ⟨?_, ?_⟩
    · exact List.forall_mem_cons.2 ⟨trivial, List.forall_mem_singleton.2
        ⟨by decide +kernel, by decide, by decide +kernel⟩⟩
    · exact List.forall_mem_cons.2 ⟨⟨by decide +kernel, by decide +kernel⟩,
        List.forall_mem_singleton.2 ⟨by decide +kernel, by decide +kernel⟩⟩
  exact ⟨hcanonical, hunambiguous, by decide, (read_write_iff hcanonical).2 hunambiguous⟩

def productStatement : Statement :=
  .select ⟨.targets [.computed "a*b".toList .add ['c'] ['d']], [['t']], []⟩

/-- The sum is read as a product. -/
theorem read_write_ne_productStatement :
    productStatement.Canonical ∧ productStatement.write = "select a*b + c as d from t".toList ∧
      read productStatement.write ≠ .ok productStatement := by
  refine ⟨⟨⟨List.cons_ne_nil _ _, ?_⟩, List.cons_ne_nil _ _, by decide, List.forall_mem_nil _⟩,
    by decide, by decide +kernel⟩
  exact List.forall_mem_singleton.2 ⟨by decide, .plain (by decide), by decide⟩

end Statement

end Relata
