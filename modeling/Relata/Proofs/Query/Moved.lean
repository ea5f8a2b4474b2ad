import Relata.Proofs.Query.Cursor
import Relata.Proofs.Query.Splice

/-!
# Selects wherever they stand

What follows the words of a command is read as a text of its own. So a select is read in a
create as it is by itself, with the same result; only a failure of its form is told as one
of the create, with the text that stands before the select.
-/

namespace Relata

/-! ## Cutting behind a beginning -/

namespace Text

theorem dropBytes?_add (s t : Text) (n : Nat) :
    dropBytes? (byteSize s + n) (s ++ t) = dropBytes? n t := by
  induction s with
  | nil => rw [byteSize, Nat.zero_add, List.nil_append]
  | cons c s ih =>
      have hpos : 0 < c.utf8Size := Char.utf8Size_pos c
      obtain ⟨m, hm⟩ : ∃ m, c.utf8Size + byteSize s + n = m + 1 :=
        ⟨c.utf8Size + byteSize s + n - 1, by omega⟩
      have hle : c.utf8Size ≤ m + 1 := by omega
      have hrest : m + 1 - c.utf8Size = byteSize s + n := by omega
      rw [byteSize, hm, List.cons_append, dropBytes?, if_pos hle, hrest, ih]

theorem cut?_add (s t : Text) (start stop : Nat) :
    cut? (s ++ t) (byteSize s + start) (byteSize s + stop) = cut? t start stop := by
  simp only [cut?, dropBytes?_add, Nat.add_le_add_iff_left, Nat.add_sub_add_left]

end Text

def Command.words (command : Command) : List Text :=
  command.keyword.word :: (command.object?.map Keyword.word).toList

namespace Reading

variable {r : Reading} {before t : Text} {tokens : List Token} {words : List Text}

theorem isWord_of_mem_words {command : Command} {word : Text} (h : word ∈ command.words) :
    Scan.isWord word = true := by
  rcases List.mem_cons.1 h with rfl | h
  · exact command.keyword.isWord_word
  · obtain ⟨object, -, rfl⟩ := Option.mem_map.1 (Option.mem_toList.1 h)
    exact object.isWord_word

theorem isWord_of_mem_append (command : Command)
    (hwords : ∀ word ∈ words, Scan.isWord word = true) :
    ∀ word ∈ command.words ++ words, Scan.isWord word = true :=
  List.forall_mem_append.2 ⟨fun _ => isWord_of_mem_words, hwords⟩

theorem ofTokens?_words (command : Command) (words : List Text) (rest : List Token) :
    Command.ofTokens? (Scan.wordTokens 0 (command.words ++ words) ++ rest) =
      some (command, Text.byteSize (Scan.spaced command.words) - 1,
        Scan.wordTokens (Text.byteSize (Scan.spaced command.words)) words ++ rest) := by
  cases command <;> rfl

theorem dropBytes?_words (command : Command) (rest : Text) :
    Text.dropBytes? (Text.byteSize (Scan.spaced command.words) - 1)
        (Scan.spaced command.words ++ rest) = some (' ' :: rest) := by
  cases command <;> rfl

/-- What follows the words of a command is scanned as a text of its own. -/
theorem ofText_spaced (command : Command) (hwords : ∀ word ∈ words, Scan.isWord word = true)
    (rest : Text) :
    ofText (Scan.spaced (command.words ++ words) ++ rest) =
      .ok ⟨Scan.spaced (command.words ++ words) ++ rest,
        Scan.wordTokens (Text.byteSize (Scan.spaced command.words)) words ++
          (Scan.ofText rest).tokens.map
            (Token.shift (Text.byteSize (Scan.spaced (command.words ++ words)))),
        (Scan.ofText rest).unclosed.isSome, command, Scan.spaced words ++ rest⟩ := by
  have hall := isWord_of_mem_append command hwords
  have hdrop := dropBytes?_words command (Scan.spaced words ++ rest)
  rw [← List.append_assoc, ← Scan.spaced_append] at hdrop
  rw [ofText_eq, ofScan]
  simp only [Scan.ofText_spaced hall, ofTokens?_words, hdrop, Option.isSome_map]

/-! ## Moving a reading -/

theorem cut_add (hsource : r.source = before ++ t) (start stop : Nat) :
    r.cut (Text.byteSize before + start) (Text.byteSize before + stop) =
      cut { r with source := t } start stop := by
  rw [cut, cut, hsource, Text.cut?_add]

theorem cutToEnd_add (hsource : r.source = before ++ t) (start : Nat) :
    r.cutToEnd (Text.byteSize before + start) = cutToEnd { r with source := t } start := by
  have hcut := cut_add hsource start (Text.byteSize t)
  rw [← Text.byteSize_append, ← hsource] at hcut
  rw [cutToEnd, cutToEnd, hcut]
  rfl

theorem isKeyword_shift (keyword : Keyword) (n : Nat) (token : Token) :
    isKeyword keyword (token.shift n) = isKeyword keyword token :=
  rfl

theorem splitAtFrom?_shift (n : Nat) (tokens : List Token) :
    splitAtFrom? (tokens.map (Token.shift n)) =
      (splitAtFrom? tokens).map fun (token, rest) => (token.shift n, rest.map (Token.shift n)) := by
  induction tokens with
  | nil => rfl
  | cons token tokens ih =>
      rw [List.map_cons, splitAtFrom?, splitAtFrom?, isKeyword_shift]
      split
      · rfl
      · exact ih

theorem tableNames?_shift (n : Nat) (tokens : List Token) :
    tableNames? (tokens.map (Token.shift n)) =
      (tableNames? tokens).map fun (names, rest) => (names, rest.map (Token.shift n)) := by
  induction tokens using tableNames?.induct with
  | case1 name start stop text start' stop' rest ih =>
      simp only [List.map_cons, Token.shift, tableNames?] at ih ⊢
      rw [ih]
      cases tableNames? rest <;> rfl
  | case2 name start stop rest hcomma =>
      cases rest with
      | nil => rfl
      | cons next rest =>
          obtain ⟨kind, text, start', stop'⟩ := next
          cases kind with
          | comma => exact absurd rfl (hcomma text start' stop' rest)
          | word => rfl
          | quoted => rfl
          | leftParen => rfl
          | rightParen => rfl
  | case3 tokens hpair hword =>
      cases tokens with
      | nil => rfl
      | cons first rest =>
          obtain ⟨kind, text, start, stop⟩ := first
          cases kind with
          | word => exact absurd rfl (hword text start stop rest)
          | comma => rfl
          | quoted => rfl
          | leftParen => rfl
          | rightParen => rfl

theorem tableNames?_word {name : Text} {start stop : Nat}
    (h : ∀ token, tokens.head? = some token → token.kind ≠ .comma) :
    tableNames? (⟨.word, name, start, stop⟩ :: tokens) = some ([name], tokens) := by
  rw [tableNames?]
  rintro text start' stop' rest rfl
  exact h _ rfl rfl

theorem conditions_shift (hsource : r.source = before ++ t) (tokens : List Token) :
    r.conditions (tokens.map (Token.shift (Text.byteSize before))) =
      conditions { r with source := t } tokens := by
  cases tokens with
  | nil => rfl
  | cons token tokens =>
      unfold conditions
      simp only [List.map_cons, isKeyword_shift]
      cases tokens with
      | nil => rfl
      | cons first rest =>
          have hclause := cutToEnd_add hsource first.start
          simp only [List.map_cons, Token.shift, hclause]
          rfl

/-- A select is read behind a beginning of the text as it is without it. -/
theorem select_shift (hsource : r.source = before ++ t) (tokens : List Token) :
    r.select (tokens.map (Token.shift (Text.byteSize before))) =
      select { r with source := t } tokens := by
  rw [select, select, splitAtFrom?_shift, List.head?_map]
  cases tokens.head? with
  | none => rfl
  | some first =>
      cases splitAtFrom? tokens with
      | none => rfl
      | some found =>
          obtain ⟨fromToken, rest⟩ := found
          have hcut := cut_add hsource first.start fromToken.start
          simp only [Option.map_some, Token.shift, hcut, tableNames?_shift]
          cases tableNames? rest with
          | none => rfl
          | some names =>
              obtain ⟨tables, rest⟩ := names
              have hconditions := conditions_shift hsource rest
              simp only [Option.map_some, hconditions]
              rfl

end Reading

/-! ## Failures told in another way -/

namespace Outcome

theorem mapError_bind (f : ε → ε') (x : Except ε α) (g : α → Except ε β) :
    (x >>= g).mapError f = x.mapError f >>= fun a => (g a).mapError f := by
  cases x <;> rfl

theorem mapError_mapM (f : ε → ε') (g : α → Except ε β) (xs : List α) :
    (xs.mapM g).mapError f = xs.mapM fun x => (g x).mapError f := by
  induction xs with
  | nil => rfl
  | cons x xs ih =>
      rw [List.mapM_cons, List.mapM_cons, mapError_bind, ← ih]
      simp only [mapError_bind]
      rfl

end Outcome

theorem Projection.read_mapError {f : Error → Error}
    (h : ∀ expression, f (.noOperator expression) = .noOperator expression) (failure : Error)
    (t : Text) : read (f failure) t = (read failure t).mapError f := by
  unfold read
  split
  · rfl
  · rw [Outcome.mapError_bind, Outcome.mapError_mapM]
    congr 2
    funext piece
    split
    · rfl
    · unfold Target.read
      split
      · split
        · rfl
        · rw [Except.mapError, h]
      · rfl

theorem Condition.readAll_mapError {f : Error → Error}
    (h : ∀ condition, f (.noComparison condition) = .noComparison condition) (t : Text) :
    readAll t = (readAll t).mapError f := by
  rw [readAll, Outcome.mapError_mapM]
  congr 1
  funext condition
  unfold read
  split
  · rfl
  · rw [Except.mapError, h]

/-- The failure of a select, told as one of the create in which it stands. -/
def Error.within (name : Text) : Error → Error
  | .malformed (some .select) rest =>
      .malformed (some .create) (name ++ " as select ".toList ++ rest)
  | e => e

namespace Reading

/-- The reading of a create whose select is the one read. -/
def within (name : Text) (r : Reading) : Reading :=
  { r with command := .create, remainder := name ++ " as select ".toList ++ r.remainder }

variable {r : Reading} (name : Text) (hcommand : r.command = .select)

include hcommand

theorem failure_within : (r.within name).failure = r.failure.within name := by
  rw [failure, failure, hcommand]
  rfl

theorem cutToEnd_within (start : Nat) :
    (r.within name).cutToEnd start = (r.cutToEnd start).mapError (Error.within name) := by
  rw [cutToEnd, cutToEnd, failure_within name hcommand]
  cases hclosed : r.unclosed with
  | true => simp [within, hclosed, Except.mapError]
  | false =>
      simp only [within, hclosed, Bool.false_eq_true, if_false, cut]
      split <;> rfl

theorem finish_within (rest : List Token) :
    (r.within name).finish rest = (r.finish rest).mapError (Error.within name) := by
  rw [finish, finish, failure_within name hcommand]
  by_cases hend : (rest.isEmpty && !r.unclosed) = true
  · simp [within, hend, Except.mapError]
  · simp [within, hend, Except.mapError]

theorem conditions_within (tokens : List Token) :
    (r.within name).conditions tokens =
      (r.conditions tokens).mapError (Error.within name) := by
  unfold conditions
  cases tokens with
  | nil =>
      simp only [Outcome.mapError_bind, finish_within name hcommand]
      rfl
  | cons token tokens =>
      simp only
      split
      · cases tokens with
        | nil =>
            simp only [failure_within name hcommand]
            rfl
        | cons first rest =>
            simp only [Outcome.mapError_bind, cutToEnd_within name hcommand]
            congr 1
            funext clause
            exact Condition.readAll_mapError (fun _ => rfl) clause
      · simp only [failure_within name hcommand]
        rfl

theorem select_within (tokens : List Token) :
    (r.within name).select tokens = (r.select tokens).mapError (Error.within name) := by
  have hfailure := failure_within name hcommand
  unfold select
  cases tokens.head? with
  | none => simp only [hfailure]; rfl
  | some first =>
      cases splitAtFrom? tokens with
      | none => simp only [hfailure]; rfl
      | some found =>
          obtain ⟨fromToken, rest⟩ := found
          have hcut : (r.within name).cut first.start fromToken.start =
              (r.cut first.start fromToken.start).mapError (Error.within name) := by
            unfold cut
            simp only [within]
            split <;> rfl
          simp only [Outcome.mapError_bind, hcut]
          congr 1
          funext text
          rw [hfailure]
          split
          · rfl
          · rw [Projection.read_mapError (fun _ => rfl), Outcome.mapError_bind]
            congr 1
            funext projection
            cases tableNames? rest with
            | none => rfl
            | some names =>
                simp only [conditions_within name hcommand, Outcome.mapError_bind]
                rfl

end Reading

/-! ## The two ways to a select -/

def Select.read (t : Text) : Except Error Select :=
  let scan := Scan.ofText t
  Reading.select ⟨t, scan.tokens, scan.unclosed.isSome, .select, t⟩ scan.tokens

/-- The text of a query that creates a table from the result of another one. -/
def Statement.createText (name query : Text) : Text :=
  "create table ".toList ++ name ++ " as ".toList ++ query

theorem Reading.create_of_select {r : Reading} {name : Text} {start stop : Nat}
    {second third : Token} {rest : List Token}
    (htokens : r.tokens = ⟨.word, name, start, stop⟩ :: second :: third :: rest)
    (has : isKeyword .asWord second = true) (hselect : isKeyword .select third = true) :
    r.create = .createFrom name <$> r.select rest := by
  have hword : second.kind = .word := by
    simp only [isKeyword, Bool.and_eq_true, decide_eq_true_eq] at has
    exact has.1
  obtain ⟨kind, text, start', stop'⟩ := second
  cases hword
  simp only [create, htokens, has, hselect, Bool.and_true, if_true]
  rfl

namespace Statement

variable {query t name : Text} {words : List Text}

theorem read_of_collapse {command : Command} (hwords : ∀ word ∈ words, Scan.isWord word = true)
    (h : query.collapse = Scan.spaced (command.words ++ words) ++ t) :
    read query = Reading.statement ⟨Scan.spaced (command.words ++ words) ++ t,
      Scan.wordTokens (Text.byteSize (Scan.spaced command.words)) words ++
        (Scan.ofText t).tokens.map
          (Token.shift (Text.byteSize (Scan.spaced (command.words ++ words)))),
      (Scan.ofText t).unclosed.isSome, command, Scan.spaced words ++ t⟩ := by
  rw [read, readCollapsed, h, Reading.ofText_spaced command hwords]
  rfl

theorem read_select (h : query.collapse = "select ".toList ++ t) :
    read query = .select <$> Select.read t := by
  have hselect := Reading.select_shift (r := ⟨Scan.spaced (Command.words .select) ++ t, [],
    (Scan.ofText t).unclosed.isSome, .select, t⟩) rfl (Scan.ofText t).tokens
  have hcollapse : query.collapse = Scan.spaced (Command.words .select ++ []) ++ t := h
  rw [read_of_collapse (List.forall_mem_nil _) hcollapse]
  exact congrArg (Statement.select <$> ·) hselect

theorem createText_eq (name query : Text) :
    createText name query =
      Scan.spaced (Command.words .create ++ [name, Keyword.word .asWord]) ++ query := by
  have hcreate : "create table ".toList = Scan.spaced (Command.words .create) := by decide
  have has : " as ".toList = ' ' :: Scan.spaced [Keyword.word .asWord] := by decide
  unfold createText
  simp only [hcreate, has, Scan.spaced_append, Scan.spaced_cons name, List.append_assoc,
    List.cons_append]

/-- A create with a select fails as the select does, and else takes it as it is read. -/
theorem read_createText (hname : Scan.isWord name = true)
    (h : query.collapse = "select ".toList ++ t) :
    read (createText name query) =
      .createFrom name <$> (Select.read t).mapError (Error.within name) := by
  let words : List Text := [name, Keyword.word .asWord, Keyword.word .select]
  have hwords : ∀ word ∈ words, Scan.isWord word = true := by
    simp only [words, List.forall_mem_cons]
    exact ⟨hname, Keyword.isWord_word _, Keyword.isWord_word _, List.forall_mem_nil _⟩
  have hbefore : ∀ word ∈ Command.words .create ++ [name, Keyword.word .asWord],
      Scan.isWord word = true :=
    Reading.isWord_of_mem_append .create (List.forall_mem_cons.2 ⟨hname,
      List.forall_mem_singleton.2 (Keyword.isWord_word _)⟩)
  have hselectWord : "select ".toList = Scan.spaced [Keyword.word .select] := by decide
  have hne : Text.words query ≠ [] := Text.words_ne_nil_of_collapse (by simp [h])
  have hcollapse : Text.collapse (createText name query) =
      Scan.spaced (Command.words .create ++ words) ++ t := by
    rw [createText_eq, (Scan.collapse_spaced hbefore hne).1, h, hselectWord, ← List.append_assoc,
      ← Scan.spaced_append]
    rfl
  have hremainder : Scan.spaced words ++ t = name ++ " as select ".toList ++ t := by
    have hboth : " as select ".toList =
        ' ' :: Scan.spaced [Keyword.word .asWord, Keyword.word .select] := by decide
    rw [hboth, Scan.spaced_cons name]
  have hselect := Reading.select_shift (r := ⟨Scan.spaced (Command.words .create ++ words) ++ t, [],
    (Scan.ofText t).unclosed.isSome, .create, Scan.spaced words ++ t⟩) rfl (Scan.ofText t).tokens
  have hwithin := Reading.select_within name (r := ⟨t, (Scan.ofText t).tokens,
    (Scan.ofText t).unclosed.isSome, .select, t⟩) rfl (Scan.ofText t).tokens
  rw [read_of_collapse hwords hcollapse]
  simp only [Reading.statement]
  rw [Reading.create_of_select rfl rfl rfl]
  refine congrArg (Statement.createFrom name <$> ·) (hselect.trans ?_)
  rw [hremainder]
  exact hwithin

end Statement

end Relata
