import Mathlib.Data.List.Forall2
import Relata.Proofs.Outcome
import Relata.Proofs.Query.Cursor
import Relata.Proofs.Relation.Rows
import Relata.Proofs.Text.Split

/-!
# The parts of a query that a statement is read from

The tokens after the words of a command tile the end of the query, and every statement is put
together from them and from slices of the text: its names are words, its columns are read from
stretches of words, and the clauses of its select are cut out of the query.
-/

namespace Relata

/-! ## Cutting -/

namespace Text

variable {t : Text}

theorem exists_of_dropBytes? {n : Nat} {rest : Text} (h : dropBytes? n t = some rest) :
    ∃ front, t = front ++ rest ∧ n = byteSize front := by
  induction n, t using dropBytes?.induct with
  | case1 t =>
      rw [dropBytes?] at h
      cases h
      exact ⟨[], rfl, rfl⟩
  | case2 n => cases h
  | case3 n c t hle ih =>
      rw [dropBytes?, if_pos hle] at h
      obtain ⟨front, rfl, hsize⟩ := ih h
      refine ⟨c :: front, rfl, ?_⟩
      rw [byteSize, ← hsize]
      omega
  | case4 n c t hle =>
      rw [dropBytes?, if_neg hle] at h
      cases h

theorem leading_of_takeBytes? {n : Nat} {begin : Text} (h : takeBytes? n t = some begin) :
    begin <+: t := by
  induction n, t using takeBytes?.induct generalizing begin with
  | case1 t =>
      rw [takeBytes?] at h
      cases h
      exact List.nil_prefix
  | case2 n => cases h
  | case3 n c t hle ih =>
      rw [takeBytes?, if_pos hle, Option.map_eq_some_iff] at h
      obtain ⟨rest, hrest, rfl⟩ := h
      exact (List.prefix_cons_inj c).2 (ih hrest)
  | case4 n c t hle =>
      rw [takeBytes?, if_neg hle] at h
      cases h

theorem isInfix_of_cut? {part : Text} {start stop : Nat} (h : t.cut? start stop = some part) :
    part <:+: t := by
  unfold cut? at h
  split at h
  · obtain ⟨rest, hrest, hpart⟩ := Option.bind_eq_some_iff.1 h
    obtain ⟨front, rfl, -⟩ := exists_of_dropBytes? hrest
    exact (leading_of_takeBytes? hpart).isInfix.trans (List.suffix_append front rest).isInfix
  · cases h

theorem isSuffix_of_cut? {part : Text} {start : Nat} (h : t.cut? start t.byteSize = some part) :
    part <:+ t := by
  unfold cut? at h
  split at h
  · obtain ⟨rest, hrest, hpart⟩ := Option.bind_eq_some_iff.1 h
    obtain ⟨front, rfl, rfl⟩ := exists_of_dropBytes? hrest
    have hwhole := takeBytes?_append rest []
    rw [List.append_nil] at hwhole
    rw [byteSize_append, Nat.add_sub_cancel_left, hwhole] at hpart
    cases hpart
    exact List.suffix_append front _
  · cases h

end Text

/-! ## Words -/

namespace Scan

variable {s t : Text}

/-- A text in which nothing but blanks ends a word. -/
def OnlyWords (t : Text) : Prop :=
  ∀ c ∈ t, endsWord c = true → Text.isBlank c = true

theorem onlyWords_of_isWord (h : isWord t = true) : OnlyWords t :=
  fun _ hc hends => absurd hc (not_mem_of_isWord h hends)

theorem OnlyWords.append (hs : OnlyWords s) (ht : OnlyWords t) : OnlyWords (s ++ t) :=
  fun c hc => (List.mem_append.1 hc).elim (hs c) (ht c)

theorem OnlyWords.isWord_of_mem_words (h : OnlyWords t) {word : Text} (hword : word ∈ t.words) :
    isWord word = true := by
  obtain ⟨hne, hmem⟩ := Text.mem_words hword
  have hends : ∀ c ∈ word, endsWord c = false := by
    intro c hc
    obtain ⟨hin, hblank⟩ := hmem c hc
    refine Bool.eq_false_iff.2 fun hends => ?_
    rw [h c hin hends] at hblank
    cases hblank
  simpa [isWord] using And.intro hne hends

end Scan

theorem Column.isWord_name {definition : Text} {column : Column}
    (hwords : Scan.OnlyWords definition) (h : Column.read definition = .ok column) :
    Scan.isWord column.name = true := by
  obtain ⟨word, hread, -⟩ := Column.read_eq_ok.1 h
  exact hwords.isWord_of_mem_words (hread ▸ List.mem_cons_self)

theorem Text.inField_of_isWord {t : Text} (h : Scan.isWord t = true) : t.InField :=
  ⟨Scan.not_mem_of_isWord h (by decide), Scan.not_mem_of_isWord h (by decide)⟩

theorem Projection.forall_of_read {failure : Error} {t : Text} {targets : List Target}
    {P : Target → Prop} (h : Projection.read failure t = .ok (.targets targets))
    (hread : ∀ piece : Text, piece <:+: t → ',' ∉ piece.trim → piece.trim ≠ [] →
      ∀ target, Target.read piece.trim = .ok target → P target) :
    targets ≠ [] ∧ ∀ target ∈ targets, P target := by
  unfold Projection.read at h
  split at h
  · cases h
  · obtain ⟨read, hall, h⟩ := Outcome.bind_eq_ok.1 h
    cases h
    constructor
    · rintro rfl
      have hnil := List.forall₂_nil_right_iff.1 (Outcome.mapM_eq_ok.1 hall)
      exact List.splitOn_ne_nil ',' t hnil
    · intro target htarget
      obtain ⟨piece, hpiece, htarget⟩ := Outcome.exists_of_mem_mapM hall htarget
      split at htarget
      · cases htarget
      · have hcomma : ',' ∉ piece.trim := fun hmem =>
          Text.not_mem_of_mem_splitOn hpiece (Text.mem_of_mem_trimWhere hmem)
        exact hread piece (Text.infix_of_mem_splitOn hpiece) hcomma ‹_› target htarget

namespace Reading

variable {r : Reading} {token : Token} {tokens rest : List Token}

/-- The tokens tile the end of the query. -/
def Tiles (r : Reading) (tokens : List Token) : Prop :=
  ∃ unclosed before after, r.source = before ++ after ∧
    Tiling unclosed (Text.byteSize before) after tokens

theorem Tiles.tail (h : r.Tiles (token :: tokens)) : r.Tiles tokens := by
  obtain ⟨unclosed, before, after, hsource, htiling⟩ := h
  cases htiling with
  | @token _ gap after _ _ blank lexeme start stop maximal rest =>
      refine ⟨unclosed, before ++ (gap ++ token.text), after, by simp [hsource], ?_⟩
      rw [Text.byteSize_append, Text.byteSize_append, ← Nat.add_assoc, ← start, ← stop]
      exact rest

theorem Tiles.suffix (h : r.Tiles tokens) (hrest : rest <:+ tokens) : r.Tiles rest := by
  obtain ⟨before, rfl⟩ := hrest
  induction before with
  | nil => exact h
  | cons token before ih => exact ih h.tail

theorem Tiles.lexeme (h : r.Tiles tokens) (htoken : token ∈ tokens) : token.IsLexeme := by
  obtain ⟨unclosed, before, after, -, htiling⟩ := h
  exact htiling.lexeme htoken

theorem cut_eq_ok {start stop : Nat} {t : Text} :
    r.cut start stop = .ok t ↔ r.source.cut? start stop = some t := by
  unfold cut
  cases r.source.cut? start stop <;> simp

theorem isInfix_of_cut {start stop : Nat} {t : Text} (h : r.cut start stop = .ok t) :
    t <:+: r.source :=
  Text.isInfix_of_cut? (cut_eq_ok.1 h)

theorem isSuffix_of_cutToEnd {start : Nat} {t : Text} (h : r.cutToEnd start = .ok t) :
    t <:+ r.source := by
  unfold cutToEnd at h
  split at h
  · cases h
  · exact Text.isSuffix_of_cut? (cut_eq_ok.1 h)

/-! ## Telling the command -/

theorem suffix_of_ofTokens? {command : Command} {stop : Nat}
    (h : Command.ofTokens? tokens = some (command, stop, rest)) : rest <:+ tokens := by
  unfold Command.ofTokens? at h
  split at h
  · rename_i first start stop' after
    split at h
    · cases h
    · split at h
      · cases h
        exact List.suffix_cons _ _
      · rename_i object second start' stop'' rest' _
        split at h
        · cases h
          exact (List.suffix_cons _ _).trans (List.suffix_cons _ _)
        · cases h
      · cases h
  · cases h

theorem ofText_eq_ok {source : Text} (h : ofText source = .ok r) :
    r.source = source ∧ r.Tiles r.tokens := by
  rw [ofText_eq, ofScan] at h
  split at h
  · cases h
  · rename_i command stop after htokens
    split at h
    · cases h
    · cases h
      refine ⟨rfl, Tiles.suffix ?_ (suffix_of_ofTokens? htokens)⟩
      exact ⟨(Scan.ofText source).unclosed, [], source, rfl, Scan.tiling_ofText source⟩
    · cases h

/-! ## Names -/

theorem isWord_of_name {name : Text} (htiles : r.Tiles r.tokens) (h : r.name = .ok name) :
    Scan.isWord name = true := by
  unfold Reading.name at h
  split at h
  · rename_i word start stop rest htokens
    obtain ⟨-, -, h⟩ := Outcome.bind_eq_ok.1 h
    cases h
    have hlexeme := htiles.lexeme (htokens ▸ List.mem_cons_self)
    exact hlexeme
  · cases h

theorem tableNames?_spec {names : List Text} (h : tableNames? tokens = some (names, rest)) :
    names ≠ [] ∧ ∀ name ∈ names, ∃ token ∈ tokens, token.kind = .word ∧ token.text = name := by
  induction tokens using tableNames?.induct generalizing names with
  | case1 name start stop text' start' stop' after ih =>
      rw [tableNames?, Option.map_eq_some_iff] at h
      obtain ⟨⟨others, rest'⟩, hothers, h⟩ := h
      cases h
      refine ⟨List.cons_ne_nil name others, List.forall_mem_cons.2 ⟨?_, ?_⟩⟩
      · exact ⟨_, List.mem_cons_self, rfl, rfl⟩
      · intro other hother
        obtain ⟨token, htoken, hname⟩ := (ih hothers).2 other hother
        exact ⟨token, List.mem_cons_of_mem _ (List.mem_cons_of_mem _ htoken), hname⟩
  | case2 name start stop after hcomma =>
      rw [tableNames?] at h
      · cases h
        refine ⟨List.cons_ne_nil name [], fun other hother => ?_⟩
        exact ⟨_, List.mem_cons_self, rfl, (List.mem_singleton.1 hother).symm⟩
      · exact hcomma
  | case3 tokens hpair hword =>
      rw [tableNames?] at h
      · cases h
      · exact hpair
      · exact hword

theorem splitAtFrom?_spec {rest : List Token} (h : splitAtFrom? tokens = some (token, rest)) :
    token ∈ tokens ∧ rest <:+ tokens := by
  induction tokens with
  | nil => cases h
  | cons head tail ih =>
      unfold splitAtFrom? at h
      split at h
      · cases h
        exact ⟨List.mem_cons_self, List.suffix_cons token rest⟩
      · obtain ⟨hmem, hrest⟩ := ih h
        exact ⟨List.mem_cons_of_mem head hmem, hrest.trans (List.suffix_cons head tail)⟩

/-! ## Column definitions -/

/-- A stretch of the query in which there are only words. -/
def IsStretch (r : Reading) (start stop : Nat) : Prop :=
  ∃ before part after, r.source = before ++ (part ++ after) ∧ start = Text.byteSize before ∧
    stop = start + Text.byteSize part ∧ Scan.OnlyWords part

theorem IsStretch.cut {start stop : Nat} (h : r.IsStretch start stop) :
    ∃ part, r.cut start stop = .ok part ∧ Scan.OnlyWords part := by
  obtain ⟨before, part, after, hsource, rfl, rfl, hwords⟩ := h
  exact ⟨part, cut_eq_ok.2 (hsource ▸ Text.cut?_append before part after), hwords⟩

/-- What a span of definitions covers when the tokens up to a position have been taken. -/
def Covers (r : Reading) (position : Nat) (after : Text) : Option (Nat × Nat) → Prop
  | none => ∃ before, r.source = before ++ after ∧ position = Text.byteSize before
  | some (start, stop) => ∃ before part, r.source = before ++ (part ++ after) ∧
      start = Text.byteSize before ∧ stop = start + Text.byteSize part ∧ position = stop ∧
        Scan.OnlyWords part

theorem Covers.skip {position : Nat} {before after : Text} {span : Option (Nat × Nat)}
    (h : r.Covers position (before ++ after) span) :
    r.Covers (position + Text.byteSize before) after none := by
  cases span with
  | none =>
      obtain ⟨front, hsource, rfl⟩ := h
      exact ⟨front ++ before, by simp [hsource], (Text.byteSize_append front before).symm⟩
  | some span =>
      obtain ⟨front, part, hsource, hstart, hstop, rfl, -⟩ := h
      refine ⟨front ++ (part ++ before), by simp [hsource], ?_⟩
      rw [Text.byteSize_append, Text.byteSize_append, hstop, hstart, Nat.add_assoc]

theorem Covers.word {position start stop : Nat} {gap text after : Text} {span : Option (Nat × Nat)}
    (h : r.Covers position (gap ++ (text ++ after)) span)
    (hblank : ∀ c ∈ gap, Text.isBlank c = true) (hword : Scan.isWord text = true)
    (hstart : start = position + Text.byteSize gap) (hstop : stop = start + Text.byteSize text) :
    r.Covers stop after (some ((span.map Prod.fst).getD start, stop)) := by
  have htext := Scan.onlyWords_of_isWord hword
  cases span with
  | none =>
      obtain ⟨front, hsource, rfl⟩ := h
      refine ⟨front ++ gap, text, by simp [hsource], ?_, hstop, rfl, htext⟩
      rw [Text.byteSize_append]
      exact hstart
  | some span =>
      obtain ⟨front, part, hsource, hspan, hpart, rfl, hwords⟩ := h
      refine ⟨front, part ++ (gap ++ text), by simp [hsource], hspan, ?_, rfl, ?_⟩
      · rw [Text.byteSize_append, Text.byteSize_append, hstop, hstart, hpart]
        simp only [Option.map_some, Option.getD_some]
        omega
      · exact hwords.append (Scan.OnlyWords.append (fun c hc _ => hblank c hc) htext)

theorem Covers.isStretch {position start stop : Nat} {after : Text}
    (h : r.Covers position after (some (start, stop))) : r.IsStretch start stop := by
  obtain ⟨before, part, hsource, hstart, hstop, -, hwords⟩ := h
  exact ⟨before, part, after, hsource, hstart, hstop, hwords⟩

theorem definitionSpans_spec {unclosed : Option Nat} {position : Nat} {after : Text}
    {span : Option (Nat × Nat)} {spans : List (Option (Nat × Nat))}
    (htiling : Tiling unclosed position after tokens) (hspan : r.Covers position after span)
    (h : definitionSpans span tokens = some (spans, rest)) :
    spans ≠ [] ∧ ∀ start stop, some (start, stop) ∈ spans → r.IsStretch start stop := by
  induction span, tokens using definitionSpans.induct generalizing position after spans with
  | case1 span => cases h
  | case2 span text start stop tokens ih =>
      rw [definitionSpans] at h
      cases htiling with
      | token blank lexeme hstart hstop maximal htiling =>
          exact ih htiling (hspan.word blank lexeme hstart hstop) h
  | case3 span text start stop tokens ih =>
      rw [definitionSpans, Option.map_eq_some_iff] at h
      obtain ⟨⟨others, rest'⟩, hothers, h⟩ := h
      cases h
      cases htiling with
      | @token _ gap after _ _ blank lexeme hstart hstop maximal htiling =>
          -- behind a comma a new span begins
          have hnone : r.Covers stop after none := by
            rw [show stop = position + Text.byteSize gap + Text.byteSize text from hstart ▸ hstop]
            exact hspan.skip.skip
          refine ⟨List.cons_ne_nil span others, fun first last hmem => ?_⟩
          rcases List.mem_cons.1 hmem with rfl | hmem
          · exact hspan.isStretch
          · exact (ih htiling hnone hothers).2 first last hmem
  | case4 span text start stop tokens =>
      rw [definitionSpans] at h
      cases h
      refine ⟨List.cons_ne_nil span [], fun first last hmem => ?_⟩
      rw [List.mem_singleton] at hmem
      subst hmem
      exact hspan.isStretch
  | case5 span token tokens hword hcomma hparen =>
      rw [definitionSpans] at h
      · cases h
      · exact hword
      · exact hcomma
      · exact hparen

/-- Columns are read from stretches of words, so their names are words. -/
theorem columns_spec {columns : List Column} (htiles : r.Tiles tokens)
    (h : r.columns tokens = .ok columns) :
    columns ≠ [] ∧ ∀ column ∈ columns, Scan.isWord column.name = true := by
  unfold Reading.columns at h
  split at h
  · cases h
  · rename_i spans rest hspans
    obtain ⟨definitions, hdefinitions, h⟩ := Outcome.bind_eq_ok.1 h
    obtain ⟨read, hread, h⟩ := Outcome.bind_eq_ok.1 h
    obtain ⟨-, -, h⟩ := Outcome.bind_eq_ok.1 h
    cases h
    obtain ⟨unclosed, before, after, hsource, htiling⟩ := htiles
    have hcovers : r.Covers (Text.byteSize before) after none := ⟨before, hsource, rfl⟩
    have hspec := definitionSpans_spec htiling hcovers hspans
    rw [Column.readAll_eq_mapM] at hread
    constructor
    · rintro rfl
      have hnil := List.forall₂_nil_right_iff.1 (Outcome.mapM_eq_ok.1 hread)
      rw [hnil] at hdefinitions
      exact hspec.1 (List.forall₂_nil_right_iff.1 (Outcome.mapM_eq_ok.1 hdefinitions))
    · intro column hcolumn
      obtain ⟨definition, hdefinition, hcolumn⟩ := Outcome.exists_of_mem_mapM hread hcolumn
      obtain ⟨span, hspan, hcut⟩ := Outcome.exists_of_mem_mapM hdefinitions hdefinition
      refine Column.isWord_name ?_ hcolumn
      cases span with
      | none =>
          cases hcut
          exact List.forall_mem_nil _
      | some span =>
          obtain ⟨start, stop⟩ := span
          obtain ⟨part, hpart, hwords⟩ := (hspec.2 start stop hspan).cut
          cases hpart.symm.trans hcut
          exact hwords

/-! ## Selects -/

theorem conditions_cases {conditions : List Condition} (h : r.conditions tokens = .ok conditions) :
    conditions = [] ∨
      ∃ start clause, r.cutToEnd start = .ok clause ∧
        Condition.readAll clause = .ok conditions := by
  unfold Reading.conditions at h
  split at h
  · obtain ⟨-, -, h⟩ := Outcome.bind_eq_ok.1 h
    cases h
    exact .inl rfl
  · split at h
    · split at h
      · cases h
      · obtain ⟨clause, hclause, hread⟩ := Outcome.bind_eq_ok.1 h
        exact .inr ⟨_, clause, hclause, hread⟩
    · cases h

/-- Where the parts of a select are read from. -/
structure Selects (r : Reading) (tokens : List Token) (query : Select) : Prop where
  projection : ∃ start stop text, r.cut start stop = .ok text ∧
    Projection.read r.failure text.trim = .ok query.projection
  tables : ∃ first rest, first <:+ tokens ∧ tableNames? first = some (query.tables, rest)
  conditions : query.conditions = [] ∨ ∃ start clause, r.cutToEnd start = .ok clause ∧
    Condition.readAll clause = .ok query.conditions

theorem selects_of_select {query : Select} (h : r.select tokens = .ok query) :
    r.Selects tokens query := by
  unfold Reading.select at h
  split at h
  · rename_i first fromToken after _ hfrom
    obtain ⟨text, htext, h⟩ := Outcome.bind_eq_ok.1 h
    by_cases hblank : text.trim = []
    · simp only [hblank, if_true] at h
      cases h
    · simp only [hblank, if_false] at h
      obtain ⟨projection, hprojection, h⟩ := Outcome.bind_eq_ok.1 h
      split at h
      · cases h
      · rename_i tables rest htables
        obtain ⟨conditions, hconditions, h⟩ := Outcome.bind_eq_ok.1 h
        cases h
        exact ⟨⟨_, _, text, htext, hprojection⟩,
          ⟨after, rest, (splitAtFrom?_spec hfrom).2, htables⟩, conditions_cases hconditions⟩
  · cases h

namespace Selects

variable {query : Select}

theorem tables_ne_nil (h : r.Selects tokens query) : query.tables ≠ [] := by
  obtain ⟨first, rest, -, htables⟩ := h.tables
  exact (tableNames?_spec htables).1

theorem isWord_tables (h : r.Selects tokens query) (htiles : r.Tiles tokens) :
    ∀ table ∈ query.tables, Scan.isWord table = true := by
  obtain ⟨first, rest, hfirst, htables⟩ := h.tables
  intro table htable
  obtain ⟨token, htoken, hkind, rfl⟩ := (tableNames?_spec htables).2 table htable
  have hlexeme := htiles.lexeme (hfirst.subset htoken)
  rwa [Token.IsLexeme, hkind] at hlexeme

theorem forall_targets {P : Target → Prop} {targets : List Target} (h : r.Selects tokens query)
    (htargets : query.projection = .targets targets)
    (hread : ∀ piece : Text, piece <:+: r.source → ',' ∉ piece.trim → piece.trim ≠ [] →
      ∀ target, Target.read piece.trim = .ok target → P target) :
    targets ≠ [] ∧ ∀ target ∈ targets, P target := by
  obtain ⟨start, stop, text, htext, hprojection⟩ := h.projection
  rw [htargets] at hprojection
  have hpart := (Text.trim_isInfix text).trans (isInfix_of_cut htext)
  exact Projection.forall_of_read hprojection fun piece hpiece =>
    hread piece (hpiece.trans hpart)

end Selects

/-! ## Statements -/

/-- What each kind of statement is put together from. -/
inductive Reads (r : Reading) : Statement → Prop
  | createTable {name : Text} {columns : List Column} {tokens : List Token}
      (word : Scan.isWord name = true) (tiles : r.Tiles tokens)
      (read : r.columns tokens = .ok columns) : Reads r (.createTable name columns)
  | createFrom {name : Text} {query : Select} {tokens : List Token}
      (word : Scan.isWord name = true) (tiles : r.Tiles tokens)
      (selects : r.Selects tokens query) : Reads r (.createFrom name query)
  | load {name : Text} (word : Scan.isWord name = true) : Reads r (.load name)
  | store {name : Text} (word : Scan.isWord name = true) : Reads r (.store name)
  | drop {name : Text} (word : Scan.isWord name = true) : Reads r (.drop name)
  | insert {table text : Text} {start : Nat} (word : Scan.isWord table = true)
      (cut : r.cutToEnd start = .ok text) : Reads r (.insert table text.fields)
  | print {name : Text} (word : Scan.isWord name = true) : Reads r (.print name)
  | select {query : Select} (tiles : r.Tiles r.tokens) (selects : r.Selects r.tokens query) :
      Reads r (.select query)

variable {statement : Statement}

theorem reads_of_create (htiles : r.Tiles r.tokens) (h : r.create = .ok statement) :
    r.Reads statement := by
  unfold Reading.create at h
  split at h
  · rename_i htokens
    obtain ⟨columns, hcolumns, h⟩ := Outcome.bind_eq_ok.1 h
    cases h
    rw [htokens] at htiles
    exact .createTable (htiles.lexeme List.mem_cons_self) htiles.tail.tail hcolumns
  · rename_i htokens
    split at h
    · obtain ⟨query, hquery, h⟩ := Outcome.bind_eq_ok.1 h
      cases h
      rw [htokens] at htiles
      exact .createFrom (htiles.lexeme List.mem_cons_self) htiles.tail.tail.tail
        (selects_of_select hquery)
    · cases h
  · cases h

theorem reads_of_insert (htiles : r.Tiles r.tokens) (h : r.insert = .ok statement) :
    r.Reads statement := by
  unfold Reading.insert at h
  split at h
  · rename_i htokens
    split at h
    · obtain ⟨text, htext, h⟩ := Outcome.bind_eq_ok.1 h
      cases h
      rw [htokens] at htiles
      exact .insert (htiles.lexeme List.mem_cons_self) htext
    · cases h
  · cases h

theorem reads_of_statement (htiles : r.Tiles r.tokens) (h : r.statement = .ok statement) :
    r.Reads statement := by
  have hname {f : Text → Statement} (h : f <$> r.name = .ok statement)
      (hf : ∀ name, Scan.isWord name = true → r.Reads (f name)) : r.Reads statement := by
    obtain ⟨name, hname, rfl⟩ := Outcome.map_eq_ok.1 h
    exact hf name (isWord_of_name htiles hname)
  unfold Reading.statement at h
  split at h
  · exact reads_of_create htiles h
  · exact reads_of_insert htiles h
  · obtain ⟨query, hquery, rfl⟩ := Outcome.map_eq_ok.1 h
    exact .select htiles (selects_of_select hquery)
  · exact hname h fun _ => .load
  · exact hname h fun _ => .store
  · exact hname h fun _ => .drop
  · exact hname h fun _ => .print

end Reading

/-- A query with a statement has a reading of its collapsed text that the statement comes from. -/
theorem Statement.exists_reads {query : Text} {statement : Statement}
    (h : Statement.read query = .ok statement) :
    ∃ r : Reading, r.source = query.collapse ∧ r.Tiles r.tokens ∧ r.Reads statement := by
  obtain ⟨r, hr, hstatement⟩ := Outcome.bind_eq_ok.1 h
  obtain ⟨hsource, htiles⟩ := Reading.ofText_eq_ok hr
  exact ⟨r, hsource, htiles, Reading.reads_of_statement htiles hstatement⟩

theorem Statement.isWord_of_read_createTable {query name : Text} {columns : List Column}
    (h : Statement.read query = .ok (.createTable name columns)) :
    ∀ column ∈ columns, Scan.isWord column.name = true := by
  obtain ⟨r, -, -, hreads⟩ := exists_reads h
  cases hreads with
  | createTable _ tiles read => exact (Reading.columns_spec tiles read).2

end Relata
