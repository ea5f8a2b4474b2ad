import Relata.Proofs.InRange
import Relata.Proofs.Query.Parts
import Relata.Proofs.Query.Splice

/-!
# Offsets of tokens

The offsets of tokens lie between characters and follow each other, so every part of a query
from a token to a later one can be cut out. So no query is read with an offset out of range:
once its command is told, it fails as that command or as one of its clauses does.
-/

namespace Relata

open Outcome (FailsOnly)

namespace Text

/-- An offset that lies between two characters of a text, or at one of its ends. -/
def IsBoundary (t : Text) (n : Nat) : Prop :=
  ∃ before after, t = before ++ after ∧ n = byteSize before

theorem isBoundary_byteSize (t : Text) : t.IsBoundary t.byteSize :=
  ⟨t, [], (List.append_nil t).symm, rfl⟩

variable {t : Text} {start stop : Nat}

theorem IsBoundary.le (h : t.IsBoundary start) : start ≤ t.byteSize := by
  obtain ⟨before, after, rfl, rfl⟩ := h
  rw [byteSize_append]
  exact Nat.le_add_right _ _

theorem IsBoundary.isSome_dropBytes? (h : t.IsBoundary start) : (t.dropBytes? start).isSome := by
  obtain ⟨before, after, rfl, rfl⟩ := h
  rw [dropBytes?_append]
  rfl

theorem eq_nil_of_byteSize_eq_zero (h : byteSize t = 0) : t = [] := by
  cases t with
  | nil => rfl
  | cons c t =>
      have hpos : 0 < c.utf8Size := Char.utf8Size_pos c
      rw [byteSize] at h
      omega

theorem prefix_of_byteSize_le {first second : Text} (hfirst : first <+: t) (hsecond : second <+: t)
    (hle : byteSize first ≤ byteSize second) : first <+: second := by
  rcases List.prefix_or_prefix_of_prefix hfirst hsecond with h | h
  · exact h
  · obtain ⟨rest, rfl⟩ := h
    rw [byteSize_append] at hle
    have hnil : rest = [] := eq_nil_of_byteSize_eq_zero (by omega)
    exact ⟨[], by rw [hnil, List.append_nil, List.append_nil]⟩

theorem isSome_cut? (hstart : t.IsBoundary start) (hstop : t.IsBoundary stop)
    (hle : start ≤ stop) : (t.cut? start stop).isSome := by
  obtain ⟨before, after, ht, rfl⟩ := hstart
  obtain ⟨longer, rest, ht', rfl⟩ := hstop
  obtain ⟨middle, rfl⟩ := prefix_of_byteSize_le ⟨after, ht.symm⟩ ⟨rest, ht'.symm⟩ hle
  rw [ht', byteSize_append, List.append_assoc, cut?_append]
  rfl

end Text

/-! ## The tokens of a text -/

theorem Token.IsLexeme.ne_nil {token : Token} (h : token.IsLexeme) : token.text ≠ [] := by
  unfold IsLexeme at h
  split at h
  · exact Scan.ne_nil_of_isWord h
  · obtain ⟨body, -, htext⟩ := h
    rw [htext]
    exact List.cons_ne_nil _ _
  all_goals
    rw [h]
    exact List.cons_ne_nil _ _

namespace Tiling

variable {unclosed : Option Nat} {position : Nat} {t : Text} {tokens : List Token} {token : Token}

theorem exists_of_mem (h : Tiling unclosed position t tokens) (htoken : token ∈ tokens) :
    ∃ before after, t = before ++ (token.text ++ after) ∧
      token.start = position + Text.byteSize before ∧
        token.stop = token.start + Text.byteSize token.text := by
  induction h with
  | done => cases htoken
  | broken => cases htoken
  | @token position gap after first tokens _ _ start stop _ _ ih =>
      rcases List.mem_cons.1 htoken with rfl | htoken
      · exact ⟨gap, after, rfl, start, stop⟩
      · obtain ⟨before, rest, hafter, hstart, hstop⟩ := ih htoken
        refine ⟨gap ++ (first.text ++ before), rest, by simp [hafter], ?_, hstop⟩
        rw [Text.byteSize_append, Text.byteSize_append]
        omega

theorem ordered (h : Tiling unclosed position t tokens) :
    tokens.Pairwise fun first later => first.stop ≤ later.start := by
  induction h with
  | done => exact List.Pairwise.nil
  | broken => exact List.Pairwise.nil
  | token _ _ _ _ _ rest ih =>
      refine List.Pairwise.cons (fun later hlater => ?_) ih
      obtain ⟨before, after, -, hstart, -⟩ := rest.exists_of_mem hlater
      omega

theorem start_lt_stop (h : Tiling unclosed position t tokens) (htoken : token ∈ tokens) :
    token.start < token.stop := by
  obtain ⟨before, after, -, -, hstop⟩ := h.exists_of_mem htoken
  have hpos : Text.byteSize token.text ≠ 0 := fun hzero =>
    (h.lexeme htoken).ne_nil (Text.eq_nil_of_byteSize_eq_zero hzero)
  omega

theorem start_le (h : Tiling unclosed position t (token :: tokens)) {later : Token}
    (hlater : later ∈ token :: tokens) : token.start ≤ later.start := by
  rcases List.mem_cons.1 hlater with rfl | hlater
  · exact Nat.le_refl _
  · have hstop := (List.pairwise_cons.1 h.ordered).1 later hlater
    have hstart := h.start_lt_stop List.mem_cons_self
    omega

theorem isBoundary (before : Text) (h : Tiling unclosed (Text.byteSize before) t tokens)
    (htoken : token ∈ tokens) :
    (before ++ t).IsBoundary token.start ∧ (before ++ t).IsBoundary token.stop := by
  obtain ⟨gap, after, rfl, hstart, hstop⟩ := h.exists_of_mem htoken
  constructor
  · refine ⟨before ++ gap, token.text ++ after, by simp, ?_⟩
    rw [Text.byteSize_append, hstart]
  · refine ⟨before ++ (gap ++ token.text), after, by simp, ?_⟩
    rw [Text.byteSize_append, Text.byteSize_append, hstop, hstart, Nat.add_assoc]

/-- A quote that is never closed is the last one, and stands where it was opened. -/
theorem exists_of_unclosed {opened : Nat} (h : Tiling (some opened) position t tokens) :
    ∃ before body, t = before ++ '\'' :: body ∧ '\'' ∉ body ∧
      opened = position + Text.byteSize before := by
  obtain ⟨unclosed, hunclosed⟩ : ∃ unclosed, unclosed = some opened := ⟨_, rfl⟩
  rw [← hunclosed] at h
  induction h with
  | done _ closed =>
      rw [closed] at hunclosed
      cases hunclosed
  | @broken position gap body _ single hopened =>
      rw [hopened, Option.some.injEq] at hunclosed
      exact ⟨gap, body, rfl, single, hunclosed.symm⟩
  | @token position gap after first tokens _ _ start stop _ _ ih =>
      obtain ⟨before, body, rfl, hbody, hopened⟩ := ih
      refine ⟨gap ++ (first.text ++ before), body, by simp, hbody, ?_⟩
      rw [Text.byteSize_append, Text.byteSize_append]
      omega

theorem stop_le_of_unclosed {opened : Nat} (h : Tiling (some opened) position t tokens)
    (htoken : token ∈ tokens) : token.stop ≤ opened := by
  obtain ⟨unclosed, hunclosed⟩ : ∃ unclosed, unclosed = some opened := ⟨_, rfl⟩
  rw [← hunclosed] at h
  induction h with
  | done => cases htoken
  | broken => cases htoken
  | token _ _ _ _ _ rest ih =>
      rcases List.mem_cons.1 htoken with rfl | htoken
      · rw [hunclosed] at rest
        obtain ⟨before, body, -, -, hopened⟩ := rest.exists_of_unclosed
        omega
      · exact ih htoken

end Tiling

/-- The offsets at which a text is cut, for its tokens or between them. -/
inductive Scan.CutsAt (t : Text) (scan : Scan) : Nat → Prop
  | begin : CutsAt t scan 0
  | finish : CutsAt t scan t.byteSize
  | start {token : Token} (mem : token ∈ scan.tokens) : CutsAt t scan token.start
  | stop {token : Token} (mem : token ∈ scan.tokens) : CutsAt t scan token.stop
  /-- Behind a quote begins the text in which the next one is searched. -/
  | behindQuote {token : Token} (mem : token ∈ scan.tokens) (quoted : token.kind = .quoted) :
      CutsAt t scan (token.start + 1)
  | unclosed {start : Nat} (opened : scan.unclosed = some start) : CutsAt t scan start
  | behindUnclosed {start : Nat} (opened : scan.unclosed = some start) :
      CutsAt t scan (start + 1)

/-- The offsets of a scan follow each other, and every slice between two of them exists. -/
structure Scan.Sliceable (t : Text) (scan : Scan) : Prop where
  /-- A token is the slice between its offsets, and not empty. -/
  token : ∀ token ∈ scan.tokens,
    token.start < token.stop ∧ t.cut? token.start token.stop = some token.text
  ordered : scan.tokens.Pairwise fun first later => first.stop ≤ later.start
  boundary : ∀ offset, scan.CutsAt t offset → t.IsBoundary offset
  slice : ∀ start stop, scan.CutsAt t start → scan.CutsAt t stop → start ≤ stop →
    (t.cut? start stop).isSome
  /-- A slice may begin at a token and run to or through a later one. -/
  between : ∀ (i j : Nat) (first later : Token), i ≤ j →
    scan.tokens[i]? = some first → scan.tokens[j]? = some later →
      (t.cut? first.start later.start).isSome ∧ (t.cut? first.start later.stop).isSome
  toEnd : ∀ token ∈ scan.tokens,
    (t.cut? token.start t.byteSize).isSome ∧ (t.cut? token.stop t.byteSize).isSome
  /-- A quote that is never closed comes after all tokens. -/
  unclosed : ∀ opened, scan.unclosed = some opened →
    (∀ token ∈ scan.tokens, token.stop ≤ opened) ∧
      ∃ body, t.cut? opened t.byteSize = some ('\'' :: body)

namespace Scan

variable {t : Text} {offset : Nat}

theorem exists_of_mem_tokens {token : Token} (h : token ∈ (ofText t).tokens) :
    ∃ before after, t = before ++ (token.text ++ after) ∧
      token.start = Text.byteSize before ∧
        token.stop = Text.byteSize before + Text.byteSize token.text := by
  obtain ⟨before, after, ht, hstart, hstop⟩ := (tiling_ofText t).exists_of_mem h
  rw [Nat.zero_add] at hstart
  rw [hstart] at hstop
  exact ⟨before, after, ht, hstart, hstop⟩

theorem exists_of_unclosed {start : Nat} (h : (ofText t).unclosed = some start) :
    ∃ before body, t = before ++ '\'' :: body ∧ '\'' ∉ body ∧ start = Text.byteSize before := by
  have htiling := tiling_ofText t
  rw [h] at htiling
  obtain ⟨before, body, ht, hbody, hstart⟩ := htiling.exists_of_unclosed
  rw [Nat.zero_add] at hstart
  exact ⟨before, body, ht, hbody, hstart⟩

theorem isBoundary_succ {before after : Text} (ht : t = before ++ '\'' :: after) :
    t.IsBoundary (Text.byteSize before + 1) := by
  refine ⟨before ++ ['\''], after, by simp [ht], ?_⟩
  rw [Text.byteSize_append]
  rfl

theorem isBoundary_ofText (h : (ofText t).CutsAt t offset) : t.IsBoundary offset := by
  have htiling := tiling_ofText t
  cases h with
  | begin => exact ⟨[], t, rfl, rfl⟩
  | finish => exact Text.isBoundary_byteSize t
  | start mem => exact (htiling.isBoundary [] mem).1
  | stop mem => exact (htiling.isBoundary [] mem).2
  -- a quote is one byte long, so the offset after it lies between characters
  | @behindQuote token mem quoted =>
      obtain ⟨before, after, ht, hstart, -⟩ := exists_of_mem_tokens mem
      have hlexeme := htiling.lexeme mem
      rw [Token.IsLexeme, quoted] at hlexeme
      obtain ⟨body, -, htext⟩ := hlexeme
      rw [hstart]
      rw [htext] at ht
      exact isBoundary_succ ht
  | unclosed opened =>
      obtain ⟨before, body, ht, -, hstart⟩ := exists_of_unclosed opened
      exact ⟨before, '\'' :: body, ht, hstart⟩
  | behindUnclosed opened =>
      obtain ⟨before, body, ht, -, hstart⟩ := exists_of_unclosed opened
      rw [hstart]
      exact isBoundary_succ ht

theorem sliceable_ofText (t : Text) : (ofText t).Sliceable t := by
  have htiling := tiling_ofText t
  have hslice (start stop : Nat) (hstart : (ofText t).CutsAt t start)
      (hstop : (ofText t).CutsAt t stop) (hle : start ≤ stop) : (t.cut? start stop).isSome :=
    Text.isSome_cut? (isBoundary_ofText hstart) (isBoundary_ofText hstop) hle
  refine {
    token := fun token htoken => ⟨htiling.start_lt_stop htoken, ?_⟩
    ordered := htiling.ordered
    boundary := fun offset hoffset => isBoundary_ofText hoffset
    slice := hslice
    between := ?_
    toEnd := fun token htoken => ⟨?_, ?_⟩
    unclosed := fun opened hopened => ?_ }
  · obtain ⟨before, after, ht, hstart, hstop⟩ := exists_of_mem_tokens htoken
    have hcut := Text.cut?_append before token.text after
    rw [← ht] at hcut
    rw [hstop, hstart]
    exact hcut
  · intro i j first later hij hfirst hlater
    have hmem := List.mem_of_getElem? hfirst
    have hmem' := List.mem_of_getElem? hlater
    have hle : first.start ≤ later.start := by
      rcases Nat.lt_or_eq_of_le hij with hlt | rfl
      · obtain ⟨hi, rfl⟩ := List.getElem?_eq_some_iff.1 hfirst
        obtain ⟨hj, rfl⟩ := List.getElem?_eq_some_iff.1 hlater
        have hstop := List.pairwise_iff_getElem.1 htiling.ordered i j hi hj hlt
        have hstart := htiling.start_lt_stop hmem
        omega
      · rw [hfirst, Option.some.injEq] at hlater
        exact hlater ▸ Nat.le_refl _
    have hstop := htiling.start_lt_stop hmem'
    exact ⟨hslice _ _ (.start hmem) (.start hmem') hle,
      hslice _ _ (.start hmem) (.stop hmem') (by omega)⟩
  · exact hslice _ _ (.start htoken) .finish (isBoundary_ofText (.start htoken)).le
  · exact hslice _ _ (.stop htoken) .finish (isBoundary_ofText (.stop htoken)).le
  · obtain ⟨before, body, ht, -, hstart⟩ := exists_of_unclosed hopened
    rw [hopened] at htiling
    have hcut := Text.cut?_append before ('\'' :: body) []
    rw [List.append_nil, ← ht, ← Text.byteSize_append, ← ht] at hcut
    rw [hstart]
    exact ⟨fun token htoken => hstart ▸ htiling.stop_le_of_unclosed htoken, body, hcut⟩

end Scan

/-! ## Clauses -/

theorem Target.failsOnly_read (piece : Text) : FailsOnly Error.OfClause (Target.read piece) := by
  unfold Target.read
  split
  · split
    · exact FailsOnly.ok _
    · exact FailsOnly.error ⟨rfl, nofun⟩
  · exact FailsOnly.ok _

theorem Projection.failsOnly_read (failure : Error) (t : Text) :
    FailsOnly (fun e => e = failure ∨ e.OfClause) (Projection.read failure t) := by
  unfold Projection.read
  split
  · exact FailsOnly.ok _
  · refine FailsOnly.bind (FailsOnly.mapM fun piece _ => ?_) fun targets _ => FailsOnly.ok _
    split
    · exact FailsOnly.error (.inl rfl)
    · exact (Target.failsOnly_read _).mono fun _ => .inr

theorem Condition.failsOnly_readAll (t : Text) :
    FailsOnly Error.OfClause (Condition.readAll t) := by
  refine FailsOnly.mapM fun condition _ => ?_
  unfold Condition.read
  split
  · exact FailsOnly.ok _
  · exact FailsOnly.error ⟨rfl, nofun⟩

/-! ## Readings -/

namespace Reading

variable {r : Reading} {tokens : List Token} {token first : Token}

theorem Tiles.isBoundary (h : r.Tiles tokens) (htoken : token ∈ tokens) :
    r.source.IsBoundary token.start ∧ r.source.IsBoundary token.stop := by
  obtain ⟨unclosed, before, after, hsource, htiling⟩ := h
  rw [hsource]
  exact htiling.isBoundary before htoken

theorem Tiles.start_le (h : r.Tiles (first :: tokens)) (htoken : token ∈ first :: tokens) :
    first.start ≤ token.start := by
  obtain ⟨unclosed, before, after, -, htiling⟩ := h
  exact htiling.start_le htoken

/-- How a text fails once its command is told: as that command, or as one of its clauses. -/
def Fails (r : Reading) (e : Error) : Prop :=
  e = r.failure ∨ e.OfClause

theorem failsOnly_failure {α : Type} (r : Reading) :
    FailsOnly r.Fails (.error r.failure : Except Error α) :=
  FailsOnly.error (.inl rfl)

theorem failsOnly_cut {start stop : Nat} (hstart : r.source.IsBoundary start)
    (hstop : r.source.IsBoundary stop) (hle : start ≤ stop) :
    FailsOnly r.Fails (r.cut start stop) := by
  obtain ⟨part, hpart⟩ := Option.isSome_iff_exists.1 (Text.isSome_cut? hstart hstop hle)
  rw [cut_eq_ok.2 hpart]
  exact FailsOnly.ok part

theorem failsOnly_cutToEnd {start : Nat} (hstart : r.source.IsBoundary start) :
    FailsOnly r.Fails (r.cutToEnd start) := by
  unfold cutToEnd
  split
  · exact failsOnly_failure r
  · exact failsOnly_cut hstart (Text.isBoundary_byteSize r.source) hstart.le

theorem failsOnly_finish (r : Reading) (rest : List Token) :
    FailsOnly r.Fails (r.finish rest) := by
  unfold finish
  split
  · exact FailsOnly.ok ()
  · exact failsOnly_failure r

theorem failsOnly_name (r : Reading) : FailsOnly r.Fails r.name := by
  unfold name
  split
  · exact (failsOnly_finish r _).bind fun _ _ => FailsOnly.ok _
  · exact failsOnly_failure r

theorem failsOnly_columns (h : r.Tiles tokens) : FailsOnly r.Fails (r.columns tokens) := by
  unfold columns
  split
  · exact failsOnly_failure r
  · rename_i spans rest hspans
    obtain ⟨unclosed, before, after, hsource, htiling⟩ := h
    have hcovers : r.Covers (Text.byteSize before) after none := ⟨before, hsource, rfl⟩
    have hspec := definitionSpans_spec htiling hcovers hspans
    refine FailsOnly.bind (FailsOnly.mapM fun span hspan => ?_) fun definitions _ => ?_
    · split
      · obtain ⟨part, hpart, -⟩ := (hspec.2 _ _ hspan).cut
        rw [hpart]
        exact FailsOnly.ok part
      · exact FailsOnly.ok []
    · have hread : FailsOnly r.Fails (Column.readAll definitions) :=
        (Column.failsOnly_readAll definitions).mono fun _ => .inr
      refine hread.bind fun columns _ => ?_
      exact (failsOnly_finish r rest).bind fun _ _ => FailsOnly.ok columns

theorem failsOnly_conditions (h : r.Tiles tokens) : FailsOnly r.Fails (r.conditions tokens) := by
  unfold conditions
  split
  · exact (failsOnly_finish r []).bind fun _ _ => FailsOnly.ok []
  · split
    · split
      · exact failsOnly_failure r
      · have hstart := (h.tail.isBoundary List.mem_cons_self).1
        refine (failsOnly_cutToEnd hstart).bind fun clause _ => ?_
        exact (Condition.failsOnly_readAll clause).mono fun _ => .inr
    · exact failsOnly_failure r

theorem suffix_of_tableNames? {names : List Text} {rest : List Token}
    (h : tableNames? tokens = some (names, rest)) : rest <:+ tokens := by
  induction tokens using tableNames?.induct generalizing names with
  | case1 name start stop text' start' stop' after ih =>
      rw [tableNames?, Option.map_eq_some_iff] at h
      obtain ⟨⟨others, rest'⟩, hothers, h⟩ := h
      cases h
      exact ((ih hothers).trans (List.suffix_cons _ _)).trans (List.suffix_cons _ _)
  | case2 name start stop after hcomma =>
      rw [tableNames?] at h
      · cases h
        exact List.suffix_cons _ _
      · exact hcomma
  | case3 tokens hpair hword =>
      rw [tableNames?] at h
      · cases h
      · exact hpair
      · exact hword

theorem failsOnly_select (h : r.Tiles tokens) : FailsOnly r.Fails (r.select tokens) := by
  unfold select
  split
  · rename_i first fromToken rest hfirst hfrom
    obtain ⟨hmem, hrest⟩ := splitAtFrom?_spec hfrom
    cases tokens with
    | nil => cases hfirst
    | cons head tail =>
        cases hfirst
        have hstart := (h.isBoundary List.mem_cons_self).1
        have hstop := (h.isBoundary hmem).1
        refine (failsOnly_cut hstart hstop (h.start_le hmem)).bind fun text _ => ?_
        by_cases hblank : text.trim = []
        · simp only [hblank, if_true]
          exact failsOnly_failure r
        · simp only [hblank, if_false]
          refine (Projection.failsOnly_read r.failure text.trim).bind fun projection _ => ?_
          split
          · exact failsOnly_failure r
          · rename_i tables after htables
            have hafter := (h.suffix hrest).suffix (suffix_of_tableNames? htables)
            exact (failsOnly_conditions hafter).bind fun conditions _ => FailsOnly.ok _
  · exact failsOnly_failure r

theorem failsOnly_create (h : r.Tiles r.tokens) : FailsOnly r.Fails r.create := by
  unfold create
  split
  · rename_i htokens
    rw [htokens] at h
    exact (failsOnly_columns h.tail.tail).bind fun columns _ => FailsOnly.ok _
  · rename_i htokens
    rw [htokens] at h
    split
    · exact (failsOnly_select h.tail.tail.tail).bind fun select _ => FailsOnly.ok _
    · exact failsOnly_failure r
  · exact failsOnly_failure r

theorem failsOnly_insert (h : r.Tiles r.tokens) : FailsOnly r.Fails r.insert := by
  unfold insert
  split
  · rename_i htokens
    rw [htokens] at h
    split
    · have hstart := (h.tail.tail.isBoundary List.mem_cons_self).1
      exact (failsOnly_cutToEnd hstart).bind fun text _ => FailsOnly.ok _
    · exact failsOnly_failure r
  · exact failsOnly_failure r

theorem failsOnly_statement (h : r.Tiles r.tokens) : FailsOnly r.Fails r.statement := by
  unfold statement
  split
  · exact failsOnly_create h
  · exact failsOnly_insert h
  · exact (failsOnly_select h).map _
  · exact (failsOnly_name r).map _
  · exact (failsOnly_name r).map _
  · exact (failsOnly_name r).map _
  · exact (failsOnly_name r).map _

theorem exists_stop_of_ofTokens? {command : Command} {stop : Nat} {rest : List Token}
    (h : Command.ofTokens? tokens = some (command, stop, rest)) :
    ∃ token ∈ tokens, token.stop = stop := by
  unfold Command.ofTokens? at h
  split at h
  · split at h
    · cases h
    · split at h
      · cases h
        exact ⟨_, List.mem_cons_self, rfl⟩
      · split at h
        · cases h
          exact ⟨_, List.mem_cons_of_mem _ List.mem_cons_self, rfl⟩
        · cases h
      · cases h
  · cases h

theorem failsOnly_ofText (source : Text) :
    FailsOnly (· = .malformed none source) (ofText source) := by
  rw [ofText_eq, ofScan]
  split
  · exact FailsOnly.error rfl
  · rename_i command stop rest htokens
    obtain ⟨token, htoken, rfl⟩ := exists_stop_of_ofTokens? htokens
    have htiling := Scan.tiling_ofText source
    have hstop := (htiling.isBoundary [] htoken).2.isSome_dropBytes?
    split
    · rename_i hnone
      rw [List.nil_append, hnone] at hstop
      cases hstop
    · exact FailsOnly.ok _
    · exact FailsOnly.error rfl

end Reading

theorem Statement.inRange_read (query : Text) : InRange (Statement.read query) := by
  have hcommand := Reading.failsOnly_ofText query.collapse
  refine inRange_iff.2 ((hcommand.mono fun e he => he ▸ nofun).bind fun r hr => ?_)
  refine (Reading.failsOnly_statement (Reading.ofText_eq_ok hr).2).mono ?_
  rintro e (rfl | he)
  · exact nofun
  · exact he.ne_outOfRange

end Relata
