import Mathlib.Data.List.Forall2
import Relata.Proofs.Query.Offsets
import Relata.Proofs.Text.Squeeze

/-!
# The tokens of a collapsed text

Collapsing knows nothing of quotes, and yet it changes no token but the quoted ones, in which
it squeezes the runs of blanks. A text closes its quotes exactly if its collapsed form does.
-/

namespace Relata

/--
A token beside the one that it becomes when its text is collapsed. Only what stands between
quotes can change, and there every run of blanks becomes one space.
-/
structure Token.Collapses (token collapsed : Token) : Prop where
  kind : collapsed.kind = token.kind
  text : collapsed.text = if token.kind = .quoted then token.text.squeeze else token.text

/-! ## Lexemes -/

namespace Text

theorem squeeze_append_quote (s t : Text) :
    squeeze (s ++ '\'' :: t) = squeeze s ++ '\'' :: squeeze t := by
  have hends : ∀ c, ['\''].head? = some c ∨ ['\''].getLast? = some c → isBlank c = false := by
    rintro c (hc | hc) <;> cases hc <;> decide
  exact squeeze_append_append (List.cons_ne_nil _ _) hends s t

theorem squeeze_quoted (body : Text) :
    squeeze ('\'' :: (body ++ ['\''])) = '\'' :: (squeeze body ++ ['\'']) := by
  have hopen : squeeze ('\'' :: (body ++ ['\''])) = '\'' :: squeeze (body ++ ['\'']) :=
    squeeze_append_quote [] (body ++ ['\''])
  rw [hopen, squeeze_append_quote body []]
  rfl

end Text

namespace Token

variable {token : Token}

theorem IsLexeme.ends_not_isBlank (h : token.IsLexeme) {c : Char}
    (hc : token.text.head? = some c ∨ token.text.getLast? = some c) : Text.isBlank c = false := by
  unfold IsLexeme at h
  split at h
  · exact Scan.isBlank_of_isWord h c (hc.elim List.mem_of_head? List.mem_of_getLast?)
  · obtain ⟨body, -, htext⟩ := h
    rw [htext, List.getLast?_cons, List.getLast?_concat] at hc
    rcases hc with hc | hc <;> cases hc <;> decide
  all_goals
    rw [h] at hc
    rcases hc with hc | hc <;> cases hc <;> decide

theorem IsLexeme.squeeze_text (h : token.IsLexeme) (hkind : token.kind ≠ .quoted) :
    token.text.squeeze = token.text := by
  unfold IsLexeme at h
  split at h
  · exact Text.squeeze_of_forall (Scan.isBlank_of_isWord h)
  · contradiction
  all_goals
    rw [h]
    decide

theorem IsLexeme.squeeze (h : token.IsLexeme) (start stop : Nat) :
    IsLexeme ⟨token.kind, token.text.squeeze, start, stop⟩ := by
  by_cases hkind : token.kind = .quoted
  · obtain ⟨kind, text, start', stop'⟩ := token
    cases hkind
    obtain ⟨body, hbody, htext⟩ := h
    refine ⟨Text.squeeze body, fun hmem => ?_, ?_⟩
    · rcases Text.mem_squeeze hmem with hspace | ⟨-, hmem⟩
      · cases hspace
      · exact hbody hmem
    · exact (congrArg Text.squeeze htext).trans (Text.squeeze_quoted body)
  · rw [h.squeeze_text hkind]
    exact h

end Token

namespace Tiling

variable {unclosed : Option Nat} {position : Nat} {t : Text} {tokens : List Token}

/-! ## Blanks at the ends -/

theorem append_blanks {back : Text} (hback : ∀ c ∈ back, Text.isBlank c = true)
    (h : Tiling unclosed position t tokens) : Tiling unclosed position (t ++ back) tokens := by
  have hquote : '\'' ∉ back := fun hmem => absurd (hback _ hmem) (by decide)
  induction h with
  | done blank closed => exact .done (List.forall_mem_append.2 ⟨blank, hback⟩) closed
  | broken blank single opened =>
      rw [List.append_assoc, List.cons_append]
      exact .broken blank (by simp [single, hquote]) opened
  | @token position gap after token tokens blank lexeme start stop maximal _ ih =>
      rw [List.append_assoc, List.append_assoc]
      refine .token blank lexeme start stop (fun hword c hc => ?_) ih
      cases after with
      | nil => simp [Scan.endsWord, hback c (List.mem_of_head? hc)]
      | cons d after => exact maximal hword c hc

theorem exists_trim (t : Text) : ∃ position,
    Tiling (Scan.ofText t).unclosed position t.trim (Scan.ofText t).tokens := by
  obtain ⟨front, back, ht, hfront, hback⟩ := t.exists_trim
  have htrim : Tiling _ (0 + Text.byteSize front) t.trim _ :=
    Scan.tiling_run t.trim (0 + Text.byteSize front) .between (Scan.State.valid_between _)
  have hscan : Scan.ofText (front ++ (t.trim ++ back)) = _ :=
    Scan.run_of_tiling (append_gap hfront (htrim.append_blanks hback))
  rw [← ht] at hscan
  rw [hscan]
  exact ⟨_, htrim⟩

/-! ## Runs of blanks -/

/-- Squeezing a text squeezes its tokens. -/
theorem exists_squeeze (h : Tiling unclosed position t tokens) (start : Nat) :
    ∃ unclosed' tokens', Tiling unclosed' start t.squeeze tokens' ∧
      List.Forall₂ Token.Collapses tokens tokens' ∧ unclosed'.isSome = unclosed.isSome := by
  induction h generalizing start with
  | done blank closed =>
      rw [closed]
      exact ⟨none, [], .done (Text.isBlank_of_mem_squeeze blank) rfl, .nil, rfl⟩
  | @broken position gap body blank single opened =>
      have hquote : '\'' ∉ Text.squeeze body := fun hmem =>
        (Text.mem_squeeze hmem).elim nofun fun hmem => single hmem.2
      rw [Text.squeeze_append_quote, opened]
      exact ⟨some _, [], .broken (Text.isBlank_of_mem_squeeze blank) hquote rfl, .nil, rfl⟩
  | @token position gap after token tokens blank lexeme _ _ maximal _ ih =>
      obtain ⟨unclosed', tokens', hrest, htokens, hunclosed⟩ :=
        ih (start + Text.byteSize gap.squeeze + Text.byteSize token.text.squeeze)
      have hends : ∀ c, token.text.head? = some c ∨ token.text.getLast? = some c →
          Text.isBlank c = false := fun c hc => lexeme.ends_not_isBlank hc
      rw [Text.squeeze_append_append lexeme.ne_nil hends]
      refine ⟨unclosed', ⟨token.kind, token.text.squeeze, _, _⟩ :: tokens', .token
        (Text.isBlank_of_mem_squeeze blank) (lexeme.squeeze _ _) rfl rfl (fun hword c hc => ?_)
        hrest, .cons ⟨rfl, ?_⟩ htokens, hunclosed⟩
      · rw [Text.head?_squeeze, Option.map_eq_some_iff] at hc
        obtain ⟨d, hd, rfl⟩ := hc
        split
        · decide
        · exact maximal hword d hd
      · split
        · rfl
        · exact lexeme.squeeze_text ‹_›

end Tiling

namespace Scan

/--
Collapsing is idempotent, and commutes with scanning: the tokens of a collapsed text are
those of the text, one by one, with the runs of blanks in quoted texts squeezed, and a quote
is left open in the one text exactly if one is in the other.
-/
theorem ofText_collapse (t : Text) :
    t.collapse.collapse = t.collapse ∧
      List.Forall₂ Token.Collapses (ofText t).tokens (ofText t.collapse).tokens ∧
      (ofText t.collapse).unclosed.isSome = (ofText t).unclosed.isSome := by
  obtain ⟨position, htrim⟩ := Tiling.exists_trim t
  obtain ⟨unclosed, tokens, htiling, htokens, hunclosed⟩ := htrim.exists_squeeze 0
  have hscan : ofText t.trim.squeeze = _ := run_of_tiling htiling
  rw [Text.collapse_eq_squeeze_trim t, hscan]
  refine ⟨?_, htokens, hunclosed⟩
  rw [← Text.collapse_eq_squeeze_trim]
  exact (Text.tidy_collapse t).collapse

end Scan

end Relata
