import Mathlib.Algebra.Ring.Parity
import Relata.Proofs.Query.Tiling
import Relata.Proofs.Text.Tidy
import Relata.Query.Keyword

/-!
# Putting tokens together

The tokens of a text that closes its quotes are followed by those of the text after it,
wherever a word could end there. A text closes its quotes if their number is even. Moving a
text moves its tokens, so what follows the words of a command is scanned as a text of its own.
-/

namespace Relata

/-! ## Words -/

namespace Scan

theorem ne_nil_of_isWord {t : Text} (h : isWord t = true) : t ≠ [] := by
  rintro rfl
  cases h

theorem isBlank_of_isWord {t : Text} (h : isWord t = true) : ∀ c ∈ t, Text.isBlank c = false := by
  intro c hc
  cases hblank : Text.isBlank c with
  | false => rfl
  | true => exact absurd hc (not_mem_of_isWord h (by simp [endsWord, hblank]))

theorem isPhrase_of_isWord {t : Text} (h : isWord t = true) : Text.IsPhrase t :=
  ⟨Text.tidy_of_forall (isBlank_of_isWord h), ne_nil_of_isWord h⟩

theorem endsWord_of_head? {d : Char} {t : Text} (hd : endsWord d = true) :
    ∀ c, (d :: t).head? = some c → endsWord c = true := by
  intro c hc
  cases hc
  exact hd

end Scan

theorem Text.words_of_isWord {t : Text} (h : Scan.isWord t = true) : words t = [t] :=
  words_of_forall (Scan.ne_nil_of_isWord h) (Scan.isBlank_of_isWord h)

theorem Keyword.isWord_word (keyword : Keyword) : Scan.isWord keyword.word = true := by
  cases keyword <;> decide

/-! ## Tokens of texts in a row -/

namespace Tiling

variable {unclosed : Option Nat} {position : Nat} {s t : Text} {tokens others : List Token}

theorem append_gap {gap : Text} (hgap : ∀ c ∈ gap, Text.isBlank c = true)
    (h : Tiling unclosed (position + Text.byteSize gap) t tokens) :
    Tiling unclosed position (gap ++ t) tokens := by
  induction gap generalizing position with
  | nil => exact h
  | cons c gap ih =>
      obtain ⟨hc, hgap⟩ := List.forall_mem_cons.1 hgap
      rw [Text.byteSize, ← Nat.add_assoc] at h
      exact cons_blank hc (ih hgap h)

/-- The tokens of two texts in a row, where the second does not go on with a word. -/
theorem append (hs : Tiling none position s tokens)
    (ht : Tiling unclosed (position + Text.byteSize s) t others)
    (hmaximal : ∀ c, t.head? = some c → Scan.endsWord c = true) :
    Tiling unclosed position (s ++ t) (tokens ++ others) := by
  induction hs with
  | done blank _ => exact append_gap blank ht
  | broken _ _ opened => cases opened
  | @token position gap after token tokens blank lexeme start stop maximal rest ih =>
      have hposition : position + Text.byteSize (gap ++ (token.text ++ after)) =
          token.stop + Text.byteSize after := by
        rw [Text.byteSize_append, Text.byteSize_append]
        omega
      rw [hposition] at ht
      rw [List.append_assoc, List.append_assoc, List.cons_append]
      refine .token blank lexeme start stop (fun hword c hc => ?_) (ih ht)
      cases after with
      | nil => exact hmaximal c hc
      | cons d after => exact maximal hword c hc

theorem word (h : Scan.isWord t = true) (position : Nat) :
    Tiling none position t [⟨.word, t, position, position + Text.byteSize t⟩] := by
  have htiling : Tiling none position (t ++ []) _ :=
    cons_word h rfl nofun (.done (List.forall_mem_nil _) rfl)
  rwa [List.append_nil] at htiling

theorem exists_cons {c : Char} (hc : Text.isBlank c = false)
    (h : Tiling none position (c :: t) tokens) :
    ∃ token rest, tokens = token :: rest ∧ token.start = position := by
  obtain ⟨text, htext⟩ : ∃ text, text = c :: t := ⟨_, rfl⟩
  rw [← htext] at h
  cases h with
  | done blank _ => exact absurd (blank c (htext ▸ List.mem_cons_self)) (by simp [hc])
  | broken _ _ opened => cases opened
  | @token _ gap after token tokens blank lexeme start stop maximal rest =>
      refine ⟨token, tokens, rfl, ?_⟩
      cases gap with
      | nil => exact start
      | cons d gap =>
          obtain ⟨rfl, -⟩ := List.cons.inj htext
          exact absurd (blank d List.mem_cons_self) (by simp [hc])

/-! ## Quotes -/

theorem count_quote_of_isWord {t : Text} (h : Scan.isWord t = true) : t.count '\'' = 0 :=
  List.count_eq_zero.2 (Scan.not_mem_of_isWord h (by decide))

theorem even_count_lexeme {token : Token} (h : token.IsLexeme) : Even (token.text.count '\'') := by
  unfold Token.IsLexeme at h
  split at h
  · rw [count_quote_of_isWord h]
    exact Even.zero
  · obtain ⟨body, hbody, htext⟩ := h
    rw [htext, List.count_cons_self, List.count_append, List.count_eq_zero.2 hbody]
    decide
  all_goals
    rw [h]
    decide

theorem eq_none_iff_even (h : Tiling unclosed position t tokens) :
    unclosed = none ↔ Even (t.count '\'') := by
  have hgap {gap : Text} (hblank : ∀ c ∈ gap, Text.isBlank c = true) : gap.count '\'' = 0 :=
    List.count_eq_zero.2 fun hmem => absurd (hblank _ hmem) (by decide)
  induction h with
  | done blank closed => simp [closed, hgap blank]
  | broken blank single opened =>
      rw [opened, List.count_append, hgap blank, List.count_cons_self, List.count_eq_zero.2 single]
      simp
  | token blank lexeme _ _ _ _ ih =>
      refine ih.trans ?_
      rw [List.count_append, List.count_append, hgap blank, Nat.zero_add, Nat.even_add,
        iff_true_left (even_count_lexeme lexeme)]

end Tiling

/-- A text with an even number of quotes has tokens wherever it stands. -/
theorem Scan.exists_tiling {t : Text} (h : Even (t.count '\'')) (position : Nat) :
    ∃ tokens, Tiling none position t tokens := by
  have htiling : Tiling (run position .between t).unclosed position t
      (run position .between t).tokens :=
    tiling_run t position .between (State.valid_between position)
  rw [htiling.eq_none_iff_even.2 h] at htiling
  exact ⟨_, htiling⟩

/-! ## Moving -/

/-- The token as it is with a number of bytes before its text. -/
def Token.shift (n : Nat) (token : Token) : Token :=
  { token with start := n + token.start, stop := n + token.stop }

theorem Tiling.shift {unclosed : Option Nat} {position : Nat} {t : Text} {tokens : List Token}
    (n : Nat) (h : Tiling unclosed position t tokens) :
    Tiling (unclosed.map (n + ·)) (n + position) t (tokens.map (Token.shift n)) := by
  induction h with
  | done blank closed => exact .done blank (by rw [closed]; rfl)
  | broken blank single opened =>
      refine .broken blank single ?_
      rw [opened, Option.map_some, Nat.add_assoc]
  | @token position gap after token tokens blank lexeme start stop maximal _ ih =>
      refine @Tiling.token _ _ gap after (token.shift n) _ blank lexeme ?_ ?_ maximal ih
      · rw [Token.shift, start, Nat.add_assoc]
      · rw [Token.shift, stop, Nat.add_assoc]

namespace Scan

/-- A text is scanned at an offset as it is at the beginning. -/
theorem run_between (n : Nat) (t : Text) :
    run n .between t = ⟨(ofText t).tokens.map (Token.shift n), (ofText t).unclosed.map (n + ·),
      n + Text.byteSize t⟩ := by
  have htiling := (tiling_ofText t).shift n
  rw [Nat.add_zero] at htiling
  exact run_of_tiling htiling

/-! ## Words with a space after each -/

def spaced (words : List Text) : Text :=
  words.flatMap fun word => word ++ [' ']

@[simp] theorem spaced_nil : spaced [] = [] :=
  rfl

theorem spaced_cons (word : Text) (words : List Text) :
    spaced (word :: words) = word ++ ' ' :: spaced words := by
  simp [spaced]

theorem spaced_append (words others : List Text) :
    spaced (words ++ others) = spaced words ++ spaced others := by
  simp [spaced]

/-- The tokens of words that begin at a position, each with a space after it. -/
def wordTokens : Nat → List Text → List Token
  | _, [] => []
  | position, word :: words =>
      ⟨.word, word, position, position + Text.byteSize word⟩ ::
        wordTokens (position + Text.byteSize word + 1) words

theorem run_word_space {word : Text} (hword : isWord word = true) (position : Nat) (rest : Text) :
    run position .between (word ++ ' ' :: rest) =
      (run (position + Text.byteSize word + 1) .between rest).prepend
        [⟨.word, word, position, position + Text.byteSize word⟩] := by
  have hspace : run (position + Text.byteSize word) .between ([' '] ++ rest) = _ :=
    run_gap (position + Text.byteSize word) rest (List.forall_mem_singleton.2 rfl)
  rw [run_word position hword (endsWord_of_head? (by decide))]
  exact congrArg _ hspace

variable {words : List Text}

theorem run_spaced (hwords : ∀ word ∈ words, isWord word = true) (position : Nat) (rest : Text) :
    run position .between (spaced words ++ rest) =
      (run (position + Text.byteSize (spaced words)) .between rest).prepend
        (wordTokens position words) := by
  induction words generalizing position with
  | nil => rfl
  | cons word words ih =>
      obtain ⟨hword, hwords⟩ := List.forall_mem_cons.1 hwords
      have hsize : position + Text.byteSize (spaced (word :: words)) =
          position + Text.byteSize word + 1 + Text.byteSize (spaced words) := by
        have hspace : ' '.utf8Size = 1 := rfl
        rw [spaced_cons, Text.byteSize_append, Text.byteSize]
        omega
      rw [hsize, spaced_cons, List.append_assoc, List.cons_append, run_word_space hword, ih hwords]
      rfl

theorem ofText_spaced (hwords : ∀ word ∈ words, isWord word = true) (rest : Text) :
    ofText (spaced words ++ rest) =
      ⟨wordTokens 0 words ++ (ofText rest).tokens.map (Token.shift (Text.byteSize (spaced words))),
        (ofText rest).unclosed.map (Text.byteSize (spaced words) + ·),
        Text.byteSize (spaced words) + Text.byteSize rest⟩ := by
  rw [ofText, run_spaced hwords, Nat.zero_add, run_between]
  rfl

theorem collapse_spaced (hwords : ∀ word ∈ words, isWord word = true) {rest : Text}
    (hrest : Text.words rest ≠ []) :
    Text.collapse (spaced words ++ rest) = spaced words ++ rest.collapse ∧
      Text.words (spaced words ++ rest) ≠ [] := by
  induction words with
  | nil => exact ⟨rfl, hrest⟩
  | cons word words ih =>
      obtain ⟨hword, hwords⟩ := List.forall_mem_cons.1 hwords
      obtain ⟨hcollapse, hne⟩ := ih hwords
      have hphrase := isPhrase_of_isWord hword
      rw [spaced_cons, List.append_assoc, List.cons_append,
        Text.collapse_append_space hphrase.words_ne_nil hne, hphrase.tidy.collapse, hcollapse,
        Text.words_append_blank word _ (by decide), List.append_assoc, List.cons_append]
      exact ⟨rfl, List.append_ne_nil_of_left_ne_nil hphrase.words_ne_nil _⟩

end Scan

end Relata
