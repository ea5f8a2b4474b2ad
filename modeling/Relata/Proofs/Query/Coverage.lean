import Relata.Proofs.Query.Offsets

/-!
# What the tokens of a text cover

The spans of the tokens follow each other in the text, and outside of them there are only
blanks, up to a quote that is never closed. No word could be longer on either side. A quote
stays open exactly if the number of quotes is odd, and then it is the last of them.
-/

namespace Relata

theorem Text.cases_of_append {first second before after : Text} {c : Char}
    (h : first ++ second = before ++ c :: after) :
    c ∈ first ∧ byteSize before < byteSize first ∨
      ∃ rest, before = first ++ rest ∧ second = rest ++ c :: after := by
  rcases List.append_eq_append_iff.1 h with ⟨rest, hbefore, hsecond⟩ | ⟨rest, hfirst, hafter⟩
  · exact .inr ⟨rest, hbefore, hsecond⟩
  · cases rest with
    | nil => exact .inr ⟨[], by simpa using hfirst.symm, hafter.symm⟩
    | cons d rest =>
        obtain ⟨rfl, -⟩ := List.cons.inj hafter
        have hpos : 0 < c.utf8Size := Char.utf8Size_pos c
        refine .inl ⟨hfirst ▸ List.mem_append_right before List.mem_cons_self, ?_⟩
        rw [hfirst, byteSize_append, byteSize]
        omega

namespace Scan

/-- A character that no word holds: a blank, a comma, a parenthesis or a quote. -/
def Separates (c : Char) : Prop :=
  Text.isBlank c = true ∨ c ∈ [',', '(', ')', '\'']

theorem single?_isSome_iff {c : Char} : (single? c).isSome = true ↔ c ∈ [',', '(', ')'] := by
  unfold single?
  split <;> simp_all

theorem endsWord_iff {c : Char} : endsWord c = true ↔ Separates c := by
  simp only [endsWord, Bool.or_eq_true, single?_isSome_iff, decide_eq_true_eq, Separates,
    List.mem_cons, List.not_mem_nil, or_false, or_assoc]

/-- Around a word between these two texts there is no character that it could take up. -/
def Encloses (before after : Text) : Prop :=
  (∀ c, before.getLast? = some c → Separates c) ∧ ∀ c, after.head? = some c → Separates c

theorem not_separates_of_head? {text after : Text} (h : isWord text = true) {d : Char}
    (hd : (text ++ after).head? = some d) : ¬Separates d := by
  intro hseparates
  cases text with
  | nil => cases h
  | cons c text =>
      cases hd
      exact not_mem_of_isWord h (endsWord_iff.2 hseparates) List.mem_cons_self

end Scan

theorem Token.IsLexeme.separates_of_getLast? {token : Token} (h : token.IsLexeme)
    (hkind : token.kind ≠ .word) {c : Char} (hc : token.text.getLast? = some c) :
    Scan.Separates c := by
  have hlast : c ∈ [',', '(', ')', '\''] := by
    unfold IsLexeme at h
    split at h
    · contradiction
    · obtain ⟨body, -, htext⟩ := h
      rw [htext, List.getLast?_cons, List.getLast?_concat] at hc
      cases hc
      decide
    all_goals
      rw [h] at hc
      cases hc
      decide
  exact .inr hlast

namespace Tiling

variable {unclosed : Option Nat} {position : Nat} {t : Text} {tokens : List Token} {token : Token}

theorem isBlank_of_uncovered (h : Tiling unclosed position t tokens) {before after : Text}
    {c : Char} (ht : t = before ++ c :: after)
    (huncovered : ∀ token ∈ tokens, position + Text.byteSize before < token.start ∨
      token.stop ≤ position + Text.byteSize before)
    (hopened : ∀ opened, unclosed = some opened → position + Text.byteSize before < opened) :
    Text.isBlank c = true := by
  induction h generalizing before with
  | done blank _ => exact blank c (ht ▸ List.mem_append_right before List.mem_cons_self)
  | broken blank _ opened =>
      rcases Text.cases_of_append ht with ⟨hgap, -⟩ | ⟨rest, rfl, -⟩
      · exact blank c hgap
      · have hbefore := hopened _ opened
        rw [Text.byteSize_append] at hbefore
        omega
  | @token position gap _ token _ blank _ start stop _ _ ih =>
      rcases Text.cases_of_append ht with ⟨hgap, -⟩ | ⟨rest, rfl, hrest⟩
      · exact blank c hgap
      · have htoken := huncovered token List.mem_cons_self
        rcases Text.cases_of_append hrest with ⟨-, hwithin⟩ | ⟨later, rfl, hlater⟩
        · rw [Text.byteSize_append] at htoken
          omega
        · have hposition : position + Text.byteSize (gap ++ (token.text ++ later)) =
              token.stop + Text.byteSize later := by
            rw [Text.byteSize_append, Text.byteSize_append]
            omega
          rw [hposition] at huncovered hopened
          exact ih hlater (fun other hother => huncovered other (List.mem_cons_of_mem token hother))
            hopened

/--
A word cannot be longer. On its left there is a token, a blank, or what stands before the
tiled text and goes on with no word there.
-/
theorem exists_of_word (before : Text) (h : Tiling unclosed position t tokens)
    (hposition : position = Text.byteSize before)
    (hbefore : ∀ c d, before.getLast? = some c → t.head? = some d →
      Scan.Separates c ∨ Scan.Separates d)
    (htoken : token ∈ tokens) (hword : token.kind = .word) :
    ∃ front back, before ++ t = front ++ (token.text ++ back) ∧
      token.start = Text.byteSize front ∧ Scan.Encloses front back := by
  -- by induction on the tiling, where what stands before it grows by a token in each step
  induction h generalizing before with
  | done => cases htoken
  | broken => cases htoken
  | @token position gap after first tokens blank lexeme start stop maximal _ ih =>
      rcases List.mem_cons.1 htoken with rfl | htoken
      · refine ⟨before ++ gap, after, by simp, ?_, fun c hc => ?_, fun c hc => ?_⟩
        · rw [Text.byteSize_append, ← hposition, start]
        · rcases List.eq_nil_or_concat gap with rfl | ⟨rest, d, rfl⟩
          · have hlexeme : Scan.isWord token.text = true := by
              simpa only [Token.IsLexeme, hword] using lexeme
            obtain ⟨d, hd⟩ := Option.isSome_iff_exists.1 (List.isSome_head?.2 lexeme.ne_nil)
            have hhead : (token.text ++ after).head? = some d := by
              rw [List.head?_append, hd, Option.some_or]
            rw [List.append_nil] at hc
            exact (hbefore c d hc hhead).resolve_right (Scan.not_separates_of_head? hlexeme hhead)
          · rw [List.concat_eq_append, ← List.append_assoc, List.getLast?_concat] at hc
            cases hc
            exact .inl (blank c (by simp))
        · exact Scan.endsWord_iff.1 (maximal hword c hc)
      · have hnext : ∀ c d, (before ++ (gap ++ first.text)).getLast? = some c →
            after.head? = some d → Scan.Separates c ∨ Scan.Separates d := by
          intro c d hc hd
          by_cases hkind : first.kind = .word
          · exact .inr (Scan.endsWord_iff.1 (maximal hkind d hd))
          · rw [← List.append_assoc, List.getLast?_append_of_ne_nil _ lexeme.ne_nil] at hc
            exact .inl (lexeme.separates_of_getLast? hkind hc)
        have hstop : first.stop = Text.byteSize (before ++ (gap ++ first.text)) := by
          rw [Text.byteSize_append, Text.byteSize_append]
          omega
        obtain ⟨front, back, htext, hstart, hencloses⟩ := ih _ hstop hnext htoken
        exact ⟨front, back, by rw [← htext]; simp, hstart, hencloses⟩

end Tiling

namespace Scan

/-- How the tokens of a scan account for every character of a text. -/
structure Covers (t : Text) (scan : Scan) : Prop where
  nonempty : ∀ token ∈ scan.tokens, token.start < token.stop
  ordered : scan.tokens.Pairwise fun first later => first.stop ≤ later.start
  boundary : ∀ token ∈ scan.tokens, t.IsBoundary token.start ∧ t.IsBoundary token.stop
  content : ∀ token ∈ scan.tokens, t.cut? token.start token.stop = some token.text
  /-- A character outside of all spans and before an open quote is blank. -/
  outside : ∀ before c after, t = before ++ c :: after →
    (∀ token ∈ scan.tokens, Text.byteSize before < token.start ∨
      token.stop ≤ Text.byteSize before) →
    (∀ opened, scan.unclosed = some opened → Text.byteSize before < opened) →
    Text.isBlank c = true
  /-- A word holds no character that separates, and stands between such characters. -/
  word : ∀ token ∈ scan.tokens, token.kind = .word → (∀ c ∈ token.text, ¬Separates c) ∧
    ∃ before after, t = before ++ (token.text ++ after) ∧
      token.start = Text.byteSize before ∧ Encloses before after
  quoted : ∀ token ∈ scan.tokens, token.kind = .quoted →
    ∃ body, '\'' ∉ body ∧ token.text = '\'' :: (body ++ ['\''])
  comma : ∀ token ∈ scan.tokens, token.kind = .comma → token.text = [',']
  leftParen : ∀ token ∈ scan.tokens, token.kind = .leftParen → token.text = ['(']
  rightParen : ∀ token ∈ scan.tokens, token.kind = .rightParen → token.text = [')']
  unclosed_iff : scan.unclosed.isSome = true ↔ Odd (t.count '\'')
  /-- A quote that is never closed is the last one, and no token comes after it. -/
  unclosed : ∀ opened, scan.unclosed = some opened →
    (∃ before after, t = before ++ '\'' :: after ∧ '\'' ∉ after ∧
      opened = Text.byteSize before) ∧ ∀ token ∈ scan.tokens, token.stop ≤ opened
  position : scan.position = t.byteSize

theorem position_ofText (t : Text) : (ofText t).position = t.byteSize := by
  have hrun : ofText t = _ := run_of_tiling (tiling_ofText t)
  rw [hrun, Nat.zero_add]

/-- Every character of every text is accounted for by its tokens. -/
theorem covers_ofText (t : Text) : (ofText t).Covers t := by
  have htiling := tiling_ofText t
  have hsliceable := sliceable_ofText t
  have hlexeme {token : Token} {kind : TokenKind} (htoken : token ∈ (ofText t).tokens)
      (hkind : token.kind = kind) : Token.IsLexeme { token with kind } :=
    hkind ▸ htiling.lexeme htoken
  refine {
    nonempty := fun token htoken => (hsliceable.token token htoken).1
    ordered := htiling.ordered
    boundary := fun token htoken => htiling.isBoundary [] htoken
    content := fun token htoken => (hsliceable.token token htoken).2
    outside := fun before c after ht huncovered hopened => ?_
    word := fun token htoken hkind => ⟨fun c hc hseparates => ?_, ?_⟩
    quoted := fun token htoken hkind => hlexeme htoken hkind
    comma := fun token htoken hkind => hlexeme htoken hkind
    leftParen := fun token htoken hkind => hlexeme htoken hkind
    rightParen := fun token htoken hkind => hlexeme htoken hkind
    unclosed_iff := ?_
    unclosed := fun opened hopened => ?_
    position := position_ofText t }
  · refine htiling.isBlank_of_uncovered ht (fun token htoken => ?_) fun opened hunclosed => ?_
    · rw [Nat.zero_add]
      exact huncovered token htoken
    · rw [Nat.zero_add]
      exact hopened opened hunclosed
  · exact not_mem_of_isWord (hlexeme htoken hkind) (endsWord_iff.2 hseparates) hc
  · exact htiling.exists_of_word [] rfl nofun htoken hkind
  · rw [← Nat.not_even_iff_odd, ← htiling.eq_none_iff_even, ← Option.not_isSome_iff_eq_none,
      Classical.not_not]
  · exact ⟨exists_of_unclosed hopened, (hsliceable.unclosed opened hopened).1⟩

/-- Offsets count bytes: the first word has two characters in three bytes. -/
example : ofText "né'x', 'y".toList =
    ⟨[⟨.word, "né".toList, 0, 3⟩, ⟨.quoted, "'x'".toList, 3, 6⟩, ⟨.comma, [','], 6, 7⟩],
      some 8, 10⟩ := by
  decide

end Scan

end Relata
