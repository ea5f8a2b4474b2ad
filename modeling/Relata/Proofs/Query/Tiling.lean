import Relata.Query.Token

/-!
# How the tokens of a text lie in it

The tokens follow each other in the text with blanks between them. Each token stands
between its offsets, and after the last one there is nothing but blanks or a quote that is
never closed.
-/

namespace Relata

def Token.IsLexeme (token : Token) : Prop :=
  match token.kind with
  | .word => Scan.isWord token.text = true
  | .quoted => ∃ body, '\'' ∉ body ∧ token.text = '\'' :: (body ++ ['\''])
  | .comma => token.text = [',']
  | .leftParen => token.text = ['(']
  | .rightParen => token.text = [')']

/-- How tokens lie in the rest of a text that begins at a position. -/
inductive Tiling (unclosed : Option Nat) : Nat → Text → List Token → Prop
  | done {position : Nat} {gap : Text} (blank : ∀ c ∈ gap, Text.isBlank c = true)
      (closed : unclosed = none) : Tiling unclosed position gap []
  | broken {position : Nat} {gap body : Text} (blank : ∀ c ∈ gap, Text.isBlank c = true)
      (single : '\'' ∉ body) (opened : unclosed = some (position + Text.byteSize gap)) :
      Tiling unclosed position (gap ++ '\'' :: body) []
  | token {position : Nat} {gap after : Text} {token : Token} {tokens : List Token}
      (blank : ∀ c ∈ gap, Text.isBlank c = true) (lexeme : token.IsLexeme)
      (start : token.start = position + Text.byteSize gap)
      (stop : token.stop = token.start + Text.byteSize token.text)
      (maximal : token.kind = .word → ∀ c, after.head? = some c → Scan.endsWord c = true)
      (rest : Tiling unclosed token.stop after tokens) :
      Tiling unclosed position (gap ++ (token.text ++ after)) (token :: tokens)

namespace Tiling

variable {unclosed : Option Nat} {position : Nat} {t : Text} {tokens : List Token}

theorem cons_blank {c : Char} (hc : Text.isBlank c = true)
    (h : Tiling unclosed (position + c.utf8Size) t tokens) :
    Tiling unclosed position (c :: t) tokens := by
  have hblank {gap : Text} (h : ∀ d ∈ gap, Text.isBlank d = true) :
      ∀ d ∈ c :: gap, Text.isBlank d = true :=
    List.forall_mem_cons.2 ⟨hc, h⟩
  cases h with
  | done blank closed => exact .done (hblank blank) closed
  | @broken _ gap body blank single opened =>
      refine @broken _ position (c :: gap) body (hblank blank) single ?_
      rw [opened, Text.byteSize, Nat.add_assoc]
  | @token _ gap after first tokens blank lexeme start stop maximal rest =>
      refine @token _ position (c :: gap) after first tokens (hblank blank) lexeme ?_ stop maximal
        rest
      rw [start, Text.byteSize, Nat.add_assoc]

theorem cons_single {c : Char} {kind : TokenKind} (hc : Scan.single? c = some kind)
    (h : Tiling unclosed (position + c.utf8Size) t tokens) :
    Tiling unclosed position (c :: t) (⟨kind, [c], position, position + c.utf8Size⟩ :: tokens) := by
  have hlexeme : Token.IsLexeme ⟨kind, [c], position, position + c.utf8Size⟩ ∧ kind ≠ .word := by
    unfold Scan.single? at hc
    split at hc <;> cases hc <;> exact ⟨rfl, nofun⟩
  exact token (List.forall_mem_nil _) hlexeme.1 rfl rfl (fun hword => absurd hword hlexeme.2) h

theorem cons_word {text after : Text} {stop : Nat} (hword : Scan.isWord text = true)
    (hstop : stop = position + Text.byteSize text)
    (hmaximal : ∀ c, after.head? = some c → Scan.endsWord c = true)
    (h : Tiling unclosed stop after tokens) :
    Tiling unclosed position (text ++ after) (⟨.word, text, position, stop⟩ :: tokens) :=
  @token _ position [] after ⟨.word, text, position, stop⟩ tokens (List.forall_mem_nil _) hword rfl
    hstop (fun _ => hmaximal) h

theorem cons_quoted {body after : Text} {stop : Nat} (hbody : '\'' ∉ body)
    (hstop : stop = position + Text.byteSize ('\'' :: (body ++ ['\''])))
    (h : Tiling unclosed stop after tokens) :
    Tiling unclosed position ('\'' :: (body ++ ['\'']) ++ after)
      (⟨.quoted, '\'' :: (body ++ ['\'']), position, stop⟩ :: tokens) :=
  @token _ position [] after ⟨.quoted, '\'' :: (body ++ ['\'']), position, stop⟩ tokens
    (List.forall_mem_nil _) ⟨body, hbody, rfl⟩ rfl hstop nofun h

theorem lexeme (h : Tiling unclosed position t tokens) {token : Token} (htoken : token ∈ tokens) :
    token.IsLexeme := by
  induction h with
  | done => cases htoken
  | broken => cases htoken
  | token _ lexeme _ _ _ _ ih =>
      rcases List.mem_cons.1 htoken with rfl | htoken
      · exact lexeme
      · exact ih htoken

end Tiling

namespace Scan

theorem not_mem_of_isWord {t : Text} {c : Char} (h : isWord t = true) (hc : endsWord c = true) :
    c ∉ t := by
  simp only [isWord, Bool.and_eq_true, List.all_eq_true, Bool.not_eq_true'] at h
  intro hmem
  rw [h.2 c hmem] at hc
  cases hc

/-! ## The scan of a text -/

/-- Where the token begins that a scan is reading, or the rest of the text. -/
def State.start (position : Nat) : State → Nat
  | .between => position
  | .inWord start _ => start
  | .inQuote start _ => start

/-- The characters read of a token that is not complete. -/
def State.pending : State → Text
  | .between => []
  | .inWord _ read => read.reverse
  | .inQuote _ read => read.reverse

/-- What holds of a state at a position: it has read the beginning of a token up to there. -/
structure State.Valid (position : Nat) (state : State) : Prop where
  position : position = state.start position + Text.byteSize state.pending
  word : ∀ start read, state = .inWord start read → isWord read.reverse = true
  quote : ∀ start read, state = .inQuote start read → ∃ body, '\'' ∉ body ∧
    read.reverse = '\'' :: body

theorem State.valid_between (position : Nat) : State.between.Valid position :=
  ⟨rfl, nofun, nofun⟩

theorem State.valid_inWord (position : Nat) {c : Char} (hc : endsWord c = false) :
    (State.inWord position [c]).Valid (position + c.utf8Size) where
  position := rfl
  word start read h := by
    cases h
    simp [isWord, hc]
  quote := nofun

theorem State.valid_inQuote (position : Nat) :
    (State.inQuote position ['\'']).Valid (position + '\''.utf8Size) where
  position := rfl
  word := nofun
  quote start read h := by
    cases h
    exact ⟨[], List.not_mem_nil, rfl⟩

theorem State.Valid.read_word {position start : Nat} {read : Text} {c : Char}
    (h : (State.inWord start read).Valid position) (hc : endsWord c = false) :
    (State.inWord start (c :: read)).Valid (position + c.utf8Size) where
  position := by
    have hposition := h.position
    simp only [State.start, State.pending] at hposition ⊢
    rw [List.reverse_cons, Text.byteSize_append]
    simp only [Text.byteSize]
    omega
  word _ _ hsame := by
    cases hsame
    have hread := h.word start read rfl
    simp only [isWord, Bool.and_eq_true, List.all_reverse, List.all_cons] at hread ⊢
    simp [hread.2, hc]
  quote := nofun

theorem State.Valid.read_quote {position start : Nat} {read : Text} {c : Char}
    (h : (State.inQuote start read).Valid position) (hc : c ≠ '\'') :
    (State.inQuote start (c :: read)).Valid (position + c.utf8Size) where
  position := by
    have hposition := h.position
    simp only [State.start, State.pending] at hposition ⊢
    rw [List.reverse_cons, Text.byteSize_append]
    simp only [Text.byteSize]
    omega
  word := nofun
  quote _ _ hsame := by
    cases hsame
    obtain ⟨body, hbody, hread⟩ := h.quote start read rfl
    refine ⟨body ++ [c], ?_, by rw [List.reverse_cons, hread]; rfl⟩
    simp [hbody, Ne.symm hc]

def prepend (tokens : List Token) (scan : Scan) : Scan :=
  { scan with tokens := tokens ++ scan.tokens }

theorem run_cons (position : Nat) (state : State) (c : Char) (rest : Text) :
    run position state (c :: rest) =
      (run (position + c.utf8Size) (step position c state).2 rest).prepend
        (step position c state).1 :=
  rfl

/-- A character that ends a word is read as if the word had ended before. -/
theorem run_inWord_of_endsWord {position start : Nat} {read rest : Text} {c : Char}
    (hc : endsWord c = true) :
    run position (.inWord start read) (c :: rest) =
      (run position .between (c :: rest)).prepend [⟨.word, read.reverse, start, position⟩] := by
  simp [run_cons, step, hc, prepend]

/-- The rest of a scan tiles what has not been given out as tokens. -/
def State.Tiled (rest : Text) (position : Nat) (state : State) : Prop :=
  Tiling (run position state rest).unclosed (state.start position) (state.pending ++ rest)
    (run position state rest).tokens

section Tiled

variable {position start : Nat} {read rest : Text} {c : Char} {state : State}

theorem State.Valid.tiled_nil (h : state.Valid position) : state.Tiled [] position := by
  cases state with
  | between => exact .done (List.forall_mem_nil _) rfl
  | inWord start read =>
      exact Tiling.cons_word (h.word start read rfl) h.position (fun _ hc => nomatch hc)
        (.done (List.forall_mem_nil _) rfl)
  | inQuote start read =>
      obtain ⟨body, hbody, hread⟩ := h.quote start read rfl
      rw [State.Tiled, State.pending, hread, List.append_nil]
      exact .broken (List.forall_mem_nil _) hbody rfl

theorem State.tiled_between
    (hrest : ∀ position (state : State), state.Valid position → state.Tiled rest position) :
    State.between.Tiled (c :: rest) position := by
  unfold State.Tiled
  rw [run_cons, step, begin]
  cases hsingle : single? c with
  | some kind => exact Tiling.cons_single hsingle (hrest _ _ (State.valid_between _))
  | none =>
      by_cases hblank : Text.isBlank c
      · simp only [hblank, if_true]
        exact Tiling.cons_blank hblank (hrest _ _ (State.valid_between _))
      · by_cases hquote : c = '\''
        · subst hquote
          simp only [hblank, Bool.false_eq_true, if_false, if_true]
          exact hrest _ _ (State.valid_inQuote position)
        · have hword : endsWord c = false := by simp [endsWord, hblank, hsingle, hquote]
          simp only [hblank, Bool.false_eq_true, if_false, hquote]
          exact hrest _ _ (State.valid_inWord position hword)

theorem State.Valid.tiled_inWord (h : (State.inWord start read).Valid position)
    (hrest : ∀ position (state : State), state.Valid position → state.Tiled rest position) :
    (State.inWord start read).Tiled (c :: rest) position := by
  by_cases hc : endsWord c
  · unfold State.Tiled
    rw [run_inWord_of_endsWord hc]
    refine Tiling.cons_word (h.word start read rfl) h.position ?_ (State.tiled_between hrest)
    intro d hd
    cases hd
    exact hc
  · have hc' : endsWord c = false := by simpa using hc
    have hnext := hrest _ _ (h.read_word hc')
    unfold State.Tiled at hnext ⊢
    rw [run_cons, step, if_neg hc]
    simpa [State.pending, State.start, prepend] using hnext

theorem State.Valid.tiled_inQuote (h : (State.inQuote start read).Valid position)
    (hrest : ∀ position (state : State), state.Valid position → state.Tiled rest position) :
    (State.inQuote start read).Tiled (c :: rest) position := by
  unfold State.Tiled
  rw [run_cons, step]
  by_cases hc : c = '\''
  · obtain ⟨body, hbody, hread⟩ := h.quote start read rfl
    have hquoted : (c :: read).reverse = '\'' :: (body ++ ['\'']) := by
      rw [List.reverse_cons, hread, hc]
      rfl
    have htext : State.pending (.inQuote start read) ++ c :: rest =
        '\'' :: (body ++ ['\'']) ++ rest := by
      rw [← hquoted, List.reverse_cons, List.append_assoc]
      rfl
    have hstop : position + c.utf8Size = start + Text.byteSize ('\'' :: (body ++ ['\''])) := by
      have hposition := h.position
      simp only [State.start, State.pending] at hposition
      rw [← hquoted, List.reverse_cons, Text.byteSize_append, ← Nat.add_assoc, ← hposition]
      rfl
    rw [htext, if_pos hc, hquoted]
    exact Tiling.cons_quoted hbody hstop (hrest _ _ (State.valid_between _))
  · have hnext := hrest _ _ (h.read_quote hc)
    unfold State.Tiled at hnext
    rw [if_neg hc]
    simpa [State.pending, State.start, prepend] using hnext

end Tiled

/-- From every state that is valid the rest of the scan tiles what is left of the text. -/
theorem tiling_run (rest : Text) (position : Nat) (state : State) (h : state.Valid position) :
    state.Tiled rest position := by
  induction rest generalizing position state with
  | nil => exact h.tiled_nil
  | cons c rest ih =>
      cases state with
      | between => exact State.tiled_between ih
      | inWord start read => exact h.tiled_inWord ih
      | inQuote start read => exact h.tiled_inQuote ih

theorem tiling_ofText (t : Text) : Tiling (ofText t).unclosed 0 t (ofText t).tokens :=
  tiling_run t 0 .between (State.valid_between 0)

/-! ## Reading a tiled text -/

theorem single?_of_isBlank {c : Char} (h : Text.isBlank c = true) : single? c = none := by
  unfold single?
  split
  · exact absurd h (by decide)
  · exact absurd h (by decide)
  · exact absurd h (by decide)
  · rfl

section Run

variable {text : Text} (position start : Nat) (read after : Text)

theorem run_inWord (h : ∀ c ∈ text, endsWord c = false) :
    run position (.inWord start read) (text ++ after) =
      run (position + Text.byteSize text) (.inWord start (text.reverse ++ read)) after := by
  induction text generalizing position read with
  | nil => rfl
  | cons c text ih =>
      obtain ⟨hc, htext⟩ := List.forall_mem_cons.1 h
      have hstep : run position (.inWord start read) (c :: (text ++ after)) =
          run (position + c.utf8Size) (.inWord start (c :: read)) (text ++ after) := by
        simp [run, step, hc]
      rw [List.cons_append, hstep, ih _ _ htext, Text.byteSize, Nat.add_assoc, List.reverse_cons,
        List.append_assoc]
      rfl

theorem run_inQuote (h : '\'' ∉ text) :
    run position (.inQuote start read) (text ++ after) =
      run (position + Text.byteSize text) (.inQuote start (text.reverse ++ read)) after := by
  induction text generalizing position read with
  | nil => rfl
  | cons c text ih =>
      obtain ⟨hc, htext⟩ := not_or.1 (mt List.mem_cons.2 h)
      have hstep : run position (.inQuote start read) (c :: (text ++ after)) =
          run (position + c.utf8Size) (.inQuote start (c :: read)) (text ++ after) := by
        simp [run, step, Ne.symm hc]
      rw [List.cons_append, hstep, ih _ _ htext, Text.byteSize, Nat.add_assoc, List.reverse_cons,
        List.append_assoc]
      rfl

theorem run_gap (h : ∀ c ∈ text, Text.isBlank c = true) :
    run position .between (text ++ after) =
      run (position + Text.byteSize text) .between after := by
  induction text generalizing position with
  | nil => rfl
  | cons c text ih =>
      obtain ⟨hc, htext⟩ := List.forall_mem_cons.1 h
      have hstep : run position .between (c :: (text ++ after)) =
          run (position + c.utf8Size) .between (text ++ after) := by
        simp [run, step, begin, single?_of_isBlank hc, hc]
      rw [List.cons_append, hstep, ih _ htext, Text.byteSize, Nat.add_assoc]

variable {after}

theorem run_inWord_of_maximal (h : ∀ c, after.head? = some c → endsWord c = true) :
    run position (.inWord start read) after =
      (run position .between after).prepend [⟨.word, read.reverse, start, position⟩] := by
  cases after with
  | nil => rfl
  | cons c after => exact run_inWord_of_endsWord (h c rfl)

theorem run_word (hword : isWord text = true)
    (hmaximal : ∀ c, after.head? = some c → endsWord c = true) :
    run start .between (text ++ after) =
      (run (start + Text.byteSize text) .between after).prepend
        [⟨.word, text, start, start + Text.byteSize text⟩] := by
  cases text with
  | nil => cases hword
  | cons c text =>
      simp only [isWord, List.isEmpty_cons, Bool.not_false, Bool.true_and, List.all_cons,
        Bool.and_eq_true, Bool.not_eq_true', List.all_eq_true] at hword
      obtain ⟨hc, htext⟩ := hword
      have hbegin : run start .between (c :: (text ++ after)) =
          run (start + c.utf8Size) (.inWord start [c]) (text ++ after) := by
        simp only [endsWord, Bool.or_eq_false_iff, Option.isSome_eq_false_iff,
          Option.isNone_iff_eq_none, decide_eq_false_iff_not] at hc
        simp [run, step, begin, hc]
      have hread : (text.reverse ++ [c]).reverse = c :: text := by simp
      have hsize : start + Text.byteSize (c :: text) =
          start + c.utf8Size + Text.byteSize text := by
        rw [Text.byteSize, Nat.add_assoc]
      rw [List.cons_append, hbegin, run_inWord _ _ _ _ htext, run_inWord_of_maximal _ _ _ hmaximal,
        hread, hsize]

theorem run_quoted {body : Text} (hbody : '\'' ∉ body) (htext : text = '\'' :: (body ++ ['\''])) :
    run start .between (text ++ after) =
      (run (start + Text.byteSize text) .between after).prepend
        [⟨.quoted, text, start, start + Text.byteSize text⟩] := by
  subst htext
  have hbegin : run start .between ('\'' :: (body ++ '\'' :: after)) =
      run (start + '\''.utf8Size) (.inQuote start ['\'']) (body ++ '\'' :: after) := rfl
  have hstop : start + Text.byteSize ('\'' :: (body ++ ['\''])) =
      start + '\''.utf8Size + Text.byteSize body + '\''.utf8Size := by
    simp only [Text.byteSize, Text.byteSize_append]
    omega
  have hread : ('\'' :: (body.reverse ++ ['\''])).reverse = '\'' :: (body ++ ['\'']) := by simp
  rw [List.cons_append, List.append_assoc, List.singleton_append, hbegin,
    run_inQuote _ _ _ _ hbody, hstop, run_cons, step, if_pos rfl, hread]

theorem run_single {c : Char} {kind : TokenKind} (hc : single? c = some kind) :
    run start .between (c :: after) =
      (run (start + c.utf8Size) .between after).prepend
        [⟨kind, [c], start, start + c.utf8Size⟩] := by
  rw [run_cons, step, begin, hc]

end Run

theorem run_token {token : Token} {after : Text} (hlexeme : token.IsLexeme)
    (hstop : token.stop = token.start + Text.byteSize token.text)
    (hmaximal : token.kind = .word → ∀ c, after.head? = some c → endsWord c = true) :
    run token.start .between (token.text ++ after) =
      (run token.stop .between after).prepend [token] := by
  obtain ⟨kind, text, start, stop⟩ := token
  simp only at hstop
  rw [hstop]
  cases kind with
  | word => exact run_word start hlexeme (hmaximal rfl)
  | quoted =>
      obtain ⟨body, hbody, htext⟩ := hlexeme
      exact run_quoted start hbody htext
  | comma =>
      cases hlexeme
      exact run_single start rfl
  | leftParen =>
      cases hlexeme
      exact run_single start rfl
  | rightParen =>
      cases hlexeme
      exact run_single start rfl

/-- A tiling is the scan of its text. -/
theorem run_of_tiling {unclosed : Option Nat} {position : Nat} {t : Text} {tokens : List Token}
    (h : Tiling unclosed position t tokens) :
    run position .between t = ⟨tokens, unclosed, position + Text.byteSize t⟩ := by
  induction h with
  | @done position gap blank closed =>
      have hrun := run_gap position [] blank
      rw [List.append_nil] at hrun
      rw [hrun, closed]
      rfl
  | @broken position gap body blank single opened =>
      have hbegin : run (position + Text.byteSize gap) .between ('\'' :: body) =
          run (position + Text.byteSize gap + '\''.utf8Size)
            (.inQuote (position + Text.byteSize gap) ['\'']) body := rfl
      have hrun := run_inQuote (position + Text.byteSize gap + '\''.utf8Size)
        (position + Text.byteSize gap) ['\''] [] single
      have hsize : position + Text.byteSize (gap ++ '\'' :: body) =
          position + Text.byteSize gap + '\''.utf8Size + Text.byteSize body := by
        rw [Text.byteSize_append, Text.byteSize]
        omega
      rw [List.append_nil] at hrun
      rw [run_gap position _ blank, opened, hbegin, hrun, hsize]
      rfl
  | @token position gap after token tokens blank lexeme start stop maximal rest ih =>
      have hsize : position + Text.byteSize (gap ++ (token.text ++ after)) =
          token.stop + Text.byteSize after := by
        rw [Text.byteSize_append, Text.byteSize_append]
        omega
      rw [run_gap position _ blank, ← start, run_token lexeme stop maximal, ih, hsize]
      rfl

end Scan

end Relata
