import Relata.Proofs.Query.Tiling
import Relata.Query.Grammar

/-!
# Cuts of a scan

Each cut of a scan ends where a token begins or stops, or where the text ends. So no cut is
out of range, and the scan by cuts finds the tokens that a scan by characters finds.
-/

namespace Relata

namespace Cursor

variable {gap after : Text} {position : Nat}

theorem next_append (hgap : ∀ c ∈ gap, Text.isBlank c = true)
    (hafter : ∀ c, after.head? = some c → Text.isBlank c = false) :
    next ⟨gap ++ after, position⟩ = find ⟨after, position + gap.byteSize⟩ := by
  have hcut : advanceTo ⟨gap ++ after, position⟩ (fun c => !Text.isBlank c) =
      .ok (gap, ⟨after, position + gap.byteSize⟩) :=
    advanceTo_append (fun c hc => by simp [hgap c hc]) (fun c hc => by simp [hafter c hc]) position
  rw [next, hcut]
  rfl

theorem next_gap (hgap : ∀ c ∈ gap, Text.isBlank c = true) :
    next ⟨gap, position⟩ = .ok (.nothing ⟨[], position + gap.byteSize⟩) := by
  have hnext : next ⟨gap ++ [], position⟩ = find ⟨[], position + gap.byteSize⟩ :=
    next_append hgap nofun
  rwa [List.append_nil] at hnext

/-! ## One token -/

theorem find_single {c : Char} {kind : TokenKind} (hc : Scan.single? c = some kind) (after : Text)
    (position : Nat) :
    find ⟨c :: after, position⟩ =
      .ok (.token ⟨kind, [c], position, position + Text.byteSize [c]⟩
        ⟨after, position + Text.byteSize [c]⟩) := by
  have hsize : Text.byteSize [c] = 1 := by
    unfold Scan.single? at hc
    split at hc <;> first | rfl | cases hc
  have hcut := advance_append [c] after position
  rw [hsize] at hcut
  simp only [find, hc, hsize]
  rw [← List.singleton_append, hcut]
  rfl

theorem find_word {text : Text} (hword : Scan.isWord text = true)
    (hmaximal : ∀ c, after.head? = some c → Scan.endsWord c = true) (position : Nat) :
    find ⟨text ++ after, position⟩ =
      .ok (.token ⟨.word, text, position, position + text.byteSize⟩
        ⟨after, position + text.byteSize⟩) := by
  have htext : ∀ c ∈ text, Scan.endsWord c = false := fun c hc => by
    simpa using mt (Scan.not_mem_of_isWord hword) (not_not_intro hc)
  have hcut := advanceTo_append htext hmaximal position
  cases text with
  | nil => cases hword
  | cons c text =>
      have hc := htext c List.mem_cons_self
      simp only [Scan.endsWord, Bool.or_eq_false_iff, Option.isSome_eq_false_iff,
        Option.isNone_iff_eq_none, decide_eq_false_iff_not] at hc
      rw [find]
      simp only [List.cons_append, hc]
      rw [← List.cons_append, hcut]
      rfl

theorem dropBytes?_quote (t : Text) : Text.dropBytes? 1 ('\'' :: t) = some t :=
  Text.dropBytes?_append ['\''] t

theorem offset?_quote {body : Text} (hbody : '\'' ∉ body) (after : Text) :
    Text.offset? (· = '\'') (body ++ after) =
      (Text.offset? (· = '\'') after).map (body.byteSize + ·) := by
  refine Text.offset?_append (fun c hc => ?_) after
  exact decide_eq_false fun h : c = '\'' => hbody (h ▸ hc)

/-- A quoted text is cut off after the quote that closes it. -/
theorem find_quoted {text body : Text} (hbody : '\'' ∉ body)
    (htext : text = '\'' :: (body ++ ['\''])) (after : Text) (position : Nat) :
    find ⟨text ++ after, position⟩ =
      .ok (.token ⟨.quoted, text, position, position + text.byteSize⟩
        ⟨after, position + text.byteSize⟩) := by
  have hcut := advance_append text after position
  have hsize : text.byteSize = body.byteSize + 2 := by
    rw [htext, Text.byteSize, Text.byteSize_append]
    exact Nat.add_comm 1 _
  have hquoted : quoted ⟨text ++ after, position⟩ =
      .ok (some (text, ⟨after, position + text.byteSize⟩)) := by
    have hbegin : text ++ after = '\'' :: (body ++ '\'' :: after) := by simp [htext]
    have hclosing : Text.offset? (· = '\'') (body ++ '\'' :: after) = some body.byteSize :=
      offset?_quote hbody ('\'' :: after)
    rw [hsize] at hcut ⊢
    rw [quoted, hbegin, dropBytes?_quote]
    simp only [hclosing]
    rw [← hbegin, hcut]
    rfl
  rw [htext] at hquoted ⊢
  rw [find]
  simp only [List.cons_append] at hquoted ⊢
  simp only [Scan.single?, if_true, hquoted]
  rfl

/-- A quote that is never closed takes up the rest of the text. -/
theorem find_unclosed {body : Text} (hbody : '\'' ∉ body) (position : Nat) :
    find ⟨'\'' :: body, position⟩ =
      .ok (.unclosed position ⟨[], position + Text.byteSize ('\'' :: body)⟩) := by
  have hnone : Text.offset? (· = '\'') body = none := by
    have hoffset := offset?_quote hbody []
    rwa [List.append_nil] at hoffset
  have hquoted : quoted ⟨'\'' :: body, position⟩ = .ok none := by
    rw [quoted, dropBytes?_quote]
    simp only [hnone]
  have hcut := advance_append ('\'' :: body) [] position
  rw [List.append_nil] at hcut
  simp only [find, Scan.single?, if_true, hquoted, bind, Except.bind]
  rw [hcut]
  rfl

theorem isBlank_of_head? {token : Token} (hlexeme : token.IsLexeme) {c : Char}
    (hc : (token.text ++ after).head? = some c) : Text.isBlank c = false := by
  obtain ⟨kind, text, start, stop⟩ := token
  cases kind with
  | word =>
      cases text with
      | nil => cases hlexeme
      | cons d text =>
          cases hc
          cases hblank : Text.isBlank c with
          | false => rfl
          | true =>
              have hends : Scan.endsWord c = true := by simp [Scan.endsWord, hblank]
              exact absurd List.mem_cons_self (Scan.not_mem_of_isWord hlexeme hends)
  | quoted =>
      obtain ⟨body, -, htext⟩ := hlexeme
      cases htext
      cases hc
      decide
  | _ =>
      cases hlexeme
      cases hc
      decide

theorem find_lexeme {token : Token} (hlexeme : token.IsLexeme)
    (hstop : token.stop = token.start + Text.byteSize token.text)
    (hmaximal : token.kind = .word → ∀ c, after.head? = some c → Scan.endsWord c = true) :
    find ⟨token.text ++ after, token.start⟩ = .ok (.token token ⟨after, token.stop⟩) := by
  obtain ⟨kind, text, start, stop⟩ := token
  simp only at hstop
  rw [hstop]
  cases kind with
  | word => exact find_word hlexeme (hmaximal rfl) start
  | quoted =>
      obtain ⟨body, hbody, htext⟩ := hlexeme
      exact find_quoted hbody htext after start
  | comma =>
      cases hlexeme
      exact find_single rfl after start
  | leftParen =>
      cases hlexeme
      exact find_single rfl after start
  | rightParen =>
      cases hlexeme
      exact find_single rfl after start

/-! ## The scan of a text -/

theorem scan_eq (cursor : Cursor) :
    cursor.scan = cursor.next >>= fun finding =>
      match finding with
      | .nothing after => .ok ⟨[], none, after.position⟩
      | .unclosed start after => .ok ⟨[], some start, after.position⟩
      | .token token after =>
          (fun scan => { scan with tokens := token :: scan.tokens }) <$> after.scan := by
  rw [scan]
  split <;> simp_all [bind, Except.bind]

/-- A tiling is found by cuts, none of which is out of range. -/
theorem scan_of_tiling {unclosed : Option Nat} {t : Text} {tokens : List Token}
    (h : Tiling unclosed position t tokens) :
    scan ⟨t, position⟩ = .ok ⟨tokens, unclosed, position + t.byteSize⟩ := by
  -- by induction on the tiling: its next token is what the cursor finds next
  induction h with
  | @done position gap blank closed =>
      rw [scan_eq, next_gap blank, closed]
      rfl
  | @broken position gap body blank single opened =>
      rw [scan_eq, next_append blank (by rintro c ⟨⟩; decide), find_unclosed single, opened,
        Text.byteSize_append, ← Nat.add_assoc]
      rfl
  | @token position gap after token tokens blank lexeme start stop maximal rest ih =>
      have hsize : position + Text.byteSize (gap ++ (token.text ++ after)) =
          token.stop + Text.byteSize after := by
        rw [Text.byteSize_append, Text.byteSize_append]
        omega
      rw [scan_eq, next_append blank fun c hc => isBlank_of_head? lexeme hc, ← start,
        find_lexeme lexeme stop maximal, hsize]
      simp only [bind, Except.bind, ih]
      rfl

end Cursor

namespace Scan

/-- The scan of no text goes out of range: it finds the tokens that tile the text. -/
theorem read_eq (t : Text) : read t = .ok (ofText t) := by
  have htiling := tiling_ofText t
  have hrun : ofText t = _ := run_of_tiling htiling
  rw [read, Cursor.scan_of_tiling htiling, ← hrun]

end Scan

theorem Reading.ofText_eq (source : Text) : ofText source = ofScan source (Scan.ofText source) := by
  rw [ofText, Scan.read_eq]
  rfl

end Relata
