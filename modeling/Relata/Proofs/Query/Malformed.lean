import Relata.Proofs.Query.Clauses
import Relata.Proofs.Query.Moved
import Relata.Proofs.Query.Offsets

/-!
# Malformed queries

A collapsed query has a command exactly if it begins with the words of one and a space after
each. A query without a command is malformed as a whole; one with a command is malformed in
that command and in nothing but what follows those words.
-/

namespace Relata

/-! ## The words of a command -/

namespace Command

/-- What a collapsed query of a command begins with. -/
def opening : Command → Text
  | .create => "create table ".toList
  | .drop => "drop table ".toList
  | .load => "load ".toList
  | .store => "store ".toList
  | .print => "print ".toList
  | .insert => "insert into ".toList
  | .select => "select ".toList

theorem spaced_words (command : Command) : Scan.spaced command.words = command.opening := by
  cases command <;> decide

theorem opening_unique {command other : Command} {t : Text} (h : command.opening <+: t)
    (hother : other.opening <+: t) : other = command := by
  have hprefix := List.prefix_or_prefix_of_prefix hother h
  revert hprefix
  cases command <;> cases other <;> decide

theorem ofTokens?_eq_some {tokens rest : List Token} {command : Command} {stop : Nat}
    (h : ofTokens? tokens = some (command, stop, rest)) :
    (command.object? = none ∧
      ∃ start, tokens = ⟨.word, command.keyword.word, start, stop⟩ :: rest) ∨
    ∃ object, command.object? = some object ∧ ∃ start first start',
      tokens = ⟨.word, command.keyword.word, start, first⟩ ::
        ⟨.word, object.word, start', stop⟩ :: rest := by
  unfold ofTokens? at h
  split at h
  · rename_i first start stop' after
    split at h
    · cases h
    · rename_i told htold
      obtain ⟨keyword, hfirst, hkeyword⟩ := Option.bind_eq_some_iff.1 htold
      have hword : told.keyword.word = first := by
        rw [Keyword.ofWord?_eq_some hfirst]
        cases keyword <;> cases hkeyword <;> rfl
      split at h
      · rename_i hobject
        cases h
        exact .inl ⟨hobject, start, by rw [hword]⟩
      · rename_i object second start'' stop'' after' hobject
        split at h
        · rename_i hsecond
          cases h
          rw [Keyword.ofWord?_eq_some hsecond, ← hword]
          exact .inr ⟨object, hobject, start, stop', start'', rfl⟩
        · cases h
      · cases h
  · cases h

end Command

/-! ## Words at the beginning of a tidy text -/

namespace Tiling

variable {unclosed : Option Nat} {position start stop : Nat} {t text before : Text}
  {tokens : List Token}

theorem begins_with_word (h : Tiling unclosed position t (⟨.word, text, start, stop⟩ :: tokens))
    (ht : ∀ c, t.head? = some c → Text.isBlank c = false) :
    ∃ after, t = text ++ after ∧ stop = position + Text.byteSize text ∧
      (∀ c, after.head? = some c → Scan.endsWord c = true) ∧ Tiling unclosed stop after tokens := by
  cases h with
  | @token _ gap after _ _ blank lexeme hstart hstop maximal rest =>
      cases gap with
      | nil =>
          obtain rfl : start = position := hstart
          exact ⟨after, rfl, hstop, maximal rfl, rest⟩
      | cons c gap => exact absurd (blank c List.mem_cons_self) (by simp [ht c rfl])

theorem begins_with_space (h : Tiling unclosed position t (⟨.word, text, start, stop⟩ :: tokens))
    (hends : ∀ c, t.head? = some c → Scan.endsWord c = true) (ht : Text.Tidy (before ++ t)) :
    ∃ after, t = ' ' :: after ∧ Text.Tidy after ∧
      Tiling unclosed (position + 1) after (⟨.word, text, start, stop⟩ :: tokens) := by
  cases h with
  | @token _ gap after _ _ blank lexeme hstart hstop maximal rest =>
      cases gap with
      | nil =>
          obtain ⟨c, text, rfl⟩ := List.exists_cons_of_ne_nil (Scan.ne_nil_of_isWord lexeme)
          exact absurd List.mem_cons_self (Scan.not_mem_of_isWord lexeme (hends c rfl))
      | cons c gap =>
          obtain ⟨hc, hgap⟩ := List.forall_mem_cons.1 blank
          obtain rfl := ht.space c (by simp) hc
          refine ⟨_, rfl, ht.of_append_cons hc, .token hgap lexeme ?_ hstop maximal rest⟩
          rw [hstart, Text.byteSize, ← Nat.add_assoc]
          rfl

end Tiling

/-! ## Telling the command of a collapsed query -/

namespace Reading

variable {source : Text} {r : Reading}

theorem ofText_opening (command : Command) (rest : Text) :
    ∃ r, ofText (command.opening ++ rest) = .ok r ∧ r.command = command ∧ r.remainder = rest := by
  have htext := ofText_spaced command (List.forall_mem_nil _) rest
  rw [List.append_nil, command.spaced_words] at htext
  exact ⟨_, htext, rfl, rfl⟩

theorem exists_after_of_ofTokens? {unclosed : Option Nat} {tokens rest : List Token}
    {command : Command} {stop : Nat} (htiling : Tiling unclosed 0 source tokens)
    (ht : Text.Tidy source) (h : Command.ofTokens? tokens = some (command, stop, rest)) :
    ∃ words after, source = words ++ after ∧ stop = Text.byteSize words ∧
      words ++ [' '] = command.opening := by
  rcases Command.ofTokens?_eq_some h with
    ⟨hobject, start, rfl⟩ | ⟨object, hobject, start, first, start', rfl⟩
  · obtain ⟨after, hsource, hstop, -, -⟩ := htiling.begins_with_word ht.head
    refine ⟨_, after, hsource, by rw [hstop, Nat.zero_add], ?_⟩
    rw [← command.spaced_words, Command.words, hobject, Option.map_none, Option.toList_none,
      Scan.spaced_cons, Scan.spaced_nil]
  · obtain ⟨after, hsource, hfirst, hends, hrest⟩ := htiling.begins_with_word ht.head
    rw [hsource] at ht
    obtain ⟨next, hafter, hnext, hrest⟩ := hrest.begins_with_space hends ht
    obtain ⟨after', hnext', hstop, -, -⟩ := hrest.begins_with_word hnext.head
    refine ⟨command.keyword.word ++ ' ' :: object.word, after', ?_, ?_, ?_⟩
    · rw [hsource, hafter, hnext', List.append_assoc]
      rfl
    · rw [hstop, hfirst, Text.byteSize_append, Text.byteSize, Nat.zero_add, Nat.add_assoc]
      rfl
    · rw [← command.spaced_words, Command.words, hobject, Option.map_some, Option.toList_some,
        Scan.spaced_cons, Scan.spaced_cons, Scan.spaced_nil, List.append_assoc]
      rfl

theorem opening_append_remainder (h : ofText source = .ok r) (ht : Text.Tidy source) :
    r.command.opening ++ r.remainder = source := by
  rw [ofText_eq, ofScan] at h
  split at h
  · cases h
  · rename_i command stop rest htokens
    obtain ⟨words, after, hsource, hstop, hopening⟩ :=
      exists_after_of_ofTokens? (Scan.tiling_ofText source) ht htokens
    -- the cut is made where the last of the words stops
    have hdrop : source.dropBytes? stop = some after := by
      rw [hsource, hstop]
      exact Text.dropBytes?_append words after
    rw [hdrop] at h
    split at h
    · cases h
    · rename_i remainder hafter
      cases h
      cases hafter
      rw [← hopening, hsource, List.append_assoc, List.singleton_append]
    · cases h

/-- A tidy text has a command exactly if it begins with the words of one. -/
theorem ofText_eq_error_iff (ht : Text.Tidy source) {e : Error} :
    ofText source = .error e ↔
      e = .malformed none source ∧ ∀ command : Command, ¬ command.opening <+: source := by
  constructor
  · intro he
    refine ⟨failsOnly_ofText source e he, ?_⟩
    rintro command ⟨rest, rfl⟩
    obtain ⟨r, hr, -, -⟩ := ofText_opening command rest
    rw [hr] at he
    cases he
  · rintro ⟨rfl, hnone⟩
    cases hread : ofText source with
    | error e => rw [failsOnly_ofText source e hread]
    | ok r => exact absurd ⟨r.remainder, opening_append_remainder hread ht⟩ (hnone r.command)

end Reading

/-! ## Reading a query -/

namespace Statement

variable {query text : Text}

/-- A failure of the form of a query is that of telling its command or of its reading. -/
theorem read_eq_malformed {command : Option Command}
    (h : read query = .error (.malformed command text)) :
    Reading.ofText query.collapse = .error (.malformed command text) ∨
      ∃ r, Reading.ofText query.collapse = .ok r ∧ command = some r.command ∧
        text = r.remainder := by
  rw [read, readCollapsed] at h
  cases hread : Reading.ofText query.collapse with
  | error e =>
      rw [hread] at h
      cases h
      exact .inl rfl
  | ok r =>
      rw [hread] at h
      right
      have hfails := Reading.failsOnly_statement (Reading.ofText_eq_ok hread).2 _ h
      rcases hfails with hfailure | hclause
      · cases hfailure
        exact ⟨r, rfl, rfl, rfl⟩
      · cases hclause.isMalformed

/--
A query is malformed as a whole exactly if its collapsed text does not begin with the words of
a command and a space. If it is malformed in a command, the collapsed text begins with the
words of that command alone, and the text told is what follows them, which is not empty.
-/
theorem read_eq_malformed_iff (query : Text) :
    (∀ text, read query = .error (.malformed none text) ↔
      text = query.collapse ∧ ∀ command : Command, ¬ command.opening <+: query.collapse) ∧
    ∀ command text, read query = .error (.malformed (some command) text) →
      text ≠ [] ∧ command.opening ++ text = query.collapse ∧
        command.opening.words.head? = some (Command.name (some command)) ∧
        ∀ other : Command, other.opening <+: query.collapse → other = command := by
  have htidy := Text.tidy_collapse query
  refine ⟨fun text => ⟨fun h => ?_, ?_⟩, fun command text h => ?_⟩
  · rcases read_eq_malformed h with hread | ⟨r, -, hcommand, -⟩
    · obtain ⟨heq, hnone⟩ := (Reading.ofText_eq_error_iff htidy).1 hread
      cases heq
      exact ⟨rfl, hnone⟩
    · cases hcommand
  · rintro ⟨rfl, hnone⟩
    have hread := (Reading.ofText_eq_error_iff htidy).2 ⟨rfl, hnone⟩
    rw [read, readCollapsed, hread]
    rfl
  · rcases read_eq_malformed h with hread | ⟨r, hread, hcommand, rfl⟩
    · cases ((Reading.ofText_eq_error_iff htidy).1 hread).1
    · cases hcommand
      have happend := Reading.opening_append_remainder hread htidy
      refine ⟨fun hnil => ?_, happend, ?_, fun other hother => ?_⟩
      · rw [hnil, List.append_nil] at happend
        have hlast := htidy.last ' ' (by rw [← happend]; cases r.command <;> rfl)
        exact absurd hlast (by decide)
      · cases r.command <;> decide
      · exact Command.opening_unique ⟨r.remainder, happend⟩ hother

/-- Two names after `print`, and a `select` with nothing after it. -/
theorem read_eq_malformed_iff_twoNames :
    (read "print  a b".toList = .error (.malformed (some .print) "a b".toList) ∧
      "a b".toList ≠ [] ∧ "print ".toList ++ "a b".toList = Text.collapse "print  a b".toList) ∧
    read " select ".toList = .error (.malformed none "select".toList) := by
  have hprint : read "print  a b".toList = .error (.malformed (some .print) "a b".toList) := by
    decide +kernel
  obtain ⟨hne, happend, -⟩ := (read_eq_malformed_iff "print  a b".toList).2 .print _ hprint
  have hselect := (read_eq_malformed_iff " select ".toList).1 "select".toList
  refine ⟨⟨hprint, hne, happend⟩, hselect.2 ⟨by decide, fun command => ?_⟩⟩
  cases command <;> decide

end Statement

end Relata
