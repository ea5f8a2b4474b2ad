import Mathlib.Data.List.Basic
import Mathlib.Data.List.TakeWhile
import Relata.Session

/-!
# What a session shows

A session answers the lines of its input one after the other, up to the first line that ends
it. So what it shows, how it ends and what it leaves depend on nothing after that line, and
not on whether a line feed follows the last line.
-/

namespace Relata

/-! ## Bytes that end a line -/

namespace Text

theorem eq_lineFeed_of_getLast? {c : Char}
    (h : (String.utf8EncodeChar c).getLast? = some 0x0A) : c = '\n' := by
  have hlast {n : Nat} (hn : UInt8.ofNat n = 0x0A) : n % 256 = 10 := by
    simpa using congrArg UInt8.toNat hn
  simp only [String.utf8EncodeChar] at h
  split at h
  · have hc := hlast (Option.some.inj h)
    exact Char.toNat_inj.1 (by change c.val.toNat = 10; omega)
  · -- a longer form ends with a byte that is not of ASCII
    have hlong : (c.val.toNat % 64 + 128) % 256 = 10 := by
      split at h
      · exact hlast (Option.some.inj h)
      · split at h <;> exact hlast (Option.some.inj h)
    omega

theorem encode_concat (t : Text) (c : Char) :
    encode (t ++ [c]) = encode t ++ String.utf8EncodeChar c := by
  rw [encode, List.flatMap_append]
  exact congrArg (encode t ++ ·) (List.append_nil _)

theorem decode_append_lineFeed (bytes : Bytes) :
    decode (bytes ++ [0x0A]) = (decode bytes).map (· ++ ['\n']) := by
  -- both sides are read as texts: a text whose bytes end in a line feed ends in one itself
  refine Option.ext fun t => ?_
  rw [Option.map_eq_some_iff, decode_eq_some_iff]
  constructor
  · intro h
    rcases List.eq_nil_or_concat t with rfl | ⟨s, c, rfl⟩
    · exact absurd h (List.append_ne_nil_of_right_ne_nil _ (List.cons_ne_nil _ _))
    · have hne : String.utf8EncodeChar c ≠ [] := by
        intro hnil
        have hlength := String.length_utf8EncodeChar c
        rw [hnil] at hlength
        exact absurd hlength (Nat.ne_of_lt (Char.utf8Size_pos c))
      rw [List.concat_eq_append] at h ⊢
      rw [encode_concat] at h
      obtain rfl : c = '\n' := by
        refine eq_lineFeed_of_getLast? ?_
        rw [← List.getLast?_append_of_ne_nil (encode s) hne, ← h, List.getLast?_concat]
      exact ⟨s, decode_eq_some_iff.2 (List.append_inj_left' h rfl), rfl⟩
  · rintro ⟨s, hs, rfl⟩
    rw [decode_eq_some_iff.1 hs, encode_concat]
    rfl

end Text

namespace Session

/-! ## The lines of an input -/

/-- The lines of an input; what follows the last line feed is a line unless it is empty. -/
def lines (input : Bytes) : List Bytes :=
  let pieces := input.splitOn lineFeed
  if pieces.getLast? = some [] then pieces.dropLast else pieces

def query? (line : Bytes) : Option Text :=
  (Text.decode line).map stripLineEnd

/-- How a line ends the session, if it does. -/
def exitCode? (line : Bytes) : Option Nat :=
  match query? line with
  | none => some 1
  | some query => if query = exitWord then some 0 else none

def asked? (line : Bytes) : Option Text :=
  (query? line).filter fun query => !query.isBlankOnly

/-- The lines before the first one that ends the session. -/
def served (lines : List Bytes) : List Bytes :=
  lines.takeWhile fun line => (exitCode? line).isNone

def queries (lines : List Bytes) : List Text :=
  lines.filterMap asked?

/-- What is shown for a line, with a line feed after it; for a blank one there is nothing. -/
def reply (w : World) (line : Bytes) : Text :=
  match asked? line with
  | none => []
  | some query => shown (w.transact query).1

/-- A prompt before each line and the reply after it, in the state that earlier lines left. -/
def dialogue (w : World) (lines : List Bytes) : Text :=
  lines.zipIdx.flatMap fun (line, i) => prompt ++ reply (w.run (queries (lines.take i))) line

/-- What comes of lines: they are served in order, and a prompt is shown at the end. -/
def transcript (w : World) (lines : List Bytes) : Transcript where
  output := dialogue w (served lines) ++ prompt
  exitCode := (lines.findSome? exitCode?).getD 0
  final := w.run (queries (served lines))

variable {w : World} {line head rest input : Bytes} {others : List Bytes}

theorem dialogue_cons (w : World) (line : Bytes) (others : List Bytes) :
    dialogue w (line :: others) =
      prompt ++ reply w line ++ dialogue (w.run (queries [line])) others := by
  have hrun (i : Nat) : w.run (queries ((line :: others).take (i + 1))) =
      (w.run (queries [line])).run (queries (others.take i)) := by
    rw [← World.run_append, queries, queries, queries, ← List.filterMap_append]
    rfl
  unfold dialogue
  rw [List.zipIdx_cons, List.flatMap_cons, Nat.zero_add, List.zipIdx_succ, List.flatMap_map]
  simp only [hrun]
  rfl

theorem transcript_of_exitCode? {exitCode : Nat} (h : exitCode? line = some exitCode) :
    transcript w (line :: others) = ⟨prompt, exitCode, w⟩ := by
  have hserved : served (line :: others) = [] :=
    List.takeWhile_cons_of_neg (by simp [h])
  rw [transcript, hserved, List.findSome?_cons_of_isSome (by simp [h]), h]
  rfl

theorem transcript_of_none (h : exitCode? line = none) :
    transcript w (line :: others) =
      { transcript (w.run (queries [line])) others with
        output := prompt ++ reply w line ++ (transcript (w.run (queries [line])) others).output } := by
  have hserved : served (line :: others) = line :: served others :=
    List.takeWhile_cons_of_pos (by simp [h])
  have hqueries : queries (line :: served others) = queries [line] ++ queries (served others) :=
    List.filterMap_append (l := [line])
  rw [transcript, hserved, dialogue_cons, hqueries, World.run_append, List.append_assoc,
    List.findSome?_cons, h]
  rfl

/-! ## Lines in the input -/

theorem lines_append (head rest : Bytes) :
    lines (head ++ lineFeed :: rest) = head.splitOn lineFeed ++ lines rest := by
  have hne : rest.splitOn lineFeed ≠ [] := List.splitOn_ne_nil lineFeed rest
  simp only [lines, List.splitOn_append_cons_self, List.getLast?_append_of_ne_nil _ hne]
  split
  · exact List.dropLast_append_of_ne_nil hne
  · rfl

theorem splitOn_of_not_mem (h : lineFeed ∉ line) : line.splitOn lineFeed = [line] :=
  List.splitOnP_eq_singleton fun _ hbyte => beq_false_of_ne fun heq => h (heq ▸ hbyte)

theorem lines_of_not_mem (hne : line ≠ []) (h : lineFeed ∉ line) : lines line = [line] := by
  simp only [lines, splitOn_of_not_mem h, List.getLast?_singleton, Option.some.injEq, hne, if_false]

theorem forall_ne_lineFeed (h : lineFeed ∉ line) : ∀ byte ∈ line, (byte != lineFeed) = true :=
  fun _ hbyte => bne_iff_ne.2 fun heq => h (heq ▸ hbyte)

theorem nextLine_append (h : lineFeed ∉ line) (rest : Bytes) :
    nextLine (line ++ lineFeed :: rest) = (line ++ [lineFeed], rest) := by
  have hall := forall_ne_lineFeed h
  simp [nextLine, List.takeWhile_append_of_pos hall, List.dropWhile_append_of_pos hall]

theorem nextLine_of_not_mem (h : lineFeed ∉ line) : nextLine line = (line, []) := by
  have hall := forall_ne_lineFeed h
  simp [nextLine, List.takeWhile_eq_self_iff.2 hall, List.dropWhile_eq_nil_iff.2 hall]

/-! ## The answer to a line -/

theorem stripLineEnd_append_lineFeed (t : Text) : stripLineEnd (t ++ ['\n']) = stripLineEnd t := by
  rw [stripLineEnd, stripLineEnd, List.reverse_append]
  rfl

theorem step_append_lineFeed (db : Database) (line : Bytes) :
    step db (line ++ [lineFeed]) = step db line := by
  rw [step, step, lineFeed, Text.decode_append_lineFeed]
  cases Text.decode line with
  | none => rfl
  | some t => simp only [Option.map_some, stripLineEnd_append_lineFeed]

theorem step_eq (db : Database) (line : Bytes) :
    step db line =
      match query? line with
      | none => .stop 1
      | some query =>
          if query = exitWord then .stop 0
          else if query.isBlankOnly then .next (.done ([], db))
          else .next ((db.transact query).map fun (answer, next) => (shown answer, next)) := by
  unfold step query?
  cases Text.decode line <;> rfl

theorem step_of_exitCode? {exitCode : Nat} (h : exitCode? line = some exitCode) (db : Database) :
    step db line = .stop exitCode := by
  rw [step_eq]
  unfold exitCode? at h
  cases hquery : query? line with
  | none =>
      rw [hquery] at h
      cases h
      rfl
  | some query =>
      simp only [hquery] at h ⊢
      by_cases hexit : query = exitWord
      · rw [if_pos hexit] at h ⊢
        cases h
        rfl
      · rw [if_neg hexit] at h
        cases h

theorem answer_shown (w : World) (query : Text) :
    w.answer ((w.database.transact query).map fun (answer, next) => (shown answer, next)) =
      (shown (w.transact query).1, (w.transact query).2) := by
  simp only [World.answer, World.transact, FileRequest.answer_map]

theorem exists_request_of_none (h : exitCode? line = none) (w : World) :
    ∃ request, step w.database line = .next request ∧
      w.answer request = (reply w line, w.run (queries [line])) := by
  rw [step_eq]
  unfold exitCode? at h
  cases hquery : query? line with
  | none =>
      rw [hquery] at h
      cases h
  | some query =>
      have hexit : query ≠ exitWord := fun hexit => by simp [hquery, hexit] at h
      cases hblank : query.isBlankOnly with
      | true =>
          have hasked : asked? line = none := by simp [asked?, hquery, hblank]
          refine ⟨.done ([], w.database), by simp [hexit, hblank], ?_⟩
          rw [reply, queries, List.filterMap_cons, hasked]
          rfl
      | false =>
          have hasked : asked? line = some query := by simp [asked?, hquery, hblank]
          refine ⟨_, by simp only [hexit, hblank, if_false, Bool.false_eq_true]; rfl, ?_⟩
          rw [answer_shown, reply, queries, List.filterMap_cons, hasked]
          rfl

/-! ## Runs -/

theorem run_of_nextLine {first : Bytes} (hne : input ≠ []) (hnext : nextLine input = (first, rest))
    (hstep : step w.database first = step w.database line)
    (hrest : ∀ w, run w rest = transcript w others) :
    run w input = transcript w (line :: others) := by
  rw [run, dif_neg hne, hnext]
  cases h : exitCode? line with
  | some exitCode =>
      rw [transcript_of_exitCode? h]
      simp only [hstep, step_of_exitCode? h]
  | none =>
      obtain ⟨request, hrequest, hanswer⟩ := exists_request_of_none h w
      rw [transcript_of_none h]
      simp only [hstep, hrequest, hanswer, hrest]

theorem run_nil (w : World) : run w [] = transcript w [] := by
  rw [run, dif_pos rfl]
  rfl

theorem run_eq_transcript (w : World) (input : Bytes) :
    run w input = transcript w (lines input) := by
  -- by induction on the length of the input, of which each step takes one line
  by_cases hfeed : lineFeed ∈ input
  · obtain ⟨line, rest, rfl, hline⟩ := List.eq_append_cons_of_mem hfeed
    rw [lines_append, splitOn_of_not_mem hline]
    exact run_of_nextLine (List.append_ne_nil_of_right_ne_nil line (List.cons_ne_nil _ _))
      (nextLine_append hline rest) (step_append_lineFeed w.database line)
      fun w => run_eq_transcript w rest
  · by_cases hne : input = []
    · rw [hne]
      exact run_nil w
    · rw [lines_of_not_mem hne hfeed]
      exact run_of_nextLine hne (nextLine_of_not_mem hfeed) rfl run_nil
termination_by input.length

/-! ## What a run depends on -/

/-- Lines after one that ends the session do not count. -/
theorem transcript_append (h : ∃ line ∈ others, (exitCode? line).isSome) (w : World)
    (after : List Bytes) : transcript w (others ++ after) = transcript w others := by
  obtain ⟨line, hline, hexit⟩ := h
  have hserved : served (others ++ after) = served others := by
    refine List.takeWhile_append.trans (if_neg fun hlength => ?_)
    have hall := (List.takeWhile_prefix _).eq_of_length hlength
    have hnone := List.takeWhile_eq_self_iff.1 hall line hline
    rw [Option.isNone_iff_eq_none.1 hnone] at hexit
    cases hexit
  have hcode : (others ++ after).findSome? exitCode? = others.findSome? exitCode? := by
    rw [List.findSome?_append]
    exact Option.or_of_isSome (List.findSome?_isSome_iff.2 ⟨line, hline, hexit⟩)
  rw [transcript, transcript, hserved, hcode]

theorem mem_splitOn_of_mem_lines (h : line ∈ lines input) : line ∈ input.splitOn lineFeed := by
  simp only [lines] at h
  split at h
  · exact (List.dropLast_sublist _).subset h
  · exact h

theorem getLast?_splitOn (input : Bytes) (hne : input ≠ [])
    (hlast : input.getLast? ≠ some lineFeed) :
    (input.splitOn lineFeed).getLast? ≠ some [] := by
  by_cases hfeed : lineFeed ∈ input
  · obtain ⟨line, rest, rfl, -⟩ := List.eq_append_cons_of_mem hfeed
    have hrest : rest ≠ [] := by
      rintro rfl
      exact hlast List.getLast?_concat
    rw [List.append_cons, List.getLast?_append_of_ne_nil _ hrest] at hlast
    rw [List.splitOn_append_cons_self,
      List.getLast?_append_of_ne_nil _ (List.splitOn_ne_nil lineFeed rest)]
    exact getLast?_splitOn rest hrest hlast
  · rw [splitOn_of_not_mem hfeed, List.getLast?_singleton]
    exact fun h => hne (Option.some.inj h)
termination_by input.length

theorem lines_append_lineFeed (hne : input ≠ []) (hlast : input.getLast? ≠ some lineFeed) :
    lines (input ++ [lineFeed]) = lines input := by
  have hnil : lines [] = [] := rfl
  rw [lines_append, hnil, List.append_nil]
  simp only [lines, getLast?_splitOn input hne hlast, if_false]

/--
A run is a dialogue over the lines of its input, up to the first line that ends it. Nothing
after that line changes it, and neither does a line feed after a last line that has none.
-/
theorem run_spec (w : World) :
    (∀ input, run w input = transcript w (lines input)) ∧
    (∀ head rest rest', (∃ line ∈ lines head, (exitCode? line).isSome) →
      run w (head ++ lineFeed :: rest) = run w (head ++ lineFeed :: rest')) ∧
    ∀ input, input ≠ [] → input.getLast? ≠ some lineFeed →
      run w (input ++ [lineFeed]) = run w input := by
  refine ⟨run_eq_transcript w, fun head rest rest' hexit => ?_, fun input hne hlast => ?_⟩
  · obtain ⟨line, hline, hends⟩ := hexit
    have hends : ∃ line ∈ head.splitOn lineFeed, (exitCode? line).isSome :=
      ⟨line, mem_splitOn_of_mem_lines hline, hends⟩
    rw [run_eq_transcript, run_eq_transcript, lines_append, lines_append,
      transcript_append hends, transcript_append hends]
  · rw [run_eq_transcript, run_eq_transcript, lines_append_lineFeed hne hlast]

/-- A line with a carriage return, a blank line, two queries, and a line that ends the session. -/
def exitLines : Bytes :=
  Text.encode "create table t (a int)\r\n \ninsert into t values 1\nprint t\nexit\r".toList

theorem run_spec_exitLines :
    let w := World.start .default .empty
    let input := exitLines ++ lineFeed :: Text.encode "print t".toList
    (run w input).output = "> > > > a int\n1\n> ".toList ∧ (run w input).exitCode = 0 ∧
      run w input = run w (exitLines ++ [lineFeed]) ∧
      run w (exitLines ++ [lineFeed]) = run w exitLines := by
  intro w input
  obtain ⟨hrun, hafter, hfeed⟩ := run_spec w
  have hexit : ∃ line ∈ lines exitLines, (exitCode? line).isSome :=
    ⟨Text.encode "exit\r".toList, by decide +kernel, by decide +kernel⟩
  refine ⟨?_, ?_, hafter _ _ [] hexit, hfeed _ (by decide) (by decide)⟩
  · rw [hrun]
    decide +kernel
  · rw [hrun]
    decide +kernel

end Session

end Relata
