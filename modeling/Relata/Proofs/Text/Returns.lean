import Mathlib.Data.List.Forall2
import Relata.Proofs.Text.Split

/-!
# Carriage returns at the ends of lines

A line feed takes one carriage return before it along. Where a text has one more there, its
lines end with a blank more, which neither the fields of a line nor the words of its pieces
show.
-/

namespace Relata

namespace Text

variable {s t : Text} {c sep : Char}

/-! ## A blank at the end -/

theorem words_append (hc : isBlank c = true) (t : Text) : words (t ++ [c]) = words t := by
  rw [words_append_blank t [] hc]
  exact List.append_nil _

theorem exists_splitOn_append (hc : c ≠ sep) (t : Text) :
    ∃ init last, t.splitOn sep = init ++ [last] ∧
      (t ++ [c]).splitOn sep = init ++ [last ++ [c]] := by
  induction t with
  | nil => exact ⟨[], [], rfl, List.splitOnP_eq_singleton (by simpa using hc)⟩
  | cons d t ih =>
      obtain ⟨init, last, ht, htc⟩ := ih
      rw [List.cons_append, List.splitOn_cons_eq_if_modifyHead,
        List.splitOn_cons_eq_if_modifyHead, ht, htc]
      split
      · exact ⟨[] :: init, last, rfl, rfl⟩
      · cases init with
        | nil => exact ⟨[], d :: last, rfl, rfl⟩
        | cons first init => exact ⟨(d :: first) :: init, last, rfl, rfl⟩

theorem map_splitOn_append {f : Text → α} (hc : c ≠ sep) (hf : ∀ piece, f (piece ++ [c]) = f piece)
    (t : Text) : ((t ++ [c]).splitOn sep).map f = (t.splitOn sep).map f := by
  obtain ⟨init, last, ht, htc⟩ := exists_splitOn_append hc t
  rw [ht, htc, List.map_append, List.map_append, List.map_singleton, List.map_singleton, hf]

/-! ## What is read of a line -/

/-- Two lines that are read alike, as definitions and as values. -/
structure ReadAlike (line other : Text) : Prop where
  isBlankOnly : line.isBlankOnly = other.isBlankOnly
  fields : line.fields = other.fields
  words : (line.splitOn ',').map words = (other.splitOn ',').map words

theorem readAlike_self (line : Text) : ReadAlike line line :=
  ⟨rfl, rfl, rfl⟩

theorem readAlike_append_return (line : Text) : ReadAlike (line ++ ['\r']) line where
  isBlankOnly := by
    rw [Text.isBlankOnly, List.all_append, List.all_cons, List.all_nil, Bool.and_true]
    exact Bool.and_true _
  fields := map_splitOn_append (by decide) (trimWhere_append rfl) line
  words := map_splitOn_append (by decide) (words_append rfl) line

/-! ## Returns before line feeds -/

/-- A text with one more carriage return before each line feed. -/
def withReturns (t : Text) : Text :=
  t.flatMap fun c => if c = '\n' then ['\r', '\n'] else [c]

theorem ended_append_return (line : Text) : ended (line ++ ['\r']) = line := by
  rw [ended, List.getLast?_concat, if_pos rfl, List.dropLast_concat]

theorem readAlike_ended (line : Text) : ReadAlike line line.ended := by
  unfold ended
  split
  · rename_i hlast
    have hline := readAlike_append_return line.dropLast
    rwa [List.dropLast_append_getLast? _ hlast] at hline
  · exact readAlike_self line

theorem exists_splitOn_withReturns (t : Text) : ∃ init last, t.splitOn '\n' = init ++ [last] ∧
    t.withReturns.splitOn '\n' = init.map (· ++ ['\r']) ++ [last] := by
  induction t with
  | nil => exact ⟨[], [], rfl, rfl⟩
  | cons d t ih =>
      obtain ⟨init, last, ht, hreturns⟩ := ih
      by_cases hd : d = '\n'
      · subst hd
        have hfirst : withReturns ('\n' :: t) = ['\r'] ++ '\n' :: withReturns t := rfl
        rw [hfirst, List.splitOn_append_cons_self, hreturns, List.splitOn_cons_eq_if_modifyHead, ht]
        exact ⟨[] :: init, last, rfl, rfl⟩
      · have hfirst : withReturns (d :: t) = d :: withReturns t := by simp [withReturns, hd]
        have hne : (d == '\n') = false := by simpa using hd
        rw [hfirst, List.splitOn_cons_eq_if_modifyHead, List.splitOn_cons_eq_if_modifyHead, ht,
          hreturns, hne]
        cases init with
        | nil => exact ⟨[], d :: last, rfl, rfl⟩
        | cons first init => exact ⟨(d :: first) :: init, last, rfl, rfl⟩

theorem forall₂_lines_withReturns (t : Text) :
    List.Forall₂ ReadAlike t.withReturns.lines t.lines := by
  obtain ⟨init, last, ht, hreturns⟩ := exists_splitOn_withReturns t
  have hwhole : (init.map (· ++ ['\r'])).map ended = init := by
    rw [List.map_map]
    exact (List.map_congr_left fun line _ => ended_append_return line).trans (List.map_id _)
  rw [lines_of_splitOn ht, lines_of_splitOn hreturns, hwhole]
  refine List.rel_append ?_ (List.forall₂_same.2 fun line _ => readAlike_self line)
  rw [List.forall₂_map_right_iff, List.forall₂_same]
  exact fun line _ => readAlike_ended line

end Text

end Relata
