import Relata.Text.Search

/-!
# Pieces of a text

Every character of a piece stands in the text that was split, and no separator stands in a
piece. Splitting undoes joining where the pieces hold no separator: so lines are read back
from a text of lines.
-/

namespace Relata

namespace Text

variable {s t : Text} {c : Char}

/-! ## Characters of pieces -/

theorem mem_splitOnP {p : Char → Bool} {piece : Text} (h : piece ∈ t.splitOnP p) (hc : c ∈ piece) :
    c ∈ t ∧ p c = false := by
  induction t generalizing piece with
  | nil =>
      rw [List.splitOnP_nil, List.mem_singleton] at h
      rw [h] at hc
      cases hc
  | cons d t ih =>
      rw [List.splitOnP_cons_eq_if_modifyHead] at h
      by_cases hd : p d
      · rw [if_pos hd] at h
        rcases List.mem_cons.1 h with rfl | h
        · cases hc
        · exact ⟨List.mem_cons_of_mem d (ih h hc).1, (ih h hc).2⟩
      · rw [if_neg hd] at h
        obtain ⟨first, rest, hsplit⟩ := List.exists_cons_of_ne_nil (List.splitOnP_ne_nil p t)
        rw [hsplit] at h ih
        rcases List.mem_cons.1 h with rfl | h
        · rcases List.mem_cons.1 hc with rfl | hc
          · exact ⟨List.mem_cons_self, by simpa using hd⟩
          · have hfirst := ih List.mem_cons_self hc
            exact ⟨List.mem_cons_of_mem d hfirst.1, hfirst.2⟩
        · have hrest := ih (List.mem_cons_of_mem first h) hc
          exact ⟨List.mem_cons_of_mem d hrest.1, hrest.2⟩

theorem prefix_intercalate_cons (sep first : Text) (others : List Text) :
    first <+: sep.intercalate (first :: others) := by
  cases others with
  | nil => exact ⟨[], by rw [List.append_nil, List.intercalate_singleton]⟩
  | cons next others =>
      rw [List.intercalate_cons_cons, List.append_assoc]
      exact List.prefix_append first _

theorem infix_of_mem_intercalate (sep : Text) {pieces : List Text} {piece : Text}
    (h : piece ∈ pieces) : piece <:+: sep.intercalate pieces := by
  induction pieces with
  | nil => cases h
  | cons first pieces ih =>
      rcases List.mem_cons.1 h with rfl | h
      · exact (prefix_intercalate_cons sep piece pieces).isInfix
      · rw [List.intercalate_cons_of_ne_nil (List.ne_nil_of_mem h)]
        exact (ih h).trans (List.suffix_append _ _).isInfix

theorem infix_of_mem_splitOn {sep : Char} {piece : Text} (h : piece ∈ t.splitOn sep) :
    piece <:+: t := by
  have hjoin := infix_of_mem_intercalate [sep] h
  rwa [List.intercalate_splitOn] at hjoin

theorem not_mem_of_mem_splitOn {sep : Char} {piece : Text} (h : piece ∈ t.splitOn sep) :
    sep ∉ piece := by
  intro hsep
  have hne := (mem_splitOnP h hsep).2
  simp at hne

theorem mem_of_mem_dropWhile {p : Char → Bool} (h : c ∈ t.dropWhile p) : c ∈ t :=
  (List.dropWhile_sublist p).subset h

theorem mem_of_mem_trimWhere {p : Char → Bool} (h : c ∈ t.trimWhere p) : c ∈ t := by
  rw [trimWhere, List.mem_reverse] at h
  exact mem_of_mem_dropWhile (List.mem_reverse.1 (mem_of_mem_dropWhile h))

/-! ## Trimming -/

theorem dropWhile_of_head? {p : Char → Bool} (h : ∀ c, t.head? = some c → p c = false) :
    t.dropWhile p = t := by
  cases t with
  | nil => rfl
  | cons d t => exact List.dropWhile_cons_of_neg (by simp [h d rfl])

theorem exists_trimWhere (p : Char → Bool) (t : Text) :
    ∃ front back, t = front ++ (trimWhere p t ++ back) ∧ (∀ c ∈ front, p c = true) ∧
      ∀ c ∈ back, p c = true := by
  have htaken (u : Text) : ∀ c ∈ u.takeWhile p, p c = true :=
    List.all_eq_true.1 List.all_takeWhile
  refine ⟨t.takeWhile p, ((t.dropWhile p).reverse.takeWhile p).reverse, ?_, htaken t,
    fun c hc => htaken _ c (List.mem_reverse.1 hc)⟩
  rw [trimWhere, ← List.reverse_append, List.takeWhile_append_dropWhile, List.reverse_reverse,
    List.takeWhile_append_dropWhile]

theorem exists_trim (t : Text) : ∃ front back, t = front ++ (trim t ++ back) ∧
    (∀ c ∈ front, isBlank c = true) ∧ ∀ c ∈ back, isBlank c = true :=
  exists_trimWhere isBlank t

theorem trim_isInfix (t : Text) : trim t <:+: t := by
  obtain ⟨front, back, ht, -, -⟩ := exists_trim t
  exact ⟨front, back, by rw [List.append_assoc, ← ht]⟩

theorem trim_ne_nil (hc : c ∈ t) (hblank : isBlank c = false) : trim t ≠ [] := by
  obtain ⟨front, back, ht, hfront, hback⟩ := exists_trim t
  intro hnil
  rw [ht, hnil, List.nil_append] at hc
  have hc : isBlank c = true := (List.mem_append.1 hc).elim (hfront c) (hback c)
  rw [hblank] at hc
  cases hc

theorem trimWhere_of_ends {p : Char → Bool} (hhead : ∀ c, t.head? = some c → p c = false)
    (hlast : ∀ c, t.getLast? = some c → p c = false) : t.trimWhere p = t := by
  have hreverse : t.reverse.dropWhile p = t.reverse :=
    dropWhile_of_head? (by rwa [List.head?_reverse])
  rw [trimWhere, dropWhile_of_head? hhead, hreverse, List.reverse_reverse]

theorem trimWhere_cons {p : Char → Bool} (hc : p c = true) (t : Text) :
    trimWhere p (c :: t) = trimWhere p t := by
  rw [trimWhere, trimWhere, List.dropWhile_cons_of_pos hc]

theorem trimWhere_append {p : Char → Bool} (hc : p c = true) (t : Text) :
    trimWhere p (t ++ [c]) = trimWhere p t := by
  have hsingle : [c].dropWhile p = [] := List.dropWhile_cons_of_pos hc
  rw [trimWhere, trimWhere, List.dropWhile_append]
  cases hfront : t.dropWhile p with
  | nil => rw [List.isEmpty_nil, if_pos rfl, hsingle]
  | cons d front =>
      rw [List.isEmpty_cons, if_neg Bool.false_ne_true, List.reverse_append,
        List.reverse_singleton, List.singleton_append, List.dropWhile_cons_of_pos hc]

theorem trimWhere_enclosed {p : Char → Bool} (hc : p c = true)
    (hhead : ∀ d, t.head? = some d → p d = false)
    (hlast : ∀ d, t.getLast? = some d → p d = false) : Text.trimWhere p (c :: (t ++ [c])) = t := by
  rw [trimWhere_cons hc, trimWhere_append hc, trimWhere_of_ends hhead hlast]

theorem not_of_head?_dropWhile {p : Char → Bool} (h : (t.dropWhile p).head? = some c) :
    p c = false := by
  have hnot := List.head?_dropWhile_not p t
  rw [h] at hnot
  exact hnot

theorem not_of_getLast?_trimWhere {p : Char → Bool} (h : (t.trimWhere p).getLast? = some c) :
    p c = false := by
  rw [trimWhere, List.getLast?_reverse] at h
  exact not_of_head?_dropWhile h

theorem not_of_head?_trimWhere {p : Char → Bool} (h : (t.trimWhere p).head? = some c) :
    p c = false := by
  have hbegin : t.trimWhere p <+: t.dropWhile p := by
    rw [trimWhere, ← List.reverse_suffix, List.reverse_reverse]
    exact List.dropWhile_suffix p
  obtain ⟨rest, hrest⟩ := hbegin
  refine not_of_head?_dropWhile (t := t) ?_
  rw [← hrest, List.head?_append, h]
  rfl

theorem trimWhere_trimWhere (p : Char → Bool) (t : Text) :
    trimWhere p (trimWhere p t) = trimWhere p t :=
  trimWhere_of_ends (fun _ => not_of_head?_trimWhere) fun _ => not_of_getLast?_trimWhere

/-! ## Words -/

theorem words_of_forall (hne : t ≠ []) (h : ∀ c ∈ t, isBlank c = false) : words t = [t] := by
  rw [words, List.splitOnP_eq_singleton h]
  simp [hne]

theorem words_append_blank (s t : Text) (hc : isBlank c = true) :
    words (s ++ c :: t) = words s ++ words t := by
  rw [words, List.splitOnP_append_cons s t hc, List.filter_append]
  rfl

theorem mem_words {word : Text} (h : word ∈ words t) :
    word ≠ [] ∧ ∀ c ∈ word, c ∈ t ∧ isBlank c = false := by
  obtain ⟨hpiece, hne⟩ := List.mem_filter.1 h
  refine ⟨?_, fun c hc => mem_splitOnP hpiece hc⟩
  rintro rfl
  simp at hne

theorem mem_intercalate {sep : Char} {pieces : List Text} (h : c ∈ [sep].intercalate pieces) :
    c = sep ∨ ∃ piece ∈ pieces, c ∈ piece := by
  induction pieces with
  | nil =>
      rw [List.intercalate_nil] at h
      cases h
  | cons piece pieces ih =>
      cases pieces with
      | nil =>
          rw [List.intercalate_singleton] at h
          exact .inr ⟨piece, List.mem_cons_self, h⟩
      | cons next pieces =>
          rw [List.intercalate_cons_cons, List.append_assoc, List.mem_append] at h
          rcases h with h | h
          · exact .inr ⟨piece, List.mem_cons_self, h⟩
          · rcases List.mem_cons.1 h with h | h
            · exact .inl h
            · rcases ih h with h | ⟨other, hother, h⟩
              · exact .inl h
              · exact .inr ⟨other, List.mem_cons_of_mem piece hother, h⟩

theorem mem_collapse (h : c ∈ collapse t) : c = ' ' ∨ isBlank c = false := by
  rcases mem_intercalate h with h | ⟨word, hword, h⟩
  · exact .inl h
  · exact .inr ((mem_words hword).2 c h).2

/-! ## Lines and fields -/

/-- A text that can stand in a field of a line: it has no comma and no line feed. -/
structure InField (t : Text) : Prop where
  comma : ',' ∉ t
  lineFeed : '\n' ∉ t

theorem InField.mono (h : t.InField) (hsub : ∀ c ∈ s, c ∈ t) : s.InField :=
  ⟨fun hc => h.comma (hsub _ hc), fun hc => h.lineFeed (hsub _ hc)⟩

theorem InField.append (hs : s.InField) (ht : t.InField) : (s ++ t).InField :=
  ⟨fun h => (List.mem_append.1 h).elim hs.comma ht.comma,
    fun h => (List.mem_append.1 h).elim hs.lineFeed ht.lineFeed⟩

theorem InField.trim (h : t.InField) : (Text.trim t).InField :=
  h.mono fun _ hc => mem_of_mem_trimWhere hc

theorem inField_of_mem_splitOn (hfeed : '\n' ∉ t) {piece : Text} (h : piece ∈ t.splitOn ',') :
    piece.InField :=
  ⟨not_mem_of_mem_splitOn h, fun hc => hfeed ((infix_of_mem_splitOn h).subset hc)⟩

theorem inField_of_mem_fields (hfeed : '\n' ∉ t) {field : Text} (h : field ∈ fields t) :
    field.InField := by
  obtain ⟨piece, hpiece, rfl⟩ := List.mem_map.1 h
  exact (inField_of_mem_splitOn hfeed hpiece).trim

/-- A line that a line feed ends, without one carriage return before it. -/
def ended (line : Text) : Text :=
  if line.getLast? = some '\r' then line.dropLast else line

theorem mem_of_mem_ended (h : c ∈ t.ended) : c ∈ t := by
  unfold ended at h
  split at h
  · exact (List.dropLast_sublist t).subset h
  · exact h

theorem exists_splitOn_eq (sep : Char) (t : Text) :
    ∃ init last, t.splitOn sep = init ++ [last] := by
  obtain ⟨init, last, h⟩ := (List.eq_nil_or_concat (t.splitOn sep)).resolve_left
    (List.splitOn_ne_nil sep t)
  exact ⟨init, last, h.trans List.concat_eq_append⟩

/-- All pieces but the last are ended by a line feed; the last one counts unless it is empty. -/
theorem lines_of_splitOn {init : List Text} {last : Text} (h : t.splitOn '\n' = init ++ [last]) :
    lines t = init.map ended ++ if last.isEmpty then [] else [last] := by
  rw [lines, h, List.reverse_append]
  simp only [List.reverse_singleton, List.singleton_append, List.reverse_reverse]
  split
  · exact (List.append_nil _).symm
  · rfl

theorem lineFeed_not_mem_of_mem_lines {line : Text} (h : line ∈ lines t) : '\n' ∉ line := by
  obtain ⟨init, last, hsplit⟩ := exists_splitOn_eq '\n' t
  have hpiece : ∀ piece ∈ init ++ [last], '\n' ∉ piece := fun piece hpiece =>
    not_mem_of_mem_splitOn (hsplit ▸ hpiece)
  rw [lines_of_splitOn hsplit] at h
  rcases List.mem_append.1 h with h | h
  · obtain ⟨piece, hmem, rfl⟩ := List.mem_map.1 h
    exact fun hc => hpiece piece (List.mem_append_left _ hmem) (mem_of_mem_ended hc)
  · split at h
    · cases h
    · exact hpiece line (List.mem_append_right _ h)

theorem lines_intercalate {ls : List Text} (hfeed : ∀ line ∈ ls, '\n' ∉ line)
    (hreturn : ∀ line ∈ ls, line.getLast? ≠ some '\r') (hfull : ∀ line ∈ ls, line ≠ [])
    (hne : ls ≠ []) : lines (['\n'].intercalate ls) = ls := by
  have hsplit := List.splitOn_intercalate '\n' hfeed hne
  obtain ⟨init, last, hls⟩ := (List.eq_nil_or_concat ls).resolve_left hne
  rw [List.concat_eq_append] at hls
  have hended : init.map ended = init := by
    refine (List.map_congr_left fun line hline => if_neg ?_).trans (List.map_id _)
    exact hreturn line (hls ▸ List.mem_append_left [last] hline)
  have hlast : last.isEmpty ≠ true := by
    rw [ne_eq, List.isEmpty_iff]
    exact hfull last (hls ▸ List.mem_append_right init List.mem_cons_self)
  rw [lines_of_splitOn (hsplit.trans hls), hended, if_neg hlast, hls]

end Text

end Relata
