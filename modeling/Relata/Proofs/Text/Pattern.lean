import Relata.Proofs.Text.Split

/-!
# Occurrences of a pattern

A pattern is found in a text if it is a part of it. Splitting at a pattern undoes joining
with it where no occurrence begins in a piece, and no piece of a split holds the pattern.
-/

namespace Relata

namespace Text

variable {s t pattern : Text} {c : Char}

theorem has_iff : t.has pattern = true ↔ pattern <:+: t := by
  induction t with
  | nil => rw [has, List.isEmpty_iff, List.infix_nil]
  | cons c t ih =>
      rw [has, Bool.or_eq_true, List.isPrefixOf_iff_prefix, ih, List.infix_cons_iff]

theorem has_eq_false_iff : t.has pattern = false ↔ ¬ pattern <:+: t := by
  rw [← has_iff, Bool.not_eq_true]

theorem infix_append_cons_iff (hc : c ∉ pattern) :
    pattern <:+: s ++ c :: t ↔ pattern <:+: s ∨ pattern <:+: t := by
  constructor
  · intro h
    induction s with
    | nil =>
        rcases List.infix_cons_iff.1 h with h | h
        · cases pattern with
          | nil => exact .inr (List.nil_infix)
          | cons d pattern =>
              obtain ⟨rfl, -⟩ := List.cons_prefix_cons.1 h
              exact absurd List.mem_cons_self hc
        · exact .inr h
    | cons d s ih =>
        rw [List.cons_append] at h
        rcases List.infix_cons_iff.1 h with h | h
        · left
          -- an occurrence at the front ends before the character, or reaches over it
          have hprefix : pattern <+: d :: s ∨ d :: s <+: pattern :=
            List.prefix_or_prefix_of_prefix h ⟨c :: t, rfl⟩
          rcases hprefix with hprefix | ⟨rest, rfl⟩
          · exact hprefix.isInfix
          · cases rest with
            | nil => simp
            | cons e rest =>
                rw [← List.cons_append] at h
                obtain ⟨rfl, -⟩ := List.cons_prefix_cons.1 ((List.prefix_append_right_inj _).1 h)
                exact absurd (by simp) hc
        · rcases ih h with h | h
          · exact .inl (List.infix_cons h)
          · exact .inr h
  · rintro (h | h)
    · exact h.trans (List.prefix_append s (c :: t)).isInfix
    · exact h.trans ((List.suffix_cons c t).trans (List.suffix_append s (c :: t))).isInfix

/-- An occurrence that begins with a character can only begin where that character stands. -/
theorem cons_infix_append_cons_iff (hs : c ∉ s) :
    c :: pattern <:+: s ++ c :: t ↔ pattern <+: t ∨ c :: pattern <:+: t := by
  induction s with
  | nil => rw [List.nil_append, List.infix_cons_iff, List.cons_prefix_cons]; simp
  | cons d s ih =>
      obtain ⟨hd, hs⟩ := not_or.1 (mt List.mem_cons.2 hs)
      rw [List.cons_append, List.infix_cons_iff, List.cons_prefix_cons, ih hs]
      simp [hd]

/-! ## Splitting -/

theorem splitSkipping_append (u rest : Text) :
    splitSkipping pattern u.length (u ++ rest) = splitSkipping pattern 0 rest := by
  induction u with
  | nil => rfl
  | cons c u ih => exact ih

theorem splitSkipping_ne_nil (pattern : Text) (skip : Nat) (t : Text) :
    splitSkipping pattern skip t ≠ [] := by
  induction t generalizing skip with
  | nil => exact List.cons_ne_nil _ _
  | cons c t ih =>
      cases skip with
      | succ skip => exact ih skip
      | zero =>
          rw [splitSkipping]
          split
          · exact List.cons_ne_nil _ _
          · simp [ih 0]

theorem splitAround_of_not_infix (h : ¬ pattern <:+: t) :
    t.splitAround pattern = [t] := by
  rw [splitAround]
  induction t with
  | nil => rfl
  | cons c t ih =>
      rw [List.infix_cons_iff, not_or, ← List.isPrefixOf_iff_prefix] at h
      rw [splitSkipping, if_neg h.1, ih h.2]
      rfl

theorem splitAround_append (hne : pattern ≠ []) (h : ¬ pattern <:+: s ++ pattern.dropLast) :
    (s ++ (pattern ++ t)).splitAround pattern = s :: t.splitAround pattern := by
  rw [splitAround, splitAround]
  induction s with
  | nil =>
      obtain ⟨c, rest, rfl⟩ := List.exists_cons_of_ne_nil hne
      have hprefix : (c :: rest).isPrefixOf (c :: (rest ++ t)) = true :=
        List.isPrefixOf_iff_prefix.2 ⟨t, rfl⟩
      rw [List.nil_append, List.cons_append, splitSkipping, if_pos hprefix]
      exact congrArg _ (splitSkipping_append rest t)
  | cons c s ih =>
      rw [List.cons_append, List.infix_cons_iff, not_or] at h
      have hprefix : ¬ pattern.isPrefixOf (c :: (s ++ (pattern ++ t))) = true := by
        intro hprefix
        refine h.1 (List.prefix_of_prefix_length_le (List.isPrefixOf_iff_prefix.1 hprefix) ?_ ?_)
        · refine (List.cons_prefix_cons.2 ⟨rfl, ?_⟩)
          refine (List.prefix_append_right_inj s).2 ?_
          exact (List.dropLast_prefix pattern).trans (List.prefix_append pattern t)
        · have hpos := List.length_pos_iff.2 hne
          simp only [List.length_cons, List.length_append, List.length_dropLast]
          omega
      rw [List.cons_append, splitSkipping, if_neg hprefix, ih h.2]
      rfl

/-- Splitting undoes joining where no occurrence begins in a piece. -/
theorem splitAround_intercalate {pieces : List Text} (hne : pattern ≠ []) (hpieces : pieces ≠ [])
    (h : ∀ piece ∈ pieces, ¬ pattern <:+: piece ++ pattern.dropLast) :
    splitAround (pattern.intercalate pieces) pattern = pieces := by
  induction pieces with
  | nil => exact absurd rfl hpieces
  | cons piece pieces ih =>
      obtain ⟨hpiece, hrest⟩ := List.forall_mem_cons.1 h
      cases pieces with
      | nil =>
          rw [List.intercalate_singleton]
          refine splitAround_of_not_infix fun hpart => hpiece ?_
          exact hpart.trans (List.prefix_append piece pattern.dropLast).isInfix
      | cons next pieces =>
          rw [List.intercalate_cons_cons, List.append_assoc, splitAround_append hne hpiece,
            ih (List.cons_ne_nil next pieces) hrest]

/-- Joining undoes splitting, but for what belongs to an occurrence already found. -/
theorem intercalate_splitSkipping (hne : pattern ≠ []) (skip : Nat) (t : Text) :
    pattern.intercalate (splitSkipping pattern skip t) = t.drop skip := by
  induction t generalizing skip with
  | nil => rw [splitSkipping, List.intercalate_singleton, List.drop_nil]
  | cons c t ih =>
      cases skip with
      | succ skip => exact ih skip
      | zero =>
          rw [splitSkipping, List.drop_zero]
          split
          · rename_i hprefix
            obtain ⟨rest, hrest⟩ := List.isPrefixOf_iff_prefix.1 hprefix
            obtain ⟨d, pattern, rfl⟩ := List.exists_cons_of_ne_nil hne
            obtain ⟨rfl, rfl⟩ := List.cons.inj hrest
            rw [List.intercalate_cons_of_ne_nil (splitSkipping_ne_nil _ _ _), ih]
            simp
          · obtain ⟨first, others, hsplit⟩ :=
              List.exists_cons_of_ne_nil (splitSkipping_ne_nil pattern 0 t)
            have hjoin := ih 0
            rw [hsplit, List.drop_zero] at hjoin
            rw [hsplit, List.modifyHead_cons]
            cases others with
            | nil => rw [List.intercalate_singleton, ← hjoin, List.intercalate_singleton]
            | cons next others =>
                rw [← hjoin, List.intercalate_cons_cons, List.intercalate_cons_cons]
                rfl

theorem intercalate_splitAround (hne : pattern ≠ []) (t : Text) :
    pattern.intercalate (t.splitAround pattern) = t :=
  intercalate_splitSkipping hne 0 t

theorem exists_of_splitAround_cons_cons (hne : pattern ≠ []) {first second : Text}
    {others : List Text} (h : t.splitAround pattern = first :: second :: others) :
    ∃ rest, t = first ++ (pattern ++ (second ++ rest)) ∧ (rest ≠ [] → pattern <+: rest) := by
  have hjoin := intercalate_splitAround hne t
  rw [h, List.intercalate_cons_cons, List.append_assoc] at hjoin
  cases others with
  | nil =>
      rw [List.intercalate_singleton] at hjoin
      exact ⟨[], by rw [List.append_nil, hjoin], fun hnil => absurd rfl hnil⟩
  | cons next others =>
      rw [List.intercalate_cons_cons, List.append_assoc] at hjoin
      exact ⟨_, hjoin.symm, fun _ => List.prefix_append _ _⟩

theorem infix_of_mem_splitAround (hne : pattern ≠ []) {piece : Text}
    (h : piece ∈ t.splitAround pattern) : piece <:+: t := by
  have hjoin := infix_of_mem_intercalate pattern h
  rwa [intercalate_splitAround hne] at hjoin

theorem not_infix_of_mem_splitSkipping (hne : pattern ≠ []) {skip : Nat} {piece : Text}
    (h : piece ∈ splitSkipping pattern skip t) : ¬ pattern <:+: piece := by
  have hnil : ¬ pattern <:+: [] := by rwa [List.infix_nil]
  induction t generalizing skip piece with
  | nil =>
      rw [splitSkipping, List.mem_singleton] at h
      rwa [h]
  | cons c t ih =>
      cases skip with
      | succ skip => exact ih h
      | zero =>
          rw [splitSkipping] at h
          split at h
          · rcases List.mem_cons.1 h with rfl | h
            · exact hnil
            · exact ih h
          · rename_i hprefix
            obtain ⟨first, others, hsplit⟩ :=
              List.exists_cons_of_ne_nil (splitSkipping_ne_nil pattern 0 t)
            rw [hsplit] at h
            rcases List.mem_cons.1 h with rfl | h
            · have hfirst := prefix_intercalate_cons pattern first others
              rw [← hsplit, intercalate_splitSkipping hne, List.drop_zero] at hfirst
              intro hin
              rcases List.infix_cons_iff.1 hin with hin | hin
              · refine hprefix (List.isPrefixOf_iff_prefix.2 (hin.trans ?_))
                exact List.cons_prefix_cons.2 ⟨rfl, hfirst⟩
              · exact ih (hsplit ▸ List.mem_cons_self) hin
            · exact ih (hsplit ▸ List.mem_cons_of_mem first h)

theorem not_infix_of_mem_splitAround (hne : pattern ≠ []) {piece : Text}
    (h : piece ∈ t.splitAround pattern) : ¬ pattern <:+: piece :=
  not_infix_of_mem_splitSkipping hne h

end Text

end Relata
