import Mathlib.Data.List.Chain
import Relata.Proofs.Text.Split

/-!
# Tidy texts

A text is tidy if its only blanks are single spaces, none of them at an end. Those are the
texts that collapsing leaves as they are. Tidy parts make a tidy text, with or without a
space between them; a phrase is a tidy text that is not empty.
-/

namespace Relata

namespace Text

variable {s t : Text} {c : Char}

/-- A text whose blanks are single spaces between other characters. -/
structure Tidy (t : Text) : Prop where
  space : ∀ c ∈ t, isBlank c = true → c = ' '
  head : ∀ c, t.head? = some c → isBlank c = false
  last : ∀ c, t.getLast? = some c → isBlank c = false
  apart : t.IsChain fun c d => isBlank c = false ∨ isBlank d = false

theorem tidy_of_forall (h : ∀ c ∈ t, isBlank c = false) : Tidy t where
  space c hc hblank := absurd hblank (by simp [h c hc])
  head c hc := h c (List.mem_of_head? hc)
  last c hc := h c (List.mem_of_getLast? hc)
  apart := by
    have hpairs : t.Pairwise fun c d => isBlank c = false ∨ isBlank d = false :=
      (List.pairwise_of_forall_mem_list fun c hc _ _ => .inl (h c hc))
    exact hpairs.isChain

theorem tidy_nil : Tidy [] :=
  tidy_of_forall (List.forall_mem_nil _)

theorem Tidy.append (hs : Tidy s) (ht : Tidy t) : Tidy (s ++ t) where
  space c hc := (List.mem_append.1 hc).elim (hs.space c) (ht.space c)
  head c hc := by
    cases s with
    | nil => exact ht.head c hc
    | cons d s => exact hs.head c hc
  last c hc := by
    by_cases hnil : t = []
    · subst hnil
      rw [List.append_nil] at hc
      exact hs.last c hc
    · rw [List.getLast?_append_of_ne_nil s hnil] at hc
      exact ht.last c hc
  apart := List.isChain_append.2 ⟨hs.apart, ht.apart, fun c hc _ _ => .inl (hs.last c hc)⟩

theorem Tidy.append_space (hs : Tidy s) (hne : s ≠ []) (ht : Tidy t) (hne' : t ≠ []) :
    Tidy (s ++ ' ' :: t) where
  space c hc hblank := by
    rcases List.mem_append.1 hc with hc | hc
    · exact hs.space c hc hblank
    · rcases List.mem_cons.1 hc with rfl | hc
      · rfl
      · exact ht.space c hc hblank
  head c hc := by
    rw [List.head?_append_of_ne_nil s hne] at hc
    exact hs.head c hc
  last c hc := by
    rw [List.getLast?_append_of_ne_nil s (List.cons_ne_nil ' ' t),
      ← List.singleton_append, List.getLast?_append_of_ne_nil [' '] hne'] at hc
    exact ht.last c hc
  apart := by
    refine List.isChain_append.2 ⟨hs.apart, ?_, fun c hc _ _ => .inl (hs.last c hc)⟩
    exact List.isChain_cons.2 ⟨fun d hd => .inr (ht.head d hd), ht.apart⟩

theorem Tidy.of_append_cons (h : Tidy (s ++ c :: t)) (hc : isBlank c = true) : Tidy t where
  space d hd := h.space d (List.mem_append_right s (List.mem_cons_of_mem c hd))
  head d hd := by
    have hchain := (List.isChain_append.1 h.apart).2.1
    have hpair := (List.isChain_cons.1 hchain).1 d hd
    simpa [hc] using hpair
  last d hd := by
    refine h.last d ?_
    have hne : t ≠ [] := by
      rintro rfl
      cases hd
    rw [List.getLast?_append_of_ne_nil s (List.cons_ne_nil c t), ← List.singleton_append,
      List.getLast?_append_of_ne_nil [c] hne, hd]
  apart := (List.isChain_cons.1 (List.isChain_append.1 h.apart).2.1).2

theorem Tidy.trim (h : Tidy t) : Text.trim t = t :=
  trimWhere_of_ends h.head h.last

theorem Tidy.trim_of_infix (h : Tidy t) (hs : s <:+: t) : Tidy (Text.trim s) where
  space c hc := h.space c (hs.subset (mem_of_mem_trimWhere hc))
  head _ := not_of_head?_trimWhere
  last _ := not_of_getLast?_trimWhere
  apart := h.apart.infix ((trim_isInfix s).trans hs)

/-! ## Phrases -/

/-- A tidy text that is not empty. -/
structure IsPhrase (t : Text) : Prop where
  tidy : Tidy t
  ne_nil : t ≠ []

theorem IsPhrase.append (hs : IsPhrase s) (ht : Tidy t) : IsPhrase (s ++ t) :=
  ⟨hs.tidy.append ht, List.append_ne_nil_of_left_ne_nil hs.ne_nil t⟩

theorem IsPhrase.append_space (hs : IsPhrase s) (ht : IsPhrase t) : IsPhrase (s ++ ' ' :: t) :=
  ⟨hs.tidy.append_space hs.ne_nil ht.tidy ht.ne_nil,
    List.append_ne_nil_of_left_ne_nil hs.ne_nil (' ' :: t)⟩

theorem IsPhrase.not_isBlank_head (h : IsPhrase (c :: t)) : isBlank c = false :=
  h.tidy.head c rfl

theorem intercalate_induction {P : Text → Prop} {sep : Text}
    (hjoin : ∀ s t, P s → P t → P (s ++ (sep ++ t))) {pieces : List Text} (hne : pieces ≠ [])
    (h : ∀ piece ∈ pieces, P piece) : P (sep.intercalate pieces) := by
  induction pieces with
  | nil => exact absurd rfl hne
  | cons piece pieces ih =>
      obtain ⟨hpiece, hrest⟩ := List.forall_mem_cons.1 h
      cases pieces with
      | nil =>
          rw [List.intercalate_singleton]
          exact hpiece
      | cons next pieces =>
          rw [List.intercalate_cons_cons, List.append_assoc]
          exact hjoin _ _ hpiece (ih (List.cons_ne_nil next pieces) hrest)

/-! ## Collapsing -/

theorem tidy_collapse (t : Text) : Tidy (collapse t) := by
  unfold collapse
  by_cases hnil : words t = []
  · rw [hnil]
    exact tidy_nil
  · have hphrase : IsPhrase ([' '].intercalate (words t)) := by
      refine intercalate_induction (fun _ _ hs ht => hs.append_space ht) hnil fun word hword => ?_
      obtain ⟨hne, hblank⟩ := mem_words hword
      exact ⟨tidy_of_forall fun c hc => (hblank c hc).2, hne⟩
    exact hphrase.tidy

theorem Tidy.collapse {t : Text} (h : Tidy t) : Text.collapse t = t := by
  cases hfind : t.find? isBlank with
  | none =>
      have hblank : ∀ c ∈ t, isBlank c = false := by simpa using hfind
      by_cases hnil : t = []
      · subst hnil
        rfl
      · rw [Text.collapse, words_of_forall hnil hblank, List.intercalate_singleton]
  | some c =>
      obtain ⟨hc, s, u, rfl, hs⟩ := List.find?_eq_some_iff_append.1 hfind
      simp only [Bool.not_eq_true'] at hs
      obtain rfl := h.space c (by simp) hc
      have hu := h.of_append_cons hc
      have hcollapse := hu.collapse
      have hsne : s ≠ [] := by
        rintro rfl
        exact absurd (h.head ' ' rfl) (by decide)
      have hune : words u ≠ [] := by
        intro hnil
        rw [Text.collapse, hnil] at hcollapse
        have hlast := h.last ' ' (by rw [← hcollapse]; simp)
        exact absurd hlast (by decide)
      obtain ⟨word, others, hwords⟩ := List.exists_cons_of_ne_nil hune
      rw [Text.collapse, words_append_blank s u hc, words_of_forall hsne hs, hwords,
        List.singleton_append, List.intercalate_cons_cons, ← hwords]
      rw [Text.collapse] at hcollapse
      rw [hcollapse, List.append_assoc, List.singleton_append]
termination_by t.length

theorem intercalate_append {sep : Text} {pieces others : List Text} (hpieces : pieces ≠ [])
    (hothers : others ≠ []) : sep.intercalate (pieces ++ others) =
      sep.intercalate pieces ++ (sep ++ sep.intercalate others) := by
  induction pieces with
  | nil => exact absurd rfl hpieces
  | cons piece pieces ih =>
      by_cases hnil : pieces = []
      · subst hnil
        rw [List.singleton_append, List.intercalate_singleton,
          List.intercalate_cons_of_ne_nil hothers, List.append_assoc]
      · rw [List.cons_append, List.intercalate_cons_of_ne_nil (by simp [hnil]), ih hnil,
          List.intercalate_cons_of_ne_nil hnil]
        simp only [List.append_assoc]

theorem collapse_append_space (hs : words s ≠ []) (ht : words t ≠ []) :
    collapse (s ++ ' ' :: t) = collapse s ++ ' ' :: collapse t := by
  rw [collapse, words_append_blank s t (by decide), intercalate_append hs ht]
  rfl

theorem words_ne_nil_of_collapse (h : collapse t ≠ []) : words t ≠ [] := by
  intro hnil
  rw [collapse, hnil] at h
  exact h rfl

theorem IsPhrase.words_ne_nil (h : IsPhrase t) : words t ≠ [] :=
  words_ne_nil_of_collapse (by rw [h.tidy.collapse]; exact h.ne_nil)

/-- The tidy texts are those that collapsing does not change. -/
theorem tidy_iff : Tidy t ↔ collapse t = t :=
  ⟨Tidy.collapse, fun h => h ▸ tidy_collapse t⟩

instance (t : Text) : Decidable (Tidy t) :=
  decidable_of_iff (collapse t = t) tidy_iff.symm

end Text

end Relata
