import Relata.Proofs.Text.Returns
import Relata.Proofs.Text.Tidy

/-!
# Runs of blanks

Squeezing turns every run of blanks into one space, at the ends of a text too. It goes part
by part wherever two parts meet without a blank on both sides, and it keeps the words of a
text. Collapsing a text is squeezing what trimming leaves of it.
-/

namespace Relata

namespace Text

/-- Turns every run of blanks into one space, written where the run ends. -/
def squeeze : Text → Text
  | [] => []
  | c :: rest =>
      if isBlank c then
        if rest.head?.any isBlank then squeeze rest else ' ' :: squeeze rest
      else c :: squeeze rest

variable {s t : Text} {c : Char}

theorem squeeze_of_forall (h : ∀ c ∈ t, isBlank c = false) : squeeze t = t := by
  induction t with
  | nil => rfl
  | cons c t ih =>
      obtain ⟨hc, ht⟩ := List.forall_mem_cons.1 h
      rw [squeeze, hc, if_neg Bool.false_ne_true, ih ht]

/-! ## Characters -/

theorem mem_squeeze (h : c ∈ squeeze t) : c = ' ' ∨ isBlank c = false ∧ c ∈ t := by
  induction t using squeeze.induct with
  | case1 => cases h
  | case2 d t hd hnext ih =>
      rw [squeeze, if_pos hd, if_pos hnext] at h
      exact (ih h).imp_right (And.imp_right (List.mem_cons_of_mem d))
  | case3 d t hd hnext ih =>
      rw [squeeze, if_pos hd, if_neg hnext] at h
      rcases List.mem_cons.1 h with rfl | h
      · exact .inl rfl
      · exact (ih h).imp_right (And.imp_right (List.mem_cons_of_mem d))
  | case4 d t hd ih =>
      rw [squeeze, if_neg hd] at h
      rcases List.mem_cons.1 h with rfl | h
      · exact .inr ⟨by simpa using hd, List.mem_cons_self⟩
      · exact (ih h).imp_right (And.imp_right (List.mem_cons_of_mem d))

theorem isBlank_of_mem_squeeze (ht : ∀ c ∈ t, isBlank c = true) :
    ∀ c ∈ squeeze t, isBlank c = true := by
  intro c hc
  rcases mem_squeeze hc with rfl | ⟨hblank, hmem⟩
  · rfl
  · exact ht c hmem

theorem head?_squeeze (t : Text) :
    (squeeze t).head? = t.head?.map fun c => if isBlank c then ' ' else c := by
  induction t using squeeze.induct with
  | case1 => rfl
  | case2 c t hc hnext ih =>
      rw [squeeze, if_pos hc, if_pos hnext, ih]
      cases t with
      | nil => cases hnext
      | cons d t =>
          have hd : isBlank d = true := hnext
          simp [hc, hd]
  | case3 c t hc hnext _ =>
      rw [squeeze, if_pos hc, if_neg hnext]
      simp [hc]
  | case4 c t hc _ =>
      rw [squeeze, if_neg hc]
      simp [hc]

theorem getLast?_squeeze (t : Text) :
    (squeeze t).getLast? = t.getLast?.map fun c => if isBlank c then ' ' else c := by
  induction t using squeeze.induct with
  | case1 => rfl
  | case2 c t hc hnext ih =>
      rw [squeeze, if_pos hc, if_pos hnext, ih]
      cases t with
      | nil => cases hnext
      | cons d t => rw [List.getLast?_cons_cons]
  | case3 c t hc hnext ih =>
      rw [squeeze, if_pos hc, if_neg hnext, List.getLast?_cons, List.getLast?_cons, ih]
      cases t.getLast? <;> simp [hc]
  | case4 c t hc ih =>
      rw [squeeze, if_neg hc, List.getLast?_cons, List.getLast?_cons, ih]
      cases t.getLast? <;> simp [hc]

/-! ## Parts -/

/-- Parts that do not meet in a run of blanks are squeezed one by one. -/
theorem squeeze_append (h : ∀ c d, s.getLast? = some c → t.head? = some d →
    isBlank c = false ∨ isBlank d = false) : squeeze (s ++ t) = squeeze s ++ squeeze t := by
  induction s using squeeze.induct with
  | case1 => rfl
  | case2 c s hc hnext ih =>
      cases s with
      | nil => cases hnext
      | cons d s =>
          rw [List.getLast?_cons_cons] at h
          rw [List.cons_append, squeeze, if_pos hc, squeeze, if_pos hc, if_pos hnext, ← ih h]
          exact if_pos hnext
  | case3 c s hc hnext ih =>
      -- the run ends with this blank, also where the second part begins behind it
      have hmeet : ¬(s ++ t).head?.any isBlank = true := by
        cases s with
        | nil =>
            cases ht : t.head? with
            | none => simp [ht]
            | some d =>
                have hd := (h c d rfl ht).resolve_left (by simp [hc])
                simp [ht, hd]
        | cons d s => exact hnext
      have hrest : squeeze (s ++ t) = squeeze s ++ squeeze t := by
        cases s with
        | nil => rfl
        | cons d s => exact ih (by rwa [List.getLast?_cons_cons] at h)
      rw [List.cons_append, squeeze, if_pos hc, if_neg hmeet, squeeze, if_pos hc, if_neg hnext,
        hrest, List.cons_append]
  | case4 c s hc ih =>
      have hrest : squeeze (s ++ t) = squeeze s ++ squeeze t := by
        cases s with
        | nil => rfl
        | cons d s => exact ih (by rwa [List.getLast?_cons_cons] at h)
      rw [List.cons_append, squeeze, if_neg hc, squeeze, if_neg hc, hrest, List.cons_append]

theorem squeeze_append_append {part : Text} (hne : part ≠ [])
    (h : ∀ c, part.head? = some c ∨ part.getLast? = some c → isBlank c = false) (s t : Text) :
    squeeze (s ++ (part ++ t)) = squeeze s ++ (squeeze part ++ squeeze t) := by
  rw [squeeze_append fun c d _ hd => .inr (h d (.inl ?_)),
    squeeze_append fun c _ hc _ => .inl (h c (.inr hc))]
  rwa [List.head?_append_of_ne_nil part hne] at hd

theorem words_append_squeeze (s t : Text) : words (s ++ squeeze t) = words (s ++ t) := by
  induction t using squeeze.induct generalizing s with
  | case1 => rfl
  | case2 c t hc hnext ih =>
      cases t with
      | nil => cases hnext
      | cons d t =>
          have hd : isBlank d = true := hnext
          have hwords : words (d :: t) = words t := words_append_blank [] t hd
          rw [squeeze, if_pos hc, if_pos hnext, ih, words_append_blank s t hd,
            words_append_blank s (d :: t) hc, hwords]
  | case3 c t hc hnext ih =>
      rw [squeeze, if_pos hc, if_neg hnext, words_append_blank s t hc,
        words_append_blank s (squeeze t) (by decide)]
      exact congrArg (words s ++ ·) (ih [])
  | case4 c t hc ih =>
      have hmove (u : Text) : s ++ c :: u = (s ++ [c]) ++ u := by simp
      rw [squeeze, if_neg hc, hmove (squeeze t), hmove t, ih]

/-! ## Ends without blanks -/

theorem tidy_squeeze (hhead : ∀ c, t.head? = some c → isBlank c = false)
    (hlast : ∀ c, t.getLast? = some c → isBlank c = false) : Tidy (squeeze t) where
  space c hc hblank := (mem_squeeze hc).resolve_right fun h => absurd hblank (by simp [h.1])
  head c hc := by
    rw [head?_squeeze, Option.map_eq_some_iff] at hc
    obtain ⟨d, hd, rfl⟩ := hc
    simp [hhead d hd]
  last c hc := by
    rw [getLast?_squeeze, Option.map_eq_some_iff] at hc
    obtain ⟨d, hd, rfl⟩ := hc
    simp [hlast d hd]
  apart := by
    clear hhead hlast
    induction t using squeeze.induct with
    | case1 => exact List.isChain_nil
    | case2 c t hc hnext ih =>
        rw [squeeze, if_pos hc, if_pos hnext]
        exact ih
    | case3 c t hc hnext ih =>
        rw [squeeze, if_pos hc, if_neg hnext]
        refine List.isChain_cons.2 ⟨fun d hd => .inr ?_, ih⟩
        rw [head?_squeeze, Option.mem_def, Option.map_eq_some_iff] at hd
        obtain ⟨e, he, rfl⟩ := hd
        have hblank : isBlank e = false := by simpa [he] using hnext
        simp [hblank]
    | case4 c t hc ih =>
        rw [squeeze, if_neg hc]
        exact List.isChain_cons.2 ⟨fun d _ => .inl (by simpa using hc), ih⟩

theorem words_blanks_append {front back : Text} (hfront : ∀ c ∈ front, isBlank c = true)
    (hback : ∀ c ∈ back, isBlank c = true) (t : Text) : words (front ++ (t ++ back)) = words t := by
  induction front with
  | nil =>
      rw [List.nil_append]
      induction back generalizing t with
      | nil => rw [List.append_nil]
      | cons c back ih =>
          obtain ⟨hc, hback⟩ := List.forall_mem_cons.1 hback
          rw [← List.singleton_append, ← List.append_assoc, ih hback, words_append hc]
  | cons c front ih =>
      obtain ⟨hc, hfront⟩ := List.forall_mem_cons.1 hfront
      have hfirst : words (c :: (front ++ (t ++ back))) = words (front ++ (t ++ back)) :=
        words_append_blank [] _ hc
      rw [List.cons_append, hfirst, ih hfront]

/-- Collapsing is squeezing without the blanks at the ends. -/
theorem collapse_eq_squeeze_trim (t : Text) : collapse t = squeeze (trim t) := by
  obtain ⟨front, back, ht, hfront, hback⟩ := exists_trim t
  have htidy : Tidy (squeeze (trim t)) :=
    tidy_squeeze (fun _ => not_of_head?_trimWhere) fun _ => not_of_getLast?_trimWhere
  have hwords : words (squeeze (trim t)) = words t :=
    calc words (squeeze (trim t)) = words (trim t) := words_append_squeeze [] (trim t)
      _ = words (front ++ (trim t ++ back)) := (words_blanks_append hfront hback (trim t)).symm
      _ = words t := congrArg words ht.symm
  rw [← htidy.collapse, collapse, collapse, hwords]

end Text

end Relata
