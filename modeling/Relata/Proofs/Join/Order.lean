import Mathlib.Data.Multiset.Bind
import Relata.Proofs.Join.Tuples

/-!
# The order of joined relations

Joining the same relations in another order yields the same column names and the same bag
of rows, read by name. Which copy of a shared value stays depends on the order, and the
copies may differ in the sign of a zero, but in nothing else.
-/

namespace Relata

/-! ## Values that may stand for each other -/

namespace Binary64

theorem signed_eq_signed_iff {s t : Bool} {m n : Nat} :
    signed s m = signed t n ↔ m = n ∧ (s = t ∨ m = 0) := by
  cases s <;> cases t <;> simp [signed] <;> omega

theorem eq_or_zero_of_sameNumber {x y : Binary64} (h : x.sameNumber y = true) :
    x = y ∨ ∃ s t, x = zero s ∧ y = zero t := by
  obtain ⟨rank, hx, hy⟩ := sameNumber_iff.1 h
  have hrank : x.rank? = y.rank? := hx.trans hy.symm
  have hbound : magnitudeBound ≠ 0 := magnitudeBound_pos.ne'
  cases x with
  | nan => cases hx
  | infinite s =>
      cases y with
      | nan => cases hy
      | infinite t =>
          obtain ⟨-, rfl | hzero⟩ := signed_eq_signed_iff.1 (Option.some.inj hrank)
          · exact .inl rfl
          · exact absurd hzero hbound
      | finite t n hn =>
          obtain ⟨hsame, -⟩ := signed_eq_signed_iff.1 (Option.some.inj hrank)
          exact absurd hn.1 (by omega)
  | finite s m hm =>
      cases y with
      | nan => cases hy
      | infinite t =>
          obtain ⟨hsame, -⟩ := signed_eq_signed_iff.1 (Option.some.inj hrank)
          exact absurd hm.1 (by omega)
      | finite t n hn =>
          obtain ⟨rfl, rfl | rfl⟩ := signed_eq_signed_iff.1 (Option.some.inj hrank)
          · exact .inl rfl
          · exact .inr ⟨s, t, rfl, rfl⟩

end Binary64

namespace Value

/-- Equality up to the sign of a zero. -/
def Alike (v w : Value) : Prop :=
  v = w ∨ ∃ s t, v = .float (Binary64.zero s) ∧ w = .float (Binary64.zero t)

theorem alike_of_identical {v w : Value} (h : v.identical w = true) : v.Alike w := by
  cases v <;> cases w
  case int.int =>
    left
    rw [of_decide_eq_true h]
  case float.float x y =>
    rcases Binary64.eq_or_zero_of_sameNumber h with rfl | ⟨s, t, rfl, rfl⟩
    · exact .inl rfl
    · exact .inr ⟨s, t, rfl, rfl⟩
  case text.text =>
    left
    rw [of_decide_eq_true h]
  case nan.nan => exact .inl rfl
  case noValue.noValue => exact .inl rfl
  all_goals exact absurd h Bool.false_ne_true

end Value

/-- Two records that hold the same under every name, up to the sign of zeros. -/
def Record.Alike (a b : Record) : Prop :=
  ∀ name, Option.Rel Value.Alike (a.value? name) (b.value? name)

namespace Relation

/-! ## Bags of related members -/

section Bags

variable {α β γ : Type} {R : α → β → Prop} {s : Multiset α} {t : Multiset β}

theorem rel_filter {p : α → Prop} {q : β → Prop} [DecidablePred p] [DecidablePred q]
    (h : Multiset.Rel R s t) (hpq : ∀ a b, R a b → (p a ↔ q b)) :
    Multiset.Rel R (s.filter p) (t.filter q) := by
  induction h with
  | zero => exact Multiset.Rel.zero
  | @cons a b s t hab _ ih =>
      have hsame := hpq a b hab
      by_cases hp : p a
      · rw [Multiset.filter_cons_of_pos s hp, Multiset.filter_cons_of_pos t (hsame.1 hp)]
        exact Multiset.Rel.cons hab ih
      · rw [Multiset.filter_cons_of_neg s hp, Multiset.filter_cons_of_neg t (mt hsame.2 hp)]
        exact ih

theorem rel_of_forall₂ {xs : List α} {ys : List β} (h : List.Forall₂ R xs ys) :
    Multiset.Rel R (xs : Multiset α) (ys : Multiset β) := by
  induction h with
  | nil => exact Multiset.Rel.zero
  | cons hxy _ ih =>
      rw [← Multiset.cons_coe, ← Multiset.cons_coe]
      exact Multiset.Rel.cons hxy ih

theorem rel_comp {S : β → γ → Prop} {u : Multiset γ} (h : Multiset.Rel R s t)
    (h' : Multiset.Rel S t u) : Multiset.Rel (fun a c => ∃ b, R a b ∧ S b c) s u := by
  induction h generalizing u with
  | zero =>
      rw [Multiset.rel_zero_left] at h'
      rw [h']
      exact Multiset.Rel.zero
  | cons hab _ ih =>
      obtain ⟨c, u, hbc, hrest, rfl⟩ := Multiset.rel_cons_left.1 h'
      exact Multiset.Rel.cons ⟨_, hab, hbc⟩ (ih hrest)

end Bags

/-! ## Tuples in another order -/

theorem coe_tuples_cons (relation : Relation) (rest : List Relation) :
    (tuples (relation :: rest) : Multiset (List Record)) =
      (relation.records : Multiset Record).bind fun record =>
        (tuples rest : Multiset (List Record)).map (record :: ·) := by
  rw [tuples, ← Multiset.coe_bind]
  rfl

theorem rel_perm_tuples {relations permuted : List Relation} (h : relations.Perm permuted) :
    Multiset.Rel List.Perm (tuples relations : Multiset (List Record)) (tuples permuted) := by
  induction h with
  | nil => exact Multiset.rel_refl_of_refl_on fun tuple _ => List.Perm.refl tuple
  | cons relation _ ih =>
      rw [coe_tuples_cons, coe_tuples_cons]
      refine Multiset.rel_bind (r := Eq) ?_ Multiset.rel_eq_refl
      rintro record _ rfl
      exact Multiset.rel_map.2 (ih.mono fun _ _ _ _ hperm => hperm.cons record)
  | swap a b rest =>
      simp only [coe_tuples_cons, Multiset.map_bind, Multiset.map_map, Function.comp_def]
      rw [Multiset.bind_bind]
      refine Multiset.rel_bind (r := Eq) ?_ Multiset.rel_eq_refl
      rintro first _ rfl
      refine Multiset.rel_bind (r := Eq) ?_ Multiset.rel_eq_refl
      rintro second _ rfl
      exact Multiset.rel_map.2
        (Multiset.rel_refl_of_refl_on fun tuple _ => List.Perm.swap _ _ tuple)
  | trans _ _ ih₁ ih₂ =>
      refine (rel_comp ih₁ ih₂).mono ?_
      rintro _ _ _ _ ⟨_, h₁, h₂⟩
      exact h₁.trans h₂

theorem rel_perm_matching {relations permuted : List Relation} (h : relations.Perm permuted) :
    Multiset.Rel List.Perm (matching relations : Multiset (List Record)) (matching permuted) := by
  have hfilter := rel_filter (p := List.Pairwise Record.Agree) (q := List.Pairwise Record.Agree)
    (rel_perm_tuples h) fun _ _ hperm => hperm.pairwise_iff fun hagree => hagree.symm
  simpa only [matching, Multiset.filter_coe] using hfilter

/-- Records of a tuple that agree pairwise hold values that may stand for each other. -/
theorem alike_of_mem {tuple : List Record} (hpair : tuple.Pairwise Record.Agree)
    {a b : Record} (ha : a ∈ tuple) (hb : b ∈ tuple) {name : Text} {v w : Value}
    (hv : a.value? name = some v) (hw : b.value? name = some w) : v.Alike w := by
  by_cases hsame : a = b
  · subst hsame
    exact .inl (Option.some.inj (hv.symm.trans hw))
  · have hsymm : Std.Symm Record.Agree := ⟨fun _ _ hagree => hagree.symm⟩
    exact Value.alike_of_identical (hpair.forall ha hb hsame name v w hv hw)

theorem firstValue?_eq_none_iff {tuple : List Record} {name : Text} :
    firstValue? tuple name = none ↔ ∀ record ∈ tuple, record.value? name = none :=
  List.findSome?_eq_none_iff

theorem rel_firstValue? {tuple permuted : List Record} (hpair : tuple.Pairwise Record.Agree)
    (hperm : tuple.Perm permuted) (name : Text) :
    Option.Rel Value.Alike (firstValue? tuple name) (firstValue? permuted name) := by
  have hnone : firstValue? tuple name = none ↔ firstValue? permuted name = none := by
    simp only [firstValue?_eq_none_iff, hperm.mem_iff]
  cases hv : firstValue? tuple name with
  | none =>
      rw [hnone.1 hv]
      exact Option.Rel.none
  | some v =>
      cases hw : firstValue? permuted name with
      | none => cases hv.symm.trans (hnone.2 hw)
      | some w =>
          obtain ⟨a, ha, hav⟩ := List.exists_of_findSome?_eq_some hv
          obtain ⟨b, hb, hbw⟩ := List.exists_of_findSome?_eq_some hw
          exact Option.Rel.some (alike_of_mem hpair ha (hperm.mem_iff.2 hb) hav hbw)

/-! ## Joins in another order -/

/--
Two relations that can be read by name, with the same column names and the same bag of rows
up to the sign of zeros.
-/
structure Reordered (left right : Relation) : Prop where
  regular : left.Regular ∧ right.Regular
  names : ∀ name, name ∈ left.columns.map Column.name ↔ name ∈ right.columns.map Column.name
  rows : Multiset.Rel Record.Alike (left.records : Multiset Record) right.records

theorem isSome_named?_iff {columns : List Column} {name : Text} :
    (Column.named? columns name).isSome ↔ name ∈ columns.map Column.name := by
  simp only [Column.named?, List.find?_isSome, decide_eq_true_eq, List.mem_map]

theorem IsNaturalJoin.mem_names_iff {relations : List Relation} {joined : Relation}
    (h : IsNaturalJoin relations joined) (name : Text) :
    name ∈ joined.columns.map Column.name ↔
      ∃ relation ∈ relations, name ∈ relation.columns.map Column.name := by
  simp only [← isSome_named?_iff, h.columns, List.findSome?_isSome_iff]

theorem IsNaturalJoin.reordered {relations permuted : List Relation} {left right : Relation}
    (hleft : IsNaturalJoin relations left) (hright : IsNaturalJoin permuted right)
    (hperm : relations.Perm permuted) : left.Reordered right where
  regular := ⟨hleft.regular, hright.regular⟩
  names name := by
    simp only [hleft.mem_names_iff, hright.mem_names_iff, hperm.mem_iff]
  rows := by
    have hmatching := (rel_perm_matching hperm).mono
      (p := fun tuple other => tuple.Pairwise Record.Agree ∧ tuple.Perm other)
      fun tuple htuple _ _ h => ⟨matching_pairwise htuple, h⟩
    have hrows := rel_comp (rel_of_forall₂ hleft.records)
      (rel_comp hmatching (rel_of_forall₂ hright.records.flip))
    refine hrows.mono ?_
    rintro a _ b _ ⟨tuple, ha, other, ⟨hpair, hother⟩, hb⟩ name
    rw [ha, hb]
    exact rel_firstValue? hpair hother name

theorem exists_isNaturalJoin {first : Relation} {rest : List Relation}
    (hregular : ∀ relation ∈ first :: rest, relation.Regular) :
    ∃ joined, joinAll (first :: rest) = .ok (some joined) ∧
      IsNaturalJoin (first :: rest) joined := by
  obtain ⟨hfirst, hrest⟩ := List.forall_mem_cons.1 hregular
  obtain ⟨joined, hjoined, hnatural⟩ :=
    joinWith_isNaturalJoin (isNaturalJoin_singleton hfirst) hrest
  exact ⟨joined, Outcome.map_eq_ok.2 ⟨joined, hjoined, rfl⟩, hnatural⟩

/-- Joins of the same relations in two orders are the same up to the order of what they hold. -/
theorem joinAll_perm {relations permuted : List Relation} (hperm : relations.Perm permuted)
    (hregular : ∀ relation ∈ relations, relation.Regular) :
    ∃ left right, joinAll relations = .ok left ∧ joinAll permuted = .ok right ∧
      Option.Rel Reordered left right := by
  have hregular' : ∀ relation ∈ permuted, relation.Regular := fun relation hmem =>
    hregular relation (hperm.mem_iff.2 hmem)
  cases relations with
  | nil =>
      cases hperm.nil_eq
      exact ⟨none, none, rfl, rfl, Option.Rel.none⟩
  | cons first rest =>
      cases permuted with
      | nil => exact absurd hperm.eq_nil (List.cons_ne_nil first rest)
      | cons first' rest' =>
          obtain ⟨left, hleft, hnatural⟩ := exists_isNaturalJoin hregular
          obtain ⟨right, hright, hnatural'⟩ := exists_isNaturalJoin hregular'
          exact ⟨some left, some right, hleft, hright,
            Option.Rel.some (hnatural.reordered hnatural' hperm)⟩

/-- Two relations that share zeros of either sign, the first with a row twice. -/
def signedZeros : List Relation :=
  [⟨"a".toList, [⟨"x".toList, .float⟩, ⟨"y".toList, .int⟩],
      [[.float (.zero false), .int 1], [.float (.zero false), .int 1], [.nan, .int 2]]⟩,
    ⟨"b".toList, [⟨"z".toList, .string⟩, ⟨"x".toList, .float⟩],
      [[.text "p".toList, .float (.zero true)], [.noValue, .nan]]⟩]

theorem joinAll_perm_signedZeros :
    signedZeros.Perm signedZeros.reverse ∧ (∀ relation ∈ signedZeros, relation.Regular) ∧
      ∃ left right, joinAll signedZeros = .ok left ∧ joinAll signedZeros.reverse = .ok right ∧
        left ≠ right ∧ Option.Rel Reordered left right := by
  have hperm : signedZeros.Perm signedZeros.reverse := signedZeros.reverse_perm.symm
  have hregular : ∀ relation ∈ signedZeros, relation.Regular := by decide
  obtain ⟨left, right, hleft, hright, hrel⟩ := joinAll_perm hperm hregular
  refine ⟨hperm, hregular, left, right, hleft, hright, ?_, hrel⟩
  rintro rfl
  exact absurd (hleft.trans hright.symm) (by decide)

end Relation

end Relata
