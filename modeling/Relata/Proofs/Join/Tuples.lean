import Mathlib.Data.List.Forall2
import Relata.Proofs.Join.Pair

/-!
# The join of a list of relations

The tuples of one record per relation are listed in lexicographic order of the positions of
the records, the first relation outermost. A join of the whole list has one record per
tuple whose records agree pairwise, in that order, and under every name the value of the
first record that has the name.
-/

namespace Relata

namespace Relation

/-- The tuples of one record per relation, the first relation outermost. -/
def tuples : List Relation → List (List Record)
  | [] => [[]]
  | relation :: rest => relation.records.flatMap fun record => (tuples rest).map (record :: ·)

/-- The tuples in which any two records agree. -/
def matching (relations : List Relation) : List (List Record) :=
  (tuples relations).filter fun tuple => tuple.Pairwise Record.Agree

/-- The value under a name in the first record of a tuple that has the name. -/
def firstValue? (tuple : List Record) (name : Text) : Option Value :=
  tuple.findSome? fun record => record.value? name

/--
A natural join of a list of relations. A name belongs to the first column of the list that
bears it, and the records correspond one by one to the tuples that agree pairwise.
-/
structure IsNaturalJoin (relations : List Relation) (joined : Relation) : Prop where
  regular : joined.Regular
  columns : ∀ name, Column.named? joined.columns name =
    relations.findSome? fun relation => Column.named? relation.columns name
  records : List.Forall₂ (fun record tuple => ∀ name, record.value? name = firstValue? tuple name)
    joined.records (matching relations)

/-! ## Tuples of a longer list -/

theorem tuples_concat (relations : List Relation) (last : Relation) :
    tuples (relations ++ [last]) =
      (tuples relations).flatMap fun tuple => last.records.map fun record => tuple ++ [record] := by
  induction relations with
  | nil => simp [tuples, List.map_eq_flatMap]
  | cons relation relations ih =>
      simp only [List.cons_append, tuples, ih, List.flatMap_assoc, List.map_flatMap,
        List.flatMap_map, List.map_map]
      rfl

theorem matching_concat (relations : List Relation) (last : Relation) :
    matching (relations ++ [last]) =
      (matching relations).flatMap fun tuple =>
        (last.records.filter fun record => ∀ other ∈ tuple, Record.Agree other record).map
          fun record => tuple ++ [record] := by
  rw [matching, matching, tuples_concat]
  induction tuples relations with
  | nil => rfl
  | cons tuple tuples ih =>
      rw [List.flatMap_cons, List.filter_append, ih, List.filter_cons, List.filter_map]
      by_cases hpair : tuple.Pairwise Record.Agree
      · rw [if_pos (decide_eq_true hpair), List.flatMap_cons]
        congr 2
        apply List.filter_congr
        intro record _
        simp [List.pairwise_append, hpair]
      · rw [if_neg (by simpa using hpair)]
        simp [List.pairwise_append, hpair]

theorem firstValue?_concat (tuple : List Record) (record : Record) (name : Text) :
    firstValue? (tuple ++ [record]) name = (firstValue? tuple name).or (record.value? name) := by
  simp [firstValue?, List.findSome?_append]

/-! ## Agreement with a tuple -/

/--
In a tuple that agrees pairwise the first value of a name stands for all of them: a record
that agrees with the first values agrees with every record of the tuple.
-/
theorem agree_first_iff {tuple : List Record} (hpair : tuple.Pairwise Record.Agree)
    {first : Record} (hfirst : ∀ name, first.value? name = firstValue? tuple name)
    (record : Record) :
    Record.Agree first record ↔ ∀ other ∈ tuple, Record.Agree other record := by
  constructor
  · intro h other hother name v w hv hw
    obtain ⟨before, after, rfl⟩ := List.append_of_mem hother
    have hvalue := hfirst name
    rw [firstValue?, List.findSome?_append, List.findSome?_cons, hv] at hvalue
    cases hbefore : before.findSome? fun record => record.value? name with
    | none =>
        rw [hbefore] at hvalue
        exact h name v w hvalue hw
    | some u =>
        rw [hbefore] at hvalue
        obtain ⟨earlier, hearlier, hu⟩ := List.exists_of_findSome?_eq_some hbefore
        have huv := (List.pairwise_append.1 hpair).2.2 earlier hearlier other
          List.mem_cons_self name u v hu hv
        exact Value.identical_trans (Value.identical_symm huv) (h name u w hvalue hw)
  · intro h name v w hv hw
    rw [hfirst, firstValue?] at hv
    obtain ⟨other, hother, hv⟩ := List.exists_of_findSome?_eq_some hv
    exact h other hother name v w hv hw

/-! ## The fold -/

theorem records_singleton (relation : Relation) :
    matching [relation] = relation.records.map fun record => [record] := by
  simp only [matching, tuples, List.map_cons, List.map_nil]
  rw [← List.map_eq_flatMap, List.filter_map]
  simp [Function.comp_def]

theorem isNaturalJoin_singleton {relation : Relation} (h : relation.Regular) :
    IsNaturalJoin [relation] relation where
  regular := h
  columns name := by
    cases hnamed : Column.named? relation.columns name <;> simp [hnamed]
  records := by
    rw [records_singleton, List.forall₂_map_right_iff, List.forall₂_same]
    intro record _ name
    cases hvalue : record.value? name <;> simp [firstValue?, hvalue]

theorem matching_pairwise {relations : List Relation} {tuple : List Record}
    (h : tuple ∈ matching relations) : tuple.Pairwise Record.Agree := by
  simpa using (List.mem_filter.1 h).2

/-- Joining one relation more keeps a natural join one. -/
theorem IsNaturalJoin.concat {relations : List Relation} {joined last : Relation}
    (h : IsNaturalJoin relations joined) (hlast : last.Regular) :
    ∃ next, naturalJoin joined last = .ok next ∧ IsNaturalJoin (relations ++ [last]) next := by
  obtain ⟨next, hnext, hregular, hcolumns, hrecords⟩ := naturalJoin_spec h.regular hlast
  refine ⟨next, hnext, hregular, ?_, ?_⟩
  · intro name
    rw [hcolumns, h.columns]
    simp [List.findSome?_append]
  · have hpairs : List.Forall₂ (fun record tuple => tuple.Pairwise Record.Agree ∧
        record ∈ joined.records ∧ ∀ name, record.value? name = firstValue? tuple name)
          joined.records (matching relations) := by
      refine List.forall₂_iff_get.2 ⟨h.records.length_eq, fun i hi hi' => ?_⟩
      exact ⟨matching_pairwise (List.get_mem _ _), List.get_mem _ _, h.records.get hi hi'⟩
    rw [hrecords, matching_concat]
    refine List.rel_flatMap hpairs ?_
    rintro first tuple ⟨hpair, hmem, hfirst⟩
    beta_reduce
    -- to agree with the joined record is to agree with every record of its tuple
    have hfilter : (last.records.filter fun record => Record.Agree first record) =
        last.records.filter fun record => ∀ other ∈ tuple, Record.Agree other record :=
      List.filter_congr fun record _ => decide_eq_decide.2 (agree_first_iff hpair hfirst record)
    rw [hfilter, List.forall₂_map_left_iff, List.forall₂_map_right_iff, List.forall₂_same]
    intro record _ name
    rw [firstValue?_concat, ← hfirst]
    refine value?_beside (fun shared hshared => ?_) name
    obtain ⟨row, hrow, rfl⟩ := List.mem_map.1 hmem
    exact isSome_value?_of_mem_sharedNames (h.regular.filled row hrow) hshared

theorem joinWith_isNaturalJoin {relations rest : List Relation} {joined : Relation}
    (h : IsNaturalJoin relations joined) (hrest : ∀ relation ∈ rest, relation.Regular) :
    ∃ final, joinWith joined rest = .ok final ∧ IsNaturalJoin (relations ++ rest) final := by
  induction rest generalizing relations joined with
  | nil => exact ⟨joined, rfl, by simpa using h⟩
  | cons next rest ih =>
      obtain ⟨middle, hmiddle, hnatural⟩ := h.concat (hrest next List.mem_cons_self)
      obtain ⟨final, hfinal, hjoin⟩ :=
        ih hnatural fun relation hmem => hrest relation (List.mem_cons_of_mem next hmem)
      refine ⟨final, ?_, by simpa using hjoin⟩
      rw [joinWith, List.foldlM_cons, hmiddle]
      exact hfinal

/-- A list of regular relations has a natural join, and joining from the front finds it. -/
theorem joinAll_isNaturalJoin {relations : List Relation} (hne : relations ≠ [])
    (hregular : ∀ relation ∈ relations, relation.Regular) :
    ∃ joined, joinAll relations = .ok (some joined) ∧ IsNaturalJoin relations joined := by
  cases relations with
  | nil => exact absurd rfl hne
  | cons first rest =>
      obtain ⟨joined, hjoined, hnatural⟩ := joinWith_isNaturalJoin
        (isNaturalJoin_singleton (hregular first List.mem_cons_self))
        fun relation hmem => hregular relation (List.mem_cons_of_mem first hmem)
      refine ⟨joined, ?_, hnatural⟩
      rw [joinAll, hjoined]
      rfl

/-- Three relations of which only the outer two share a name. -/
def outerShared : List Relation :=
  [⟨"a".toList, [⟨"x".toList, .int⟩, ⟨"y".toList, .string⟩],
      [[.int 1, .text "p".toList], [.int 2, .noValue], [.nan, .text "q".toList]]⟩,
    ⟨"b".toList, [⟨"z".toList, .int⟩], [[.int 3], [.int 4]]⟩,
    ⟨"c".toList, [⟨"w".toList, .int⟩, ⟨"x".toList, .string⟩], [[.int 5, .nan], [.int 6, .int 2]]⟩]

theorem joinAll_isNaturalJoin_outerShared :
    outerShared ≠ [] ∧ (∀ relation ∈ outerShared, relation.Regular) ∧
      ∃ joined, joinAll outerShared = .ok (some joined) ∧ IsNaturalJoin outerShared joined :=
  ⟨by decide, by decide, joinAll_isNaturalJoin (by decide) (by decide)⟩

end Relation

end Relata
