import Relata.Proofs.Selection.Rows

/-!
# The order of conditions

Selections by the same conditions in two orders keep the same rows if both succeed. One may
fail where the other succeeds: a condition that has no truth value on a row fails there,
unless a condition before it has passed over that row. All orders fare alike exactly if an
operand is unknown, if no condition fails on any row, or if some of the conditions form a
knot, so that whichever of them comes first fails.
-/

namespace Relata

/-- Both succeed with the same result, or both fail. -/
def Outcome.Alike (x y : Except ε α) : Prop :=
  (∃ a, x = .ok a ∧ y = .ok a) ∨ ∃ e e', x = .error e ∧ y = .error e'

namespace Relation

/-- The condition has no truth value on the row. -/
def Undefined (source : Relation) (row : Row) (condition : Condition) : Prop :=
  ∃ e, source.test row condition = .error e

/--
Some of the conditions, each of which is undefined on a row on which all conditions outside
the knot hold.
-/
structure IsKnot (source : Relation) (conditions knot : List Condition) : Prop where
  nonempty : knot ≠ []
  subset : knot ⊆ conditions
  undefined : ∀ condition ∈ knot, ∃ row ∈ source.rows, source.Undefined row condition ∧
    ∀ other ∈ conditions, other ∉ knot → source.Holds row other

variable {source : Relation} {row : Row} {condition : Condition}
  {conditions others order knot : List Condition}

/-! ## Tests that fail -/

theorem not_undefined_iff :
    ¬source.Undefined row condition ↔ ∃ holds, source.test row condition = .ok holds := by
  rw [Undefined]
  cases source.test row condition <;> simp

theorem exists_testAll_of_forall
    (h : ∀ condition ∈ conditions, ¬source.Undefined row condition) :
    ∃ holds, source.testAll row conditions = .ok holds := by
  induction conditions with
  | nil => exact ⟨true, rfl⟩
  | cons condition conditions ih =>
      obtain ⟨hfirst, hrest⟩ := List.forall_mem_cons.1 h
      exact exists_testAll_cons_iff.2 ⟨not_undefined_iff.1 hfirst, fun _ => ih hrest⟩

theorem exists_testAll_append_cons (hbefore : ∀ other ∈ order, source.Holds row other)
    (h : ∃ holds, source.testAll row (order ++ condition :: conditions) = .ok holds) :
    ¬source.Undefined row condition := by
  rw [testAll_append, testAll_eq_true_iff.2 hbefore] at h
  exact not_undefined_iff.2 (exists_testAll_cons_iff.1 h).1

theorem exists_testAll_concat (h : ∃ holds, source.testAll row order = .ok holds)
    (hlast : (∀ other ∈ order, source.Holds row other) → ¬source.Undefined row condition) :
    ∃ holds, source.testAll row (order ++ [condition]) = .ok holds := by
  obtain ⟨holds, hholds⟩ := h
  rw [testAll_append, hholds]
  cases holds with
  | false => exact ⟨false, rfl⟩
  | true =>
      have hdefined := hlast (testAll_eq_true_iff.1 hholds)
      exact exists_testAll_of_forall fun other hother =>
        List.mem_singleton.1 hother ▸ hdefined

/-! ## Orders that succeed and orders that fail -/

theorem satisfying_perm (h : conditions.Perm others) :
    source.satisfying conditions = source.satisfying others := by
  have hrows : (source.rows.filter fun row => ∀ other ∈ conditions, source.Holds row other) =
      source.rows.filter fun row => ∀ other ∈ others, source.Holds row other :=
    List.filter_congr fun row _ => decide_eq_decide.2 (by simp only [h.mem_iff])
  exact congrArg (Relation.mk source.name source.columns) hrows

/-- Two orders fare alike if both succeed or neither does. -/
theorem alike_select_iff (h : conditions.Perm others) :
    Outcome.Alike (source.select conditions) (source.select others) ↔
      ((∃ selected, source.select conditions = .ok selected) ↔
        ∃ selected, source.select others = .ok selected) := by
  unfold Outcome.Alike
  cases hfirst : source.select conditions with
  | error e => cases source.select others <;> simp
  | ok first =>
      cases hsecond : source.select others with
      | error e => simp
      | ok second =>
          have hsame : first = second := by
            rw [← (select_eq_ok_iff.1 hfirst).2.2, ← (select_eq_ok_iff.1 hsecond).2.2]
            exact satisfying_perm h
          simp [hsame]

/-- Of a knot the condition that comes first fails, for the conditions before it all hold. -/
theorem IsKnot.not_exists_select (hknot : source.IsKnot conditions knot)
    (h : conditions.Perm order) : ¬∃ selected, source.select order = .ok selected := by
  rintro hselected
  obtain ⟨-, htested⟩ := exists_select_iff.1 hselected
  obtain ⟨member, hmember⟩ := List.exists_mem_of_ne_nil knot hknot.nonempty
  obtain ⟨first, hfirst⟩ : ∃ first, order.find? (· ∈ knot) = some first := by
    rw [← Option.isSome_iff_exists, List.find?_isSome]
    exact ⟨member, h.subset (hknot.subset hmember), decide_eq_true hmember⟩
  obtain ⟨hknotted, before, after, rfl, hbefore⟩ := List.find?_eq_some_iff_append.1 hfirst
  obtain ⟨row, hrow, hundefined, hholds⟩ := hknot.undefined first (of_decide_eq_true hknotted)
  refine exists_testAll_append_cons (fun other hother => ?_) (htested row hrow) hundefined
  refine hholds other (h.symm.subset (List.mem_append_left _ hother)) fun hin => ?_
  simpa [hin] using hbefore other hother

/-- Conditions that are no knot have one that is defined wherever the conditions outside hold. -/
theorem exists_next_of_not_knot {rest : List Condition} (hknot : ¬source.IsKnot conditions rest)
    (hne : rest ≠ []) (hsubset : rest ⊆ conditions) :
    ∃ next ∈ rest, ∀ row ∈ source.rows, source.Undefined row next →
      ∃ other ∈ conditions, other ∉ rest ∧ ¬source.Holds row other := by
  by_contra hall
  push Not at hall
  exact hknot ⟨hne, hsubset, hall⟩

/-- Without a knot, an order that has not failed so far can go on until no condition is left. -/
theorem exists_order_of_not_knot (hknot : ∀ knot, ¬source.IsKnot conditions knot)
    (done rest : List Condition) (hperm : conditions.Perm (done ++ rest))
    (hdone : ∀ row ∈ source.rows, ∃ holds, source.testAll row done = .ok holds) :
    ∃ order, conditions.Perm order ∧
      ∀ row ∈ source.rows, ∃ holds, source.testAll row order = .ok holds := by
  -- by induction on the number of conditions left; those done never fail on a row
  induction hlength : rest.length generalizing done rest with
  | zero =>
      rw [List.length_eq_zero_iff.1 hlength, List.append_nil] at hperm
      exact ⟨done, hperm, hdone⟩
  | succ n ih =>
      have hne : rest ≠ [] := by
        rintro rfl
        cases hlength
      have hsubset : rest ⊆ conditions := fun other hother =>
        hperm.symm.subset (List.mem_append_right done hother)
      -- the conditions that are left are no knot, so one of them can come next
      obtain ⟨next, hnext, hdefined⟩ := exists_next_of_not_knot (hknot rest) hne hsubset
      have hsplit : (done ++ rest).Perm (done ++ [next] ++ rest.erase next) := by
        rw [List.append_assoc]
        exact (List.perm_cons_erase hnext).append_left done
      refine ih (done ++ [next]) (rest.erase next) (hperm.trans hsplit) ?_ ?_
      · intro row hrow
        refine exists_testAll_concat (hdone row hrow) fun hholds hundefined => ?_
        obtain ⟨other, hother, hnot, hfalse⟩ := hdefined row hrow hundefined
        exact hfalse (hholds other ((List.mem_append.1 (hperm.subset hother)).resolve_right hnot))
      · rw [List.length_erase_of_mem hnext, hlength]
        rfl

theorem exists_order_of_undefined (hrow : row ∈ source.rows) (hcondition : condition ∈ conditions)
    (h : source.Undefined row condition) :
    ∃ order, conditions.Perm order ∧ ¬∃ selected, source.select order = .ok selected := by
  refine ⟨condition :: conditions.erase condition, List.perm_cons_erase hcondition, ?_⟩
  rw [exists_select_iff]
  rintro ⟨-, htested⟩
  exact not_undefined_iff.2 (exists_testAll_cons_iff.1 (htested row hrow)).1 h

theorem exists_select_iff_of_defined
    (h : ∀ row ∈ source.rows, ∀ condition ∈ conditions, ¬source.Undefined row condition)
    (hperm : conditions.Perm order) : (∃ selected, source.select order = .ok selected) ↔
      ∀ condition ∈ conditions, source.Resolves condition := by
  rw [exists_select_iff]
  simp only [hperm.mem_iff] at h ⊢
  exact and_iff_left fun row hrow => exists_testAll_of_forall (h row hrow)

theorem exists_order_of_each (hresolved : ∀ condition ∈ conditions, source.Resolves condition)
    (hrow : row ∈ source.rows) (hcondition : condition ∈ conditions)
    (hundefined : source.Undefined row condition)
    (hknot : ∀ knot, ¬source.IsKnot conditions knot) :
    ∃ good bad, conditions.Perm good ∧ conditions.Perm bad ∧
      (∃ selected, source.select good = .ok selected) ∧
        ¬∃ selected, source.select bad = .ok selected := by
  obtain ⟨good, hgood, htested⟩ := exists_order_of_not_knot hknot [] conditions
    (List.Perm.refl _) fun _ _ => ⟨true, rfl⟩
  obtain ⟨bad, hbad, hfails⟩ := exists_order_of_undefined hrow hcondition hundefined
  refine ⟨good, bad, hgood, hbad, exists_select_iff.2 ⟨fun other hother => ?_, htested⟩, hfails⟩
  exact hresolved other (hgood.symm.subset hother)

/--
All orders of the same conditions fare alike exactly if an operand is unknown, no condition
is undefined on any row, or some of the conditions form a knot. Whatever the order, those
that succeed keep the same rows.
-/
theorem select_perm_iff (source : Relation) (conditions : List Condition) :
    ((∀ others, conditions.Perm others →
          Outcome.Alike (source.select conditions) (source.select others)) ↔
        (∃ condition ∈ conditions, ¬source.Resolves condition) ∨
          (∀ row ∈ source.rows, ∀ condition ∈ conditions, ¬source.Undefined row condition) ∨
            ∃ knot, source.IsKnot conditions knot) ∧
      ∀ others first second, conditions.Perm others →
        source.select conditions = .ok first → source.select others = .ok second →
          first = second := by
  constructor
  · constructor
    · intro halike
      by_contra hnone
      push Not at hnone
      obtain ⟨hresolved, ⟨row, hrow, condition, hcondition, hundefined⟩, hknot⟩ := hnone
      obtain ⟨good, bad, hgood, hbad, hsucceeds, hfails⟩ :=
        exists_order_of_each hresolved hrow hcondition hundefined hknot
      have hown := ((alike_select_iff hgood).1 (halike good hgood)).2 hsucceeds
      exact hfails (((alike_select_iff hbad).1 (halike bad hbad)).1 hown)
    · intro h others hperm
      have hself := List.Perm.refl conditions
      rw [alike_select_iff hperm]
      rcases h with ⟨condition, hcondition, hunknown⟩ | hdefined | ⟨knot, hknot⟩
      · refine iff_of_false (fun hselected => ?_) fun hselected => ?_
        · exact hunknown ((exists_select_iff.1 hselected).1 condition hcondition)
        · exact hunknown ((exists_select_iff.1 hselected).1 condition (hperm.subset hcondition))
      · exact (exists_select_iff_of_defined hdefined hself).trans
          (exists_select_iff_of_defined hdefined hperm).symm
      · exact iff_of_false (hknot.not_exists_select hself) (hknot.not_exists_select hperm)
  · intro others first second hperm hfirst hsecond
    rw [← (select_eq_ok_iff.1 hfirst).2.2, ← (select_eq_ok_iff.1 hsecond).2.2]
    exact satisfying_perm hperm

/-- Each of two texts has its own column for another one, which may be missing. -/
def pairs : Relation :=
  ⟨"pairs".toList,
    [⟨['a'], .string⟩, ⟨['b'], .string⟩, ⟨['c'], .string⟩, ⟨['d'], .string⟩],
    [[.text ['x'], .nan, .text ['y'], .text ['z']], [.text ['x'], .text ['y'], .text ['z'], .nan]]⟩

def samePair : Condition :=
  ⟨['a'], .equal, ['b']⟩

def sameOther : Condition :=
  ⟨['c'], .equal, ['d']⟩

def isAnn : Condition :=
  ⟨"name".toList, .equal, "'Ann'".toList⟩

/--
Each condition fails on the row that the other one would have passed over. Conditions that
never fail can be swapped.
-/
theorem select_perm_iff_knot :
    pairs.IsKnot [samePair, sameOther] [samePair, sameOther] ∧
      [samePair, sameOther].Perm [sameOther, samePair] ∧
        Outcome.Alike (pairs.select [samePair, sameOther]) (pairs.select [sameOther, samePair]) ∧
      ∃ first second, members.select [inGroup, isAnn] = .ok first ∧
        members.select [isAnn, inGroup] = .ok second ∧ first = second := by
  have hperm : [samePair, sameOther].Perm [sameOther, samePair] := List.Perm.swap ..
  have hfirst : pairs.test [.text ['x'], .nan, .text ['y'], .text ['z']] samePair =
      .error (.incomparable (.typed .string) .equal .nan) := by decide +kernel
  have hsecond : pairs.test [.text ['x'], .text ['y'], .text ['z'], .nan] sameOther =
      .error (.incomparable (.typed .string) .equal .nan) := by decide +kernel
  have hknot : pairs.IsKnot [samePair, sameOther] [samePair, sameOther] := by
    refine ⟨nofun, List.Subset.refl _, List.forall_mem_cons.2 ⟨?_, List.forall_mem_singleton.2 ?_⟩⟩
    · exact ⟨_, List.mem_cons_self, ⟨_, hfirst⟩, fun other hother hnot => absurd hother hnot⟩
    · exact ⟨_, List.mem_cons_of_mem _ List.mem_cons_self, ⟨_, hsecond⟩,
        fun other hother hnot => absurd hother hnot⟩
  have hselected : members.select [inGroup, isAnn] = .ok { members with
      rows := [[.int 1, .text "Ann".toList, .text "Ann".toList]] } := by decide +kernel
  have hswapped : members.select [isAnn, inGroup] = .ok { members with
      rows := [[.int 1, .text "Ann".toList, .text "Ann".toList]] } := by decide +kernel
  exact ⟨hknot, hperm,
    (select_perm_iff pairs [samePair, sameOther]).1.2 (.inr (.inr ⟨_, hknot⟩)) _ hperm, _, _,
    hselected, hswapped, (select_perm_iff members [inGroup, isAnn]).2 _ _ _ (List.Perm.swap ..)
      hselected hswapped⟩

/-- A condition fails first of all on a row that the other order passes over. -/
theorem not_alike_guarded :
    [inGroup, sameNick].Perm [sameNick, inGroup] ∧
      ¬Outcome.Alike (members.select [inGroup, sameNick]) (members.select [sameNick, inGroup]) := by
  have hgood : members.select [inGroup, sameNick] = .ok { members with
      rows := [[.int 1, .text "Ann".toList, .text "Ann".toList]] } := by decide +kernel
  have hbad : members.select [sameNick, inGroup] =
      .error (.incomparable (.typed .string) .equal .nan) := by decide +kernel
  refine ⟨List.Perm.swap .., ?_⟩
  rw [hgood, hbad]
  rintro (⟨kept, -, h⟩ | ⟨e, e', h, -⟩)
  · cases h
  · cases h

end Relation

end Relata
