import Relata.Proofs.Projection.Targets
import Relata.Proofs.World.Tables

/-!
# What a selection keeps

A selection takes its conditions one after the other and tests all rows that are left under
each. The same comes out row by row: a row is tested from condition to condition up to the
first that does not hold. The selection succeeds exactly if every operand is known and no
such test fails, and keeps the rows on which all conditions hold.
-/

namespace Relata

namespace Relation

/-- The left operand is a column, and the right one a column or a literal. -/
def Resolves (source : Relation) (condition : Condition) : Prop :=
  source.HasColumn condition.left ∧
    (source.HasColumn condition.right ∨ ∃ value, Value.read condition.right = .ok value)

def test (source : Relation) (row : Row) (condition : Condition) : Except Error Bool := do
  let value ← source.meaning row condition.right
  (source.under row condition.left).compare condition.op value

/-- Tests a row under conditions from left to right, up to the first that does not hold. -/
def testAll (source : Relation) (row : Row) : List Condition → Except Error Bool
  | [] => .ok true
  | condition :: rest => do
      if ← source.test row condition then source.testAll row rest else return false

def Holds (source : Relation) (row : Row) (condition : Condition) : Prop :=
  source.test row condition = .ok true

instance (source : Relation) (row : Row) (condition : Condition) :
    Decidable (source.Holds row condition) :=
  inferInstanceAs (Decidable (source.test row condition = .ok true))

/-- The rows on which all conditions hold, in their order, under the same name and columns. -/
def satisfying (source : Relation) (conditions : List Condition) : Relation :=
  { source with
    rows := source.rows.filter fun row => ∀ condition ∈ conditions, source.Holds row condition }

variable {source : Relation} {row : Row} {condition : Condition} {conditions : List Condition}

/-! ## Tests of one row -/

theorem testAll_cons (source : Relation) (row : Row) (condition : Condition)
    (conditions : List Condition) : source.testAll row (condition :: conditions) =
      source.test row condition >>= fun holds =>
        if holds then source.testAll row conditions else .ok false :=
  rfl

theorem testAll_append (source : Relation) (row : Row) (conditions more : List Condition) :
    source.testAll row (conditions ++ more) = source.testAll row conditions >>= fun holds =>
      if holds then source.testAll row more else .ok false := by
  induction conditions with
  | nil => rfl
  | cons condition conditions ih =>
      rw [List.cons_append, testAll_cons, testAll_cons, ih]
      cases source.test row condition with
      | error e => rfl
      | ok holds => cases holds <;> rfl

theorem testAll_eq_true_iff :
    source.testAll row conditions = .ok true ↔
      ∀ condition ∈ conditions, source.Holds row condition := by
  induction conditions with
  | nil => simp [testAll]
  | cons condition conditions ih =>
      rw [List.forall_mem_cons, ← ih, testAll_cons, Holds]
      cases source.test row condition with
      | error e => simp [bind, Except.bind]
      | ok holds => cases holds <;> simp [bind, Except.bind]

theorem exists_testAll_cons_iff :
    (∃ holds, source.testAll row (condition :: conditions) = .ok holds) ↔
      (∃ holds, source.test row condition = .ok holds) ∧
        (source.Holds row condition → ∃ holds, source.testAll row conditions = .ok holds) := by
  rw [testAll_cons, Holds]
  cases source.test row condition with
  | error e => simp [bind, Except.bind]
  | ok holds => cases holds <;> simp [bind, Except.bind]

/-! ## Other rows under the same columns -/

theorem testAll_withRows (source : Relation) (rows : List Row) (row : Row)
    (conditions : List Condition) :
    testAll { source with rows } row conditions = source.testAll row conditions := by
  induction conditions with
  | nil => rfl
  | cons condition conditions ih =>
      rw [testAll_cons, testAll_cons, ih]
      rfl

theorem satisfying_cons (source : Relation) (condition : Condition) (conditions : List Condition) :
    (source.satisfying [condition]).satisfying conditions =
      source.satisfying (condition :: conditions) := by
  have hrows : (source.rows.filter fun row => ∀ other ∈ [condition], source.Holds row other).filter
      (fun row => ∀ other ∈ conditions, source.Holds row other) =
        source.rows.filter fun row => ∀ other ∈ condition :: conditions, source.Holds row other := by
    rw [List.filter_filter]
    refine List.filter_congr fun row _ => ?_
    rw [← Bool.decide_and, decide_eq_decide, List.forall_mem_singleton, List.forall_mem_cons]
    exact and_comm
  exact congrArg (Relation.mk source.name source.columns) hrows

/-! ## One condition -/

theorem test_eq {i : Nat} {operand : Operand}
    (hleft : Column.index? source.columns condition.left = some i)
    (hright : Operand.read source.columns condition.right = .ok operand) (row : Row) :
    source.test row condition = (cell row i).compare condition.op (operand.value row) := by
  rw [test, meaning_of_read hright, under_of_index? hleft]
  rfl

theorem keepRows_cons (test : Row → Except Error Bool) (row : Row) (rows : List Row) :
    keepRows test (row :: rows) = test row >>= fun holds =>
      if holds then (row :: ·) <$> keepRows test rows else keepRows test rows := by
  unfold keepRows
  rw [List.filterMapM_cons]
  cases test row with
  | error e => rfl
  | ok holds => cases holds <;> rfl

theorem keepRows_eq_ok_iff {test : Row → Except Error Bool} {rows kept : List Row} :
    keepRows test rows = .ok kept ↔ (∀ row ∈ rows, ∃ holds, test row = .ok holds) ∧
      kept = rows.filter fun row => test row = .ok true := by
  induction rows generalizing kept with
  | nil => simp [keepRows, pure, Except.pure, eq_comm]
  | cons row rows ih =>
      rw [keepRows_cons, List.forall_mem_cons]
      cases hrow : test row with
      | error e => simp [bind, Except.bind]
      | ok holds =>
          cases holds with
          | false =>
              rw [List.filter_cons_of_neg (by simp [hrow])]
              simp [bind, Except.bind, ih]
          | true =>
              have hmap : (row :: ·) <$> keepRows test rows = .ok kept ↔
                  (∀ other ∈ rows, ∃ holds, test other = .ok holds) ∧
                    row :: rows.filter (fun other => test other = .ok true) = kept := by
                simp only [Outcome.map_eq_ok, ih, and_assoc, exists_and_left, exists_eq_left]
              rw [List.filter_cons_of_pos (by simp [hrow]), eq_comm (a := kept)]
              simpa [bind, Except.bind] using hmap

theorem selectOne_of_index? {i : Nat} {operand : Operand}
    (hleft : Column.index? source.columns condition.left = some i)
    (hright : Operand.read source.columns condition.right = .ok operand) :
    source.selectOne condition =
      (fun rows => { source with rows }) <$>
        keepRows (source.test · condition) source.rows := by
  simp only [test_eq hleft hright, selectOne, Column.index, hleft, hright, bind, Except.bind]
  cases keepRows (fun row => (cell row i).compare condition.op (operand.value row)) source.rows <;>
    rfl

theorem selectOne_eq_ok_iff {selected : Relation} :
    source.selectOne condition = .ok selected ↔ source.Resolves condition ∧
      (∀ row ∈ source.rows, ∃ holds, source.test row condition = .ok holds) ∧
        source.satisfying [condition] = selected := by
  rw [Resolves, ← exists_index?_iff, ← exists_read_iff]
  cases hleft : Column.index? source.columns condition.left with
  | none => simp [selectOne, Column.index, hleft, bind, Except.bind]
  | some i =>
      cases hright : Operand.read source.columns condition.right with
      | error e => simp [selectOne, Column.index, hleft, hright, bind, Except.bind]
      | ok operand =>
          have hkept : (source.rows.filter fun row => source.test row condition = .ok true) =
              (source.satisfying [condition]).rows :=
            List.filter_congr fun row _ => by simp [Holds]
          rw [selectOne_of_index? hleft hright, Outcome.map_eq_ok]
          simp only [keepRows_eq_ok_iff, hkept, and_assoc, exists_and_left, exists_eq_left]
          exact ⟨fun h => ⟨⟨i, rfl⟩, ⟨operand, rfl⟩, h⟩, fun h => h.2.2⟩

/-! ## All conditions -/

theorem select_cons (source : Relation) (condition : Condition) (conditions : List Condition) :
    source.select (condition :: conditions) =
      source.selectOne condition >>= fun kept => kept.select conditions :=
  List.foldlM_cons

theorem select_append (source : Relation) (conditions more : List Condition) :
    source.select (conditions ++ more) =
      source.select conditions >>= fun kept => kept.select more :=
  List.foldlM_append

theorem mem_satisfying_rows :
    row ∈ (source.satisfying conditions).rows ↔
      row ∈ source.rows ∧ ∀ condition ∈ conditions, source.Holds row condition := by
  rw [satisfying, List.mem_filter, decide_eq_true_iff]

/-- The later conditions are tested on the rows on which the first one holds, and on no other. -/
theorem exists_testAll_of_cons_iff :
    (∀ row ∈ source.rows, ∃ holds, source.testAll row (condition :: conditions) = .ok holds) ↔
      (∀ row ∈ source.rows, ∃ holds, source.test row condition = .ok holds) ∧
        ∀ row ∈ (source.satisfying [condition]).rows, ∃ holds,
          (source.satisfying [condition]).testAll row conditions = .ok holds := by
  have hkept (row : Row) : (source.satisfying [condition]).testAll row conditions =
      source.testAll row conditions := testAll_withRows source _ row conditions
  simp only [exists_testAll_cons_iff, hkept, mem_satisfying_rows, List.forall_mem_singleton]
  constructor
  · intro h
    exact ⟨fun row hrow => (h row hrow).1, fun row hrow => (h row hrow.1).2 hrow.2⟩
  · intro h row hrow
    exact ⟨h.1 row hrow, fun hholds => h.2 row ⟨hrow, hholds⟩⟩

theorem select_eq_ok_iff {selected : Relation} :
    source.select conditions = .ok selected ↔
      (∀ condition ∈ conditions, source.Resolves condition) ∧
        (∀ row ∈ source.rows, ∃ holds, source.testAll row conditions = .ok holds) ∧
          source.satisfying conditions = selected := by
  -- what the first condition keeps is the source of the others, under the same columns
  induction conditions generalizing source with
  | nil => simp [select, testAll, satisfying, pure, Except.pure]
  | cons condition conditions ih =>
      have hresolves : (∀ other ∈ conditions, (source.satisfying [condition]).Resolves other) ↔
          ∀ other ∈ conditions, source.Resolves other := Iff.rfl
      rw [select_cons, Outcome.bind_eq_ok, List.forall_mem_cons, exists_testAll_of_cons_iff,
        ← satisfying_cons source condition conditions]
      simp only [selectOne_eq_ok_iff, ih]
      constructor
      · rintro ⟨_, ⟨hfirst, htests, rfl⟩, hrest, hrows, hselected⟩
        exact ⟨⟨hfirst, hresolves.1 hrest⟩, ⟨htests, hrows⟩, hselected⟩
      · rintro ⟨⟨hfirst, hrest⟩, ⟨htests, hrows⟩, hselected⟩
        exact ⟨_, ⟨hfirst, htests, rfl⟩, hresolves.2 hrest, hrows, hselected⟩

theorem exists_select_iff :
    (∃ selected, source.select conditions = .ok selected) ↔
      (∀ condition ∈ conditions, source.Resolves condition) ∧
        ∀ row ∈ source.rows, ∃ holds, source.testAll row conditions = .ok holds := by
  simp only [select_eq_ok_iff, exists_and_left, exists_eq', and_true]

/--
A selection succeeds exactly if its operands are known and the test of every row, up to the
first condition that does not hold, succeeds; it keeps the rows on which all conditions hold.
A select with further conditions shows some of the rows, in their order.
-/
theorem select_rowwise (source : Relation) (conditions : List Condition) :
    ((∃ selected, source.select conditions = .ok selected) ↔
        (∀ condition ∈ conditions, source.Resolves condition) ∧
          ∀ row ∈ source.rows, ∃ holds, source.testAll row conditions = .ok holds) ∧
      (∀ selected, source.select conditions = .ok selected →
        selected = source.satisfying conditions) ∧
      ∀ (catalog : Catalog) (query : Select) (more : List Condition) (first second : Relation),
        catalog.select query = .ok first →
        catalog.select { query with conditions := query.conditions ++ more } = .ok second →
          second.columns = first.columns ∧ second.rows.Sublist first.rows := by
  refine ⟨exists_select_iff, fun selected h => (select_eq_ok_iff.1 h).2.2.symm, ?_⟩
  intro catalog query more first second hfirst hsecond
  obtain ⟨joined, projected, hjoined, hprojected, hselected⟩ := Catalog.select_eq_ok.1 hfirst
  obtain ⟨_, _, hjoined', hprojected', hextended⟩ := Catalog.select_eq_ok.1 hsecond
  cases hjoined.symm.trans hjoined'
  cases hprojected.symm.trans hprojected'
  rw [select_append, hselected] at hextended
  exact select_sublist hextended

/-- Someone of group 0 has no nickname, and a text cannot be compared with the marker. -/
def members : Relation :=
  ⟨"members".toList,
    [⟨"group".toList, .int⟩, ⟨"name".toList, .string⟩, ⟨"nick".toList, .string⟩],
    [[.int 1, .text "Ann".toList, .text "Ann".toList], [.int 0, .text "Bob".toList, .nan],
      [.int 1, .text "Cy".toList, .text "Al".toList]]⟩

def inGroup : Condition :=
  ⟨"group".toList, .equal, ['1']⟩

def sameNick : Condition :=
  ⟨"name".toList, .equal, "nick".toList⟩

/-- The first condition passes over the row in which the second one fails. -/
theorem select_rowwise_guarded :
    let query : Select := ⟨.all, [members.name], [inGroup]⟩
    let catalog : Catalog := ⟨[(members.name, members)]⟩
    let first : Relation := { members with
      rows := [[.int 1, .text "Ann".toList, .text "Ann".toList],
        [.int 1, .text "Cy".toList, .text "Al".toList]] }
    let second : Relation := { members with
      rows := [[.int 1, .text "Ann".toList, .text "Ann".toList]] }
    catalog.select query = .ok first ∧
      catalog.select { query with conditions := query.conditions ++ [sameNick] } = .ok second ∧
        (∃ row ∈ members.rows, ¬∃ holds, members.test row sameNick = .ok holds) ∧
          members.select [inGroup, sameNick] = .ok (members.satisfying [inGroup, sameNick]) ∧
            second.columns = first.columns ∧ second.rows.Sublist first.rows := by
  intro query catalog first second
  have hfirst : catalog.select query = .ok first := by decide +kernel
  have hsecond : catalog.select { query with conditions := query.conditions ++ [sameNick] } =
      .ok second := by decide +kernel
  have hundefined : members.test [.int 0, .text "Bob".toList, .nan] sameNick =
      .error (.incomparable (.typed .string) .equal .nan) := by decide +kernel
  have hselected : members.select [inGroup, sameNick] = .ok second := by decide +kernel
  refine ⟨hfirst, hsecond, ⟨_, List.mem_cons_of_mem _ List.mem_cons_self, ?_⟩, ?_,
    (select_rowwise members []).2.2 catalog query [sameNick] first second hfirst hsecond⟩
  · rintro ⟨holds, hholds⟩
    cases hundefined.symm.trans hholds
  · rw [← (select_rowwise members [inGroup, sameNick]).2.1 second hselected]
    exact hselected

end Relation

end Relata
